import Wordflow.Build.Tokens

namespace Wordflow.Build

variable {O : Type}

mutual

/-- The search below a node. -/
def findBelow : BuilderToken O → String → Option (BuilderToken O)
  | .combination _ _ _ children, id => findExpression children id
  | _, _ => none

def findExpression : List (BuilderToken O) → String → Option (BuilderToken O)
  | [], _ => none
  | node :: rest, id =>
      if node.id = id then some node
      else match findBelow node id with
        | some found => some found
        | none => findExpression rest id

end

mutual

def updateBelow : BuilderToken O → String → (BuilderToken O → BuilderToken O) → BuilderToken O
  | .combination own operations chosen children, id, update =>
      .combination own operations chosen (updateExpression children id update)
  | node, _, _ => node

def updateExpression : List (BuilderToken O) → String → (BuilderToken O → BuilderToken O) → List (BuilderToken O)
  | [], _, _ => []
  | node :: rest, id, update =>
      (if node.id = id then update node else updateBelow node id update) :: updateExpression rest id update

end

mutual

def removeBelow : BuilderToken O → String → BuilderToken O
  | .combination own operations chosen children, id => .combination own operations chosen (removeExpression children id)
  | node, _ => node

/-- The filter and the map in one pass. -/
def removeExpression : List (BuilderToken O) → String → List (BuilderToken O)
  | [], _ => []
  | node :: rest, id =>
      if node.id ≠ id then removeBelow node id :: removeExpression rest id else removeExpression rest id

end

/-- `toSpliced(index, 0, item)`. -/
def spliced {α : Type} (items : List α) (index : Nat) (item : α) : List α := items.take index ++ item :: items.drop index

def insertExpression (nodes : List (BuilderToken O)) (parent : Option String) (index : Nat) (expression : BuilderToken O) :
    List (BuilderToken O) :=
  match parent with
  | none => spliced nodes index expression
  | some parent =>
      updateExpression nodes parent fun node =>
        match node with
        | .combination own operations chosen children => .combination own operations chosen (spliced children index expression)
        | node => node

mutual

def locationBelow : BuilderToken O → String → Option (Option String × Nat)
  | .combination own _ _ children, id => locationFrom children id (some own) 0
  | _, _ => none

/-- The loop over the siblings from `index` on. -/
def locationFrom : List (BuilderToken O) → String → Option String → Nat → Option (Option String × Nat)
  | [], _, _, _ => none
  | node :: rest, id, parent, index =>
      if node.id = id then some (parent, index)
      else match locationBelow node id with
        | some result => some result
        | none => locationFrom rest id parent (index + 1)

end

def expressionLocation (nodes : List (BuilderToken O)) (id : String) : Option (Option String × Nat) :=
  locationFrom nodes id none 0

def moveExpression (nodes : List (BuilderToken O)) (id : String) (parent : Option String) (index : Nat) :
    List (BuilderToken O) :=
  if parent.any fun parent => !(findExpression nodes parent).any BuilderToken.combines then nodes
  else match findExpression nodes id, expressionLocation nodes id with
    | some expression, some location =>
        if parent.any fun parent => (findExpression [expression] parent).isSome then nodes
        else
          let slot := if location.1 = parent ∧ location.2 < index then index - 1 else index
          insertExpression (removeExpression nodes id) parent slot expression
    | _, _ => nodes

end Wordflow.Build
