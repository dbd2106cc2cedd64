import Mathlib.Data.List.Basic

namespace Wordflow.Build

inductive LiteralType
  | text
  | number
  | boolean
  | null
  deriving DecidableEq

inductive CombinationKind
  | text
  | add
  | subtract
  | multiply
  | divide
  | greatest
  | least
  | coalesce
  | list
  | listConcat
  | and
  | or
  deriving DecidableEq

structure Combination where
  kind : CombinationKind
  separator : String
  deriving DecidableEq

/-- A bubble of the expression builder, with the operations on it. -/
inductive BuilderToken (O : Type)
  | column (id : String) (operations : List O) (column : String)
  | literal (id : String) (operations : List O) (literalType : LiteralType) (value : String)
  | combination (id : String) (operations : List O) (combination : Option Combination) (children : List (BuilderToken O))
  | sql (id : String) (operations : List O) (expression : String)

namespace BuilderToken

variable {O : Type}

def id : BuilderToken O → String
  | .column id _ _ | .literal id _ _ _ | .combination id _ _ _ | .sql id _ _ => id

def children : BuilderToken O → List (BuilderToken O)
  | .combination _ _ _ children => children
  | _ => []

/-- `kind === 'combination'`. -/
def combines : BuilderToken O → Bool
  | .combination .. => true
  | _ => false

/-- `{ ...node, children }` of a combination. -/
def withChildren : BuilderToken O → List (BuilderToken O) → BuilderToken O
  | .combination id operations chosen _, children => .combination id operations chosen children
  | node, _ => node

@[simp] theorem withChildren_id (node : BuilderToken O) (children : List (BuilderToken O)) :
    (node.withChildren children).id = node.id := by
  cases node <;> rfl

@[simp] theorem withChildren_combines (node : BuilderToken O) (children : List (BuilderToken O)) :
    (node.withChildren children).combines = node.combines := by
  cases node <;> rfl

@[simp] theorem withChildren_withChildren (node : BuilderToken O) (children others : List (BuilderToken O)) :
    (node.withChildren children).withChildren others = node.withChildren others := by
  cases node <;> rfl

@[simp] theorem withChildren_children (node : BuilderToken O) : node.withChildren node.children = node := by
  cases node <;> rfl

theorem children_withChildren {node : BuilderToken O} (h : node.combines = true) (children : List (BuilderToken O)) :
    (node.withChildren children).children = children := by
  cases node with
  | combination => rfl
  | column | literal | sql => cases h

theorem children_of_not_combines {node : BuilderToken O} (h : node.combines = false) : node.children = [] := by
  cases node with
  | combination => cases h
  | column | literal | sql => rfl

/-- Induction on a forest: its first node has a forest below it, and there is the rest. -/
theorem forest_induction {P : List (BuilderToken O) → Prop} (nil : P [])
    (cons : ∀ node rest, P node.children → P rest → P (node :: rest)) (nodes : List (BuilderToken O)) : P nodes :=
  BuilderToken.rec_1 (motive_1 := fun node => P node.children) (motive_2 := P) (fun _ _ _ => nil) (fun _ _ _ _ => nil)
    (fun _ _ _ _ h => h) (fun _ _ _ => nil) nil (fun node rest hnode hrest => cons node rest hnode hrest) nodes

end BuilderToken

end Wordflow.Build
