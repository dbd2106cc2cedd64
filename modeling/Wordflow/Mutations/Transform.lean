import Wordflow.Library.Expression
import Wordflow.Library.Fallible
import Wordflow.Library.Text
import Wordflow.Query.Wrap

namespace Wordflow.Mutations

open Library Library.Fallible Library.Identifier Objects Query

variable {V : Type}

abbrev Reference := List String

abbrev Expression := Expr Reference

/-- What a reference is bound to: a column of the input, or an earlier output of
the same SELECT list. -/
inductive Leaf
  | column (name : String)
  | output (name : String)
  deriving DecidableEq

abbrev Reading := Expr Leaf

/-- What the database does with expressions: `parse` is their syntax, `apply`
and `resultType` the meaning of calls, `cast` the cast to a type. -/
structure Engine (V : Type) where
  parse : String → Except Error Expression
  apply : String → List V → Option V
  resultType : String → List String → Option String
  null : V
  cast : String → V → Option V

/-- A value has the type its expression is bound to, and casting it to that type
does not change it. -/
structure Engine.Sound (db : Engine V) : Prop where
  typed : ∀ {name types values type v}, List.Forall₂ (fun type v => db.cast type v = some v) types values →
    db.resultType name types = some type → db.apply name values = some v → db.cast type v = some v

structure ColumnExpression where
  column : String
  expression : String
  replace : Bool
  deriving DecidableEq

structure Item where
  name : String
  expression : Expression
  replace : Bool

/-- The relation whose columns are changed. No two columns of a relation have
one name up to case. -/
structure Source where
  database : String
  relation : Relation
  fields : List (String × String)
  distinct : (fields.map fun f => asciiLower f.1).Nodup

/-- A column of a SELECT list; one without an expression is copied. -/
structure Output where
  name : String
  expression : Option Expression

abbrev Cells (V : Type) := List (String × V)

def value (row : Cells V) (name : String) : Option V := (row.find? fun c => c.1 = name).map Prod.snd

section Names

/-- The columns that a FROM clause with one item offers, and the qualifiers it
answers to. -/
structure Scope where
  qualifiers : List (List String)
  columns : List String

def Scope.resolve (s : Scope) (names : Reference) : Option String :=
  match names.getLast? with
  | none => none
  | some name =>
      if names.dropLast = [] ∨ s.qualifiers.any fun q => q.map asciiLower = names.dropLast.map asciiLower then
        s.columns.find? fun c => eqIgnoreAsciiCase c name
      else none

def Source.scope (source : Source) : Scope where
  qualifiers := [[source.relation.name], [source.relation.schema, source.relation.name],
    [source.database, source.relation.schema, source.relation.name]]
  columns := source.fields.map Prod.fst

/-- The scope of a query layer over the view's previous definition. -/
def Source.wrapped (source : Source) : Scope := ⟨[[PREVIOUS]], source.fields.map Prod.fst⟩

/-- What `rename_input_qualifiers` makes of a reference. -/
def renameInput : Reference → Reference
  | [] => []
  | name :: rest => if name = INPUT then PREVIOUS :: rest else name :: rest

def columnRef (s : Scope) (names : Reference) : Option Reading := (s.resolve names).map fun c => .ref (.column c)

/-- A name in a SELECT list is a column, or else an earlier output. -/
def selectRef (s : Scope) (outputs : List String) (names : Reference) : Option Reading :=
  match s.resolve names with
  | some c => some (.ref (.column c))
  | none =>
      match names with
      | [name] => (outputs.find? fun o => eqIgnoreAsciiCase o name).map fun o => .ref (.output o)
      | _ => none

def Output.bind (f : Reference → Option Reading) (o : Output) : Option Reading :=
  match o.expression with
  | some e => e.bind f
  | none => some (.ref (.column o.name))

/-- Bind a SELECT list from left to right. -/
def bindSelect (s : Scope) (read : Reference → Reference) :
    List String → List Output → Option (List (Output × Reading))
  | _, [] => some []
  | done, o :: rest =>
      match o.bind (fun names => selectRef s done (read names)), bindSelect s read (done ++ [o.name]) rest with
      | some b, some bs => some ((o, b) :: bs)
      | _, _ => none

def bindEach (s : Scope) (outputs : List Output) : Option (List (Output × Reading)) :=
  outputs.mapM fun o => (o.bind (columnRef s)).map fun b => (o, b)

end Names

section Rows

def leaf (row done : Cells V) : Leaf → Option V
  | .column name => value row name
  | .output name => value done name

/-- The cells of a SELECT list for one row of its input; with types for values,
the types of its columns. -/
def selectRow (apply : String → List V → Option V) (row : Cells V) :
    Cells V → List (Output × Reading) → Option (Cells V)
  | _, [] => some []
  | done, (o, b) :: rest =>
      match b.eval apply (leaf row done) with
      | none => none
      | some v => (selectRow apply row (done ++ [(o.name, v)]) rest).map fun cells => (o.name, v) :: cells

/-- The cells of one row after an UPDATE, each cast to its column's type. -/
def updateRow (db : Engine V) (columns : List (String × String)) (row : Cells V) (plan : List (Output × Reading)) :
    Option (Cells V) :=
  plan.mapM fun p =>
    match p.1.expression with
    | none => (value row p.1.name).map fun v => (p.1.name, v)
    | some _ => do
        let v ← p.2.eval db.apply (leaf row [])
        let type ← value columns p.1.name
        (db.cast type v).map fun v => (p.1.name, v)

end Rows

/-- The checks on one requested column, which give its name. -/
def resolveColumn (fields : List (String × String)) (item : ColumnExpression) : Except Error String :=
  if item.replace then
    match fields.find? fun f => eqIgnoreAsciiCase f.1 item.column with
    | some f => .ok f.1
    | none => .error (.invalid ("Column is unavailable: " ++ item.column))
  else if Text.trim item.column = "" then .error (.invalid "Enter a column name")
  else if fields.any fun f => eqIgnoreAsciiCase f.1 (Text.trim item.column) then
    .error (.invalid "A column with this name already exists")
  else .ok (Text.trim item.column)

/-- The loop over the requested columns, with those resolved so far. -/
def resolveItems (db : Engine V) (fields : List (String × String)) :
    List Item → List ColumnExpression → Except Error (List Item)
  | resolved, [] => .ok resolved
  | resolved, item :: rest => do
      let name ← resolveColumn fields item
      if resolved.any fun r => eqIgnoreAsciiCase r.name name then
        .error (.invalid "Output column names must be unique")
      else
        let e ← db.parse item.expression
        resolveItems db fields (resolved ++ [⟨name, e, item.replace⟩]) rest

/-- DESCRIBE of the requested expressions over the relation. -/
def describe (db : Engine V) (source : Source) (items : List Item) : Option (Cells String) := do
  let plan ← bindSelect source.scope id [] (items.map fun i => ⟨i.name, some i.expression⟩)
  selectRow db.resultType source.fields [] plan

/-- What `transform_columns` checks before it changes anything: the requested
columns with the types of their expressions. -/
def prepare (db : Engine V) (source : Source) (requested : List ColumnExpression) :
    Except Error (List Item × Cells String) :=
  if requested = [] ∨ requested.length > 50 then .error (.invalid "Change between 1 and 50 columns at once")
  else do
    let items ← resolveItems db source.fields [] requested
    match describe db source items with
    | some types => .ok (items, types)
    | none => .error ⟨"sql_error", "Binder Error"⟩

def additions (items : List Item) : List Item := items.filter fun i => !i.replace

/-- `SELECT * REPLACE (…), …` -/
def viewOutputs (source : Source) (items : List Item) : List Output :=
  (source.fields.map fun f =>
      ⟨f.1, (items.find? fun i => i.replace && i.name = f.1).map Item.expression⟩) ++
    (additions items).map fun i => ⟨i.name, some i.expression⟩

def viewPlan (db : Engine V) (source : Source) (items : List Item) : Option (List (Output × Reading)) := do
  if items.any fun i => i.name = INPUT || i.name = PREVIOUS then none
  else
    let plan ← bindSelect source.wrapped renameInput [] (viewOutputs source items)
    let _ ← selectRow db.resultType source.fields [] plan
    some plan

def viewRow (db : Engine V) (plan : List (Output × Reading)) (row : Cells V) : Option (Cells V) :=
  selectRow db.apply row [] plan

/-- The columns after `ALTER TABLE … ADD COLUMN` for every addition. -/
def tableColumns (source : Source) (items : List Item) (types : Cells String) : List (String × String) :=
  (additions items).foldl (fun columns i => columns ++ [(i.name, (value types i.name).getD "")]) source.fields

def tableOutputs (columns : List (String × String)) (items : List Item) : List Output :=
  columns.map fun c => ⟨c.1, (items.find? fun i => i.name = c.1).map Item.expression⟩

def tablePlan (db : Engine V) (source : Source) (items : List Item) (types : Cells String) :
    Option (List (Output × Reading)) := do
  let columns := tableColumns source items types
  let plan ← bindEach { source.scope with columns := columns.map Prod.fst } (tableOutputs columns items)
  let _ ← selectRow db.resultType columns [] plan
  some plan

/-- An added column is NULL in every row the UPDATE reads. -/
def tableRow (db : Engine V) (source : Source) (items : List Item) (types : Cells String)
    (plan : List (Output × Reading)) (row : Cells V) : Option (Cells V) :=
  updateRow db (tableColumns source items types) (row ++ (additions items).map fun i => (i.name, db.null)) plan

end Wordflow.Mutations
