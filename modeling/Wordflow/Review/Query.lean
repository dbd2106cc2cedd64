import Wordflow.CellEdit.Editor
import Wordflow.Review.Comparison

namespace Wordflow.Review

open Library Library.Fallible Library.Identifier Objects Tables Annotation

inductive Existence
  | off
  | present
  | empty
  deriving DecidableEq

structure RowFilter where
  column : String
  differs : Bool
  existence : Existence

structure ReviewRequest where
  compare : List String
  changes : List Patch
  filter : Option RowFilter

variable {V : Type} [DecidableEq V]

section Labels

/-- The characters that the generated `trim` removes. -/
def trimCharacters : List Char :=
  ['\t', '\n', '\x0b', '\x0c', '\r', ' ', '\u0085', '\u00a0', '\u1680', '\u2000', '\u2001', '\u2002', '\u2003', '\u2004',
    '\u2005', '\u2006', '\u2007', '\u2008', '\u2009', '\u200a', '\u2028', '\u2029', '\u202f', '\u205f', '\u3000']

/-- The SQL function of two arguments. -/
def sqlTrim (characters : List Char) (s : String) : String :=
  String.ofList ((s.toList.dropWhile (· ∈ characters)).reverse.dropWhile (· ∈ characters)).reverse

def trimmed (s : String) : String := sqlTrim trimCharacters s

/-- `nullif(trim(…), '')`. -/
def labelValue (text : Option String) : Option String :=
  match text with
  | some s => if trimmed s = "" then none else some (trimmed s)
  | none => none

def label (codes : Option (List Code)) (text : Option String) : Option String :=
  match codes with
  | none => labelValue text
  | some [] => none
  | some codes => (labelValue text).filter fun v => codes.any fun code => code.code = v

end Labels

/-- A row of the projection with the draft changes. -/
structure View (V : Type) where
  key : V
  cells : List (String × Option String)

section Overlay

variable (sql : Sql V)

def readText (row : Row V) (name : String) : Option String :=
  (row.cells.find? fun c => eqIgnoreAsciiCase c.1 name).bind fun c => sql.text c.2

/-- `CASE CAST(rowid AS VARCHAR) WHEN … END`. -/
def patchedText (changes : List Patch) (row : Row V) (name : String) : Option String :=
  match (changes.filter fun p => p.column = name).find? fun p => sql.text (row.key sql) = some p.rowRef with
  | some p => p.value
  | none => readText sql row name

def overlay (columns : List CellEdit.Column) (changes : List Patch) (row : Row V) : View V :=
  ⟨row.key sql, columns.map fun c => (c.name, patchedText sql changes row c.name)⟩

def View.text (v : View V) (name : String) : Option String :=
  (v.cells.find? fun c => eqIgnoreAsciiCase c.1 name).bind Prod.snd

def View.label (codes : Option (List Code)) (v : View V) (name : String) : Option String :=
  Wordflow.Review.label codes (v.text name)

end Overlay

/-- The rows that are returned, and what is said about all of them. -/
structure ReviewQuery (V : Type) where
  rows : List (Row V)
  totalRows : Nat
  filteredRows : Nat
  includesUnsavedChanges : Bool
  comparisons : List (Option Comparison)

section Query

def checkCompare (setup : ManualSetup) (columns : List CellEdit.Column) : List String → List String → Except Error Unit
  | _, [] => .ok ()
  | seen, name :: rest =>
      if name ∈ seen ∨ name = setup.document ∨ name = setup.annotation ∨ setup.correction = some name ∨
          !columns.any fun c => c.name = name && c.dataType = "VARCHAR" then
        .error (.invalid
          "Compare To requires distinct string columns outside the document, annotation and correction roles")
      else checkCompare setup columns (name :: seen) rest

def checkPatches (columns : List CellEdit.Column) : List (String × String) → List Patch → Except Error Unit
  | _, [] => .ok ()
  | cells, patch :: rest =>
      if (!columns.any fun c => c.editable && c.name = patch.column) ∨ (patch.rowRef, patch.column) ∈ cells then
        .error (.invalid "Review patches must identify distinct editable cells")
      else checkPatches columns ((patch.rowRef, patch.column) :: cells) rest

/-- A statement that names a column. -/
def bindColumn (columns : List CellEdit.Column) (name : String) : Except Error Unit :=
  if columns.any fun c => eqIgnoreAsciiCase c.name name then .ok () else .error (sqlError "Binder Error: Referenced column not found")

/-- Whether `<>` is true. -/
def differ (a b : Option String) : Bool := a.isSome && b.isSome && a ≠ b

def others (setup : ManualSetup) (compare : List String) (filter : RowFilter) : List String :=
  if filter.column = setup.annotation then compare else [setup.annotation]

/-- The conditions of a filter, which are joined by AND. -/
def keeps (codes : Option (List Code)) (setup : ManualSetup) (compare : List String) (filter : RowFilter) (v : View V) : Bool :=
  (!filter.differs || (others setup compare filter).isEmpty ||
      (others setup compare filter).any fun name => differ (v.label codes filter.column) (v.label codes name)) &&
    match filter.existence with
    | .off => true
    | .present => (v.label codes filter.column).isSome
    | .empty => (v.label codes filter.column).isNone

def checkFilter (columns : List CellEdit.Column) (setup : ManualSetup) (compare : List String) (filter : RowFilter) :
    Except Error Unit :=
  if filter.column ≠ setup.annotation ∧ filter.column ∉ compare then
    .error (.invalid "Filter must use the annotation column or a selected Compare To column")
  else if filter.differs ∧ others setup compare filter ≠ [] ∨ filter.existence ≠ .off then bindColumn columns filter.column
  else .ok ()

def keptBy (columns : List CellEdit.Column) (codes : Option (List Code)) (setup : ManualSetup) (compare : List String) :
    Option RowFilter → Except Error (View V → Bool)
  | none => .ok fun _ => true
  | some filter => (checkFilter columns setup compare filter).map fun _ => keeps codes setup compare filter

variable (sql : Sql V) (group : List (Option String × Option String) → List Pair)

def compared (columns : List CellEdit.Column) (codes : Option (List Code)) (setup : ManualSetup) (views : List (View V))
    (name : String) : Except Error (Option Comparison) := do
  bindColumn columns setup.annotation
  .ok (comparison name (group (views.map fun v => (v.label codes setup.annotation, v.label codes name))))

/-- The answer to a request that has been checked. `group` is what grouping gives, in some order. -/
def reviewRows (columns : List CellEdit.Column) (codes : Option (List Code)) (setup : ManualSetup) (request : ReviewRequest)
    (rows : List (Row V)) : Except Error (ReviewQuery V) := do
  let views := rows.map (overlay sql columns request.changes)
  let comparisons ← request.compare.mapM (compared group columns codes setup views)
  let kept ← keptBy columns codes setup request.compare request.filter
  let filtered := views.filter kept
  .ok ⟨rows.filter fun r => filtered.any fun v => sql.equal (r.key sql) v.key, views.length, filtered.length,
    request.changes ≠ [], comparisons⟩

def reviewSetup (snapshot live : Catalogue V) (relation : Relation) (columns : List CellEdit.Column) (setup : ManualSetup)
    (request : ReviewRequest) : Except Error (ReviewQuery V) := do
  let codes ← setup.codebook.mapM (readCodebook sql live)
  checkCompare setup columns [] request.compare
  checkPatches columns [] request.changes
  match snapshot.table? relation with
  | none => .error (sqlError "Catalog Error: Table does not exist")
  | some t => reviewRows sql group columns codes setup request t.rows

def reviewQuery (snapshot live : Catalogue V) (relation : Relation) (columns : List CellEdit.Column)
    (rules : Option EditRequest) (request : ReviewRequest) : Except Error (ReviewQuery V) :=
  match rules with
  | some (.manual setup) | some (.corrections setup) => reviewSetup sql group snapshot live relation columns setup request
  | _ => .error (.invalid "This editor does not support Annotation review")

end Query

end Wordflow.Review
