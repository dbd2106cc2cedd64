import Wordflow.Casts.Terms
import Wordflow.Query.Wrap

namespace Wordflow.Casts

open Library.Quoting

/-- What the database does with the values of a column: the casts and formats that it knows, and the text of a value. -/
structure Engine (V : Type) where
  cast : List Char → Option (V → Option V)
  strptime : List Char → Option (V → Option V)
  text : V → String

inductive Failure
  | invalid (message : String)
  | binder
  | conversion
  | required
  | unconverted (error : Failure) (failures : Nat) (examples : List String)
  deriving DecidableEq

abbrev Row (V : Type) := List (Option V)

def lower (name : List Char) : List Char := name.map Char.toLower

/-- A Table, or a View with the rows of its query. No two columns have one name up to case. -/
structure Relation (V : Type) where
  view : Bool
  columns : List (List Char)
  distinct : (columns.map lower).Nodup
  rows : List (Row V)
  shape : ∀ row ∈ rows, row.length = columns.length

/-- A relation as it is read after a change. -/
structure Changed (V : Type) where
  columns : List (List Char)
  rows : Except Failure (List (Row V))

inductive CastShortcut
  | string
  | integer
  | float
  | datetime
  | categorical
  deriving DecidableEq

inductive CastType
  | shortcut (shortcut : CastShortcut)
  | sql (sqlType : List Char)
  deriving DecidableEq

section Database

variable {V : Type} (db : Engine V)

def column? (columns : List (List Char)) (name : List Char) : Option Nat := columns.findIdx? fun c => lower c = lower name

/-- The names that a term uses are there. -/
def binds (columns : List (List Char)) : Term → Bool
  | .column name => (column? columns name).isSome
  | .cast _ value type => binds columns value && (db.cast type).isSome
  | .strptime _ value format => binds columns value && (db.strptime format).isSome

/-- Apply a conversion to a value. NULL stays NULL, and an attempt that fails gives NULL. -/
def applied (attempt : Bool) (f : V → Option V) : Option V → Except Failure (Option V)
  | none => .ok none
  | some v =>
      match f v with
      | some w => .ok (some w)
      | none => if attempt then .ok none else .error .conversion

def eval (columns : List (List Char)) (row : Row V) : Term → Except Failure (Option V)
  | .column name => .ok (((column? columns name).bind (row[·]?)).join)
  | .cast attempt value type => do
      let v ← eval columns row value
      match db.cast type with
      | some f => applied attempt f v
      | none => .error .binder
  | .strptime attempt value format => do
      let v ← eval columns row value
      match db.strptime format with
      | some f => applied attempt f v
      | none => .error .binder

/-- An expression as the database reads it, with the names it uses. -/
def bound (columns : List (List Char)) (expression : List Char) : Except Failure Term :=
  match read expression with
  | none => .error .binder
  | some term => if binds db columns term then .ok term else .error .binder

/-- `CREATE TYPE .. AS ENUM`: values are cast to it by their texts. -/
def Engine.createEnum [DecidableEq V] (name : List Char) (members : List V) : Engine V where
  cast := fun type => if type = name then some fun v => if v ∈ members then some v else none else db.cast type
  strptime := db.strptime
  text := db.text

theorem Engine.createEnum_self [DecidableEq V] (name : List Char) (members : List V) :
    (db.createEnum name members).cast name = some fun v => if v ∈ members then some v else none := if_pos rfl

theorem Engine.createEnum_of_ne [DecidableEq V] {name other : List Char} (h : other ≠ name) (members : List V) :
    (db.createEnum name members).cast other = db.cast other := if_neg h

def replaceCell (columns : List (List Char)) (i : Nat) (term : Term) (row : Row V) : Except Failure (Row V) :=
  (eval db columns row term).map fun v => row.set i v

end Database

section Source

def VARCHAR : List Char := ['V', 'A', 'R', 'C', 'H', 'A', 'R']

def BIGINT : List Char := ['B', 'I', 'G', 'I', 'N', 'T']

def DOUBLE : List Char := ['D', 'O', 'U', 'B', 'L', 'E']

def TIMESTAMP : List Char := ['T', 'I', 'M', 'E', 'S', 'T', 'A', 'M', 'P']

/-- An expression as it is parsed: a cast or not, whether it is an attempt, whether NULL is cast, and its text. -/
structure Parsed where
  cast : Bool
  tryCast : Bool
  null : Bool
  sql : List Char

def castNull : List Char := CAST ++ ['N', 'U', 'L', 'L'] ++ AS

/-- `expressions::cast_type`, for the text of an expression that is parsed. -/
def castType (parse : List Char → Except Failure Parsed) (input : List Char) : Except Failure (List Char) := do
  let expression ← parse (castNull ++ input ++ [')'])
  if expression.cast ∧ ¬expression.tryCast ∧ expression.null then
    match strip castNull expression.sql with
    | some target => if target.getLast? = some ')' then return target.dropLast else .error invalidType
    | none => .error invalidType
  else .error invalidType
where
  invalidType : Failure := .invalid "Enter one SQL type, such as DECIMAL(18,4) or VARCHAR[]."

def enumName (hex : List Char) : List Char :=
  ['w', 'o', 'r', 'd', 'f', 'l', 'o', 'w', '.'] ++ quote (['e', 'n', 'u', 'm', '_'] ++ hex)

/-- A format that is given, or else what is found in the first rows. -/
def selectFormat (found : Except Failure (Option (List Char))) : Option (List Char) → Except Failure (Option (List Char))
  | some explicit => .ok (some explicit)
  | none => found

/-- `datetime_cast::expression`. -/
def datetimeExpression (q : List Char) (found : Except Failure (Option (List Char))) (format : Option (List Char)) :
    Except Failure (List Char) := do
  let selected ← selectFormat found format
  return match selected with
    | some format => STRPTIME ++ CAST ++ q ++ AS ++ VARCHAR ++ [')'] ++ COMMA ++ literal format ++ [')']
    | none => CAST ++ q ++ AS ++ TIMESTAMP ++ [')']

def checkedText (expression : List Char) : List Char :=
  replaceFirst STRPTIME TRY_STRPTIME (replaceFirst CAST TRY_CAST expression)

variable {V : Type} [DecidableEq V] (db : Engine V) (parse : List Char → Except Failure Parsed) (hex : List Char)
  (found : Except Failure (Option (List Char)))

/-- The type of a target, and the database with it. -/
def sqlType (relation : Relation V) (i : Nat) : CastType → Except Failure (List Char × Engine V)
  | .shortcut .string => .ok (VARCHAR, db)
  | .shortcut .integer => .ok (BIGINT, db)
  | .shortcut .float => .ok (DOUBLE, db)
  | .shortcut .datetime => .ok (TIMESTAMP, db)
  | .shortcut .categorical => do
      let texts ← (match db.cast VARCHAR with
        | some f => (relation.rows.filterMap fun row => (row[i]?).join).mapM fun v => (f v).elim (.error .conversion) .ok
        | none => .error .binder)
      return (enumName hex, db.createEnum (enumName hex) texts)
  | .sql input => (castType parse input).map fun type => (type, db)

def expression (q sqlType : List Char) (target : CastType) (format : Option (List Char)) : Except Failure (List Char) :=
  match target with
  | .shortcut .datetime => datetimeExpression q found (format.filter fun f => f ≠ [])
  | .shortcut .categorical => .ok (CAST ++ CAST ++ q ++ AS ++ VARCHAR ++ [')'] ++ AS ++ sqlType ++ [')'])
  | _ => .ok (CAST ++ q ++ AS ++ sqlType ++ [')'])

/-- The rows whose value is there and is not converted. -/
def invalidRows (columns : List (List Char)) (i : Nat) (checked : Term) : List (Row V) → Except Failure (List (Row V))
  | [] => .ok []
  | row :: rows => do
      let v ← eval db columns row checked
      let invalid ← invalidRows columns i checked rows
      return if ((row[i]?).join).isSome ∧ v.isNone then row :: invalid else invalid

/-- A name that a wrapper takes for itself. -/
def Reserved (column : List Char) : Prop := String.ofList column = Query.INPUT ∨ String.ofList column = Query.PREVIOUS

instance (column : List Char) : Decidable (Reserved column) := inferInstanceAs (Decidable (_ ∨ _))

/-- `edit_view` for a column that is replaced: its name is the one name of the SELECT that is checked. -/
def editView (relation : Relation V) (column : List Char) (i : Nat) (expression : List Char) : Except Failure (Changed V) :=
  if Reserved column then
    .error (.invalid "Reserved wrapper name in query")
  else do
    let term ← bound db relation.columns expression
    return ⟨relation.columns, relation.rows.mapM (replaceCell db relation.columns i term)⟩

def alterTable (relation : Relation V) (i : Nat) (expression : List Char) : Except Failure (Changed V) := do
  let term ← bound db relation.columns expression
  let rows ← relation.rows.mapM (replaceCell db relation.columns i term)
  return ⟨relation.columns, .ok rows⟩

/-- `change_column` for a cast. -/
def changeColumn (relation : Relation V) (requested : List Char) (target : CastType) (format : Option (List Char)) :
    Except Failure (Changed V) :=
  match column? relation.columns requested with
  | none => .error (.invalid ("Column is unavailable: " ++ String.ofList requested))
  | some i => do
      let column := relation.columns.getD i []
      let q := quote column
      let (sqlType, db) ← sqlType db parse hex relation i target
      let expression ← expression found q sqlType target format
      let term ← bound db relation.columns expression
      let checked ← bound db relation.columns (checkedText expression)
      let invalid ← invalidRows db relation.columns i checked relation.rows
      if invalid ≠ [] then
        let error := ((invalid.head?.bind fun row => (match eval db relation.columns row term with
          | .error error => some error
          | .ok _ => none)).getD (.invalid "Conversion failed"))
        .error (.unconverted error invalid.length
          ((invalid.take 5).filterMap fun row => ((row[i]?).join).map db.text))
      else if relation.view then editView db relation column i expression
      else alterTable db relation i expression

end Source

end Wordflow.Casts
