import Wordflow.Library.Binary64
import Wordflow.Library.Chunks
import Wordflow.Registry.Database

namespace Wordflow.Sheets

open Library Library.Binary64 Library.Identifier Objects Registry

inductive ExcelDateTimeType
  | dateTime
  | timeDelta
  deriving DecidableEq

/-- A serial date: days since the epoch of the workbook. -/
structure ExcelDateTime where
  value : F64
  datetimeType : ExcelDateTimeType
  is1904 : Bool
  deriving DecidableEq

def ExcelDateTime.isDuration (v : ExcelDateTime) : Bool := v.datetimeType = .timeDelta

def ExcelDateTime.isDatetime (v : ExcelDateTime) : Bool := v.datetimeType = .dateTime

inductive CellErrorType
  | div0
  | na
  | name
  | null
  | num
  | ref
  | value
  | gettingData
  deriving DecidableEq

/-- A cell as the workbook reader gives it. -/
inductive Data
  | int (v : Int)
  | float (v : F64)
  | string (v : String)
  | bool (v : Bool)
  | dateTime (v : ExcelDateTime)
  | dateTimeIso (v : String)
  | durationIso (v : String)
  | error (v : CellErrorType)
  | empty
  deriving DecidableEq

/-- A day, counted from the Unix epoch. -/
structure NaiveDate where
  days : Int
  deriving DecidableEq

/-- Seconds since the Unix epoch, and the nanoseconds after them. -/
structure NaiveDateTime where
  timestamp : Int
  nanos : Nat
  deriving DecidableEq

def NaiveDateTime.timestampMicros (t : NaiveDateTime) : Int := t.timestamp * 1000000 + (t.nanos / 1000 : Nat)

/-- What the workbook reader makes of a cell, and how a datetime is printed. -/
structure Calamine where
  asDate : Data → Option NaiveDate
  asDatetime : Data → Option NaiveDateTime
  toText : Data → String
  format : NaiveDateTime → String
  asDate_empty : asDate .empty = none
  asDatetime_empty : asDatetime .empty = none
  toText_string : ∀ v, toText (.string v) = v

inductive DataType
  | int64
  | float64
  | boolean
  | date32
  | timestamp
  | utf8
  deriving DecidableEq

section Cells

variable (c : Calamine)

def datetime (value : Data) : Option Int :=
  match value with
  | .dateTime v => if v.isDuration then none else (c.asDatetime value).map NaiveDateTime.timestampMicros
  | _ => (c.asDatetime value).map NaiveDateTime.timestampMicros

def cellText (value : Data) : String :=
  match value with
  | .dateTime v => if v.isDatetime then ((c.asDatetime value).map c.format).getD (c.toText value) else c.toText value
  | _ => c.toText value

def kind (value : Data) : Option DataType :=
  match value with
  | .empty => none
  | .int _ => some .int64
  | .float _ => some .float64
  | .bool _ => some .boolean
  | .dateTimeIso _ =>
      if datetime c value = none ∧ c.asDate value ≠ none then some .date32
      else if datetime c value ≠ none then some .timestamp
      else some .utf8
  | .dateTime _ => if datetime c value ≠ none then some .timestamp else some .utf8
  | _ => some .utf8

/-- The type of a column with cells of two types. -/
def promote (left right : DataType) : DataType :=
  if left = right then left
  else if left = .int64 ∧ right = .float64 ∨ left = .float64 ∧ right = .int64 then .float64
  else .utf8

def reduce (f : DataType → DataType → DataType) : List DataType → Option DataType
  | [] => none
  | k :: kinds => some (kinds.foldl f k)

def inferred (cells : List Data) : DataType := (reduce promote (cells.filterMap (kind c))).getD .utf8

end Cells

structure Field where
  name : String
  dataType : DataType
  deriving DecidableEq

/-- The values of a column, of which some are NULL. -/
inductive Column
  | date32 (values : List (Option Int))
  | int64 (values : List (Option Int))
  | float64 (values : List (Option F64))
  | boolean (values : List (Option Bool))
  | timestamp (values : List (Option Int))
  | utf8 (values : List (Option String))

/-- A file that is written, batch after batch. -/
structure Output where
  schema : List Field
  batches : List (List Column)

/-- A sheet is a rectangle of cells. -/
structure Range where
  width : Nat
  rows : List (Fin width → Data)

section Spreadsheet

variable (c : Calamine) (cancelled : Nat → Bool)

/-- `step` counts the checks of the whole call. -/
def checkCancellation (step : Nat) : Except Error Unit :=
  if cancelled step then .error ⟨"interrupted", "Operation interrupted"⟩ else .ok ()

def headerText (cell : Data) (column : Nat) : String :=
  if cellText c cell = "" then numbered "column" (column + 1) else cellText c cell

/-- The name, or with the first suffix from 2 on with which it is not among the names in lower case. -/
def freeName (names : List (List Char)) (original : String) : String :=
  if asciiLower original ∈ names then
    numbered original (Fresh.firstFree names (fun n => asciiLower (numbered original n)) names.length 2)
  else original

def fields {width : Nat} (header : Fin width → Data) (rows : List (Fin width → Data)) :
    List (List Char) → List (Fin width) → Except Error (List Field)
  | _, [] => .ok []
  | names, column :: rest => do
      checkCancellation cancelled column
      let name := freeName names (headerText c (header column) column)
      let others ← fields header rows (asciiLower name :: names) rest
      .ok (⟨name, inferred c (rows.map (· column))⟩ :: others)

theorem fields_cons {width : Nat} (header : Fin width → Data) (rows : List (Fin width → Data)) (names : List (List Char))
    (column : Fin width) (rest : List (Fin width)) :
    fields c cancelled header rows names (column :: rest) = (do
      checkCancellation cancelled column
      let name := freeName names (headerText c (header column) column)
      let others ← fields c cancelled header rows (asciiLower name :: names) rest
      .ok (⟨name, inferred c (rows.map (· column))⟩ :: others)) := rfl

def int? : Data → Option Int
  | .int v => some v
  | _ => none

def float? : Data → Option F64
  | .float v => some v
  | .int v => some (ofInt v)
  | _ => none

def bool? : Data → Option Bool
  | .bool v => some v
  | _ => none

def text? (value : Data) : Option String := if value = .empty then none else some (cellText c value)

def toColumn (dataType : DataType) (cells : List Data) : Column :=
  match dataType with
  | .date32 => .date32 (cells.map fun v => (c.asDate v).map NaiveDate.days)
  | .int64 => .int64 (cells.map int?)
  | .float64 => .float64 (cells.map float?)
  | .boolean => .boolean (cells.map bool?)
  | .timestamp => .timestamp (cells.map (datetime c))
  | .utf8 => .utf8 (cells.map (text? c))

def batch {width : Nat} (schema : List Field) (chunk : List (Fin width → Data)) : List Column :=
  List.zipWith (fun column (field : Field) => toColumn c field.dataType (chunk.map (· column))) (List.finRange width) schema

def spreadsheet (range : Range) : Except Error Output :=
  if range.width = 0 then .error (.invalid "The worksheet has no columns")
  else
    match range.rows with
    | [] => .error (.invalid "The worksheet has no header")
    | header :: data => do
        let schema ← fields c cancelled header data [] (List.finRange range.width)
        let batches ← (Chunks.chunks 4096 data).mapM fun chunk => do
          checkCancellation cancelled (range.width + chunk.1 / 4096)
          .ok (batch c schema chunk.2)
        .ok ⟨schema, batches⟩

end Spreadsheet

end Wordflow.Sheets
