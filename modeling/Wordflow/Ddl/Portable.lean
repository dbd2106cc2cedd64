import Mathlib.Data.List.Sort
import Wordflow.Library.Fallible
import Wordflow.Library.Quoting
import Wordflow.Scripts.Split

namespace Wordflow.Ddl

open Library Library.Identifier Library.Quoting Scripts

def literal (value : List Char) : List Char := enclose '\'' value

def quote (name : List Char) : List Char := enclose '"' name

/-- `value.eq_ignore_ascii_case(database)` -/
def sameName (database : String) (value : List Char) : Bool := value.map Char.toLower == asciiLower database

/-- `slice::windows` -/
def windows {α : Type*} (size : ℕ) (items : List α) : List (List α) := (items.tails.map (List.take size)).filter (·.length = size)

/-- What `portable_ddl` does to a text: `start..stop` is replaced. -/
structure Edit where
  start : ℕ
  stop : ℕ
  replacement : List Char
  deriving DecidableEq, Repr

/-- `sql[token.start..].starts_with('\'')` -/
def startsString (sql : List Char) (token : Token) : Bool := (sql.drop token.start).head? == some '\''

def qualifierEdit (sql : List Char) (database : String) : List Token → Option Edit
  | [p0, p1, _, p3, _] =>
      if sameName database p0.value && p1.is "." && p3.is "." && !startsString sql p0 then some ⟨p0.start, p1.stop, []⟩
      else none
  | _ => none

/-- The schema and the name of a sequence that is named with its database. -/
def sequenceParts (database : String) : List Token → Option (List Char × List Char)
  | [n0, n1, n2, n3, n4] =>
      if sameName database n0.value && n1.is "." && n3.is "." then some (n2.value, n4.value) else none
  | _ => none

def sequenceLiteral (schema name : List Char) : List Char := literal (quote schema ++ '.' :: quote name)

/-- The string of a call of `nextval` or `currval`. -/
def sequenceCall (sql : List Char) : List Token → Option Token
  | [p0, p1, p2, p3] =>
      if (p0.is "nextval" || p0.is "currval") && p1.is "(" && p3.is ")" && startsString sql p2 then some p2 else none
  | _ => none

def sequenceEdit (sql : List Char) (database : String) (parts : List Token) : Except Failure (Option Edit) :=
  match sequenceCall sql parts with
  | none => .ok none
  | some string => do
      let name ← tokens string.value
      return (sequenceParts database name).map fun s => ⟨string.start, string.stop, sequenceLiteral s.1 s.2⟩

def portableEdits (sql : List Char) (database : String) : Except Failure (List Edit) := do
  let t ← tokens sql
  let qualifiers := (windows 5 t).filterMap (qualifierEdit sql database)
  let sequences ← (windows 4 t).mapM (sequenceEdit sql database)
  return (qualifiers ++ sequences.filterMap id).mergeSort fun e f => e.start ≤ f.start

/-- `String::replace_range`, which panics on a range that is not in the text. -/
def replaceRange (e : Edit) (text : List Char) : Option (List Char) :=
  if e.start ≤ e.stop ∧ e.stop ≤ text.length then some (text.take e.start ++ e.replacement ++ text.drop e.stop) else none

/-- The edits are applied from the last to the first. -/
def applyEdits (edits : List Edit) (text : List Char) : Option (List Char) :=
  edits.foldr (fun e result => result.bind (replaceRange e)) (some text)

/-- The text with its edits; `none` is a panic. -/
def portable_ddl (sql : List Char) (database : String) : Except Failure (Option (List Char)) := do
  let edits ← portableEdits sql database
  return applyEdits edits sql

end Wordflow.Ddl
