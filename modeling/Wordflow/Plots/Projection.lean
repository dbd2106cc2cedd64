import Wordflow.Library.Fallible
import Wordflow.Library.Identifier
import Wordflow.Plots.Contracts

namespace Wordflow.Plots

open Library.Fallible Library.Identifier Objects

def columnType (columns : List (String × String)) (name : String) : Except Error String :=
  match columns.find? fun c => c.1 = name with
  | some c => .ok c.2
  | none => .error (.invalid ("Unknown column: " ++ name))

def numeric (kind : String) : Bool :=
  kind ∈ ["TINYINT", "SMALLINT", "INTEGER", "BIGINT", "HUGEINT", "UTINYINT", "USMALLINT", "UINTEGER", "UBIGINT",
    "UHUGEINT", "FLOAT", "DOUBLE"] || "DECIMAL(".isPrefixOf kind

/-- The text of a decimal number with the count of its fractional digits. -/
def decimal (value : String) : Except Error (String × Nat) :=
  let unsigned := if value.toList.head? = some '-' then value.toList.drop 1 else value.toList
  let parts := unsigned.splitOn '.'
  let whole := (parts[0]?).getD []
  let fraction := (parts[1]?).getD []
  if whole = [] ∨ !whole.all Char.isDigit ∨ !fraction.all Char.isDigit ∨ fraction.length > 18 ∨ parts.length > 2 then
    .error (.invalid "Use a decimal number with at most 18 fractional digits")
  else .ok (value, fraction.length)

def validateMeasure (columns : List (String × String)) (measure : Measure) (value : Option String) :
    Except Error Unit :=
  if measure ≠ .count then
    match value with
    | none => .error (.invalid "Select a numeric measurement column")
    | some value => do
        let kind ← columnType columns value
        if !numeric kind then .error (.invalid "Measurement must be numeric") else .ok ()
  else if value.isSome then .error (.invalid "Count does not use a measurement column")
  else .ok ()

def validateInterval (kind : String) : Interval → Except Error Unit
  | .categories =>
      if !("ENUM(".isPrefixOf kind || kind = "VARCHAR") then
        .error (.invalid "Category intervals require a category or text axis")
      else .ok ()
  | .numeric width origin =>
      if !numeric kind then .error (.invalid "Numeric intervals require a numeric axis")
      else do
        let (width, _) ← decimal width
        if width.toList.head? = some '-' || !width.toList.any fun c => c.isDigit && c ≠ '0' then
          .error (.invalid "Interval width must be positive")
        else (origin.forM fun origin => (decimal origin).map fun _ => ())
  | .time unit step =>
      if eqIgnoreAsciiCase kind "DATE" && unit ∈ [.second, .minute, .hour] then
        .error (.invalid "Date axes require day or larger intervals")
      else if !(kind = "DATE" || "TIMESTAMP".isPrefixOf kind) then
        .error (.invalid "Time intervals require a date or timestamp axis")
      else if step = 0 || (step ≠ 1 && unit ∈ [.month, .quarter, .year]) then
        .error (.invalid "Invalid time interval")
      else .ok ()

def validateAxis (columns : List (String × String)) (name : String) : Except Error Unit := do
  let kind ← columnType columns name
  if !numeric kind then .error (.invalid "Scatter axes and sizes must be numeric") else .ok ()

def validateMode (columns : List (String × String)) : PlotRequest → Except Error Unit
  | .trends r =>
      if r.groups.length > 3 then .error (.invalid "Choose at most three grouping columns")
      else if ¬r.groups.Nodup then .error (.invalid "Choose each grouping column only once")
      else do
        let kind ← columnType columns r.axis
        validateInterval kind r.interval
  | .compare r =>
      if r.measure ∉ [.count, .sum] then .error (.invalid "Choose Count or Sum for nonnegative weights")
      else .ok ()
  | .scatter r => ([r.x, r.y] ++ r.size.toList).forM (validateAxis columns)
  | .heatmap _ => .ok ()
  | .sankey r =>
      if r.measure ∉ [.count, .sum] then .error (.invalid "Choose Count or Sum for nonnegative weights")
      else if r.stages.length < 2 ∨ ¬r.stages.Nodup then
        .error (.invalid "Select at least two distinct ordered stages")
      else .ok ()

def validate (request : PlotRequest) (columns : List (String × String)) : Except Error Unit := do
  request.columns.forM fun name => (columnType columns name).map fun _ => ()
  validateMeasure columns request.measure.1 request.measure.2
  validateMode columns request

theorem columnType_spec {columns : List (String × String)} {name kind : String}
    (h : columnType columns name = .ok kind) : (name, kind) ∈ columns := by
  simp only [columnType] at h
  split at h
  · rename_i c hfind
    cases h
    have hname : c.1 = name := by simpa using List.find?_some hfind
    exact hname ▸ List.mem_of_find?_eq_some hfind
  · cases h

/-- An accepted request names columns in their own spelling. -/
theorem validate_columns {request : PlotRequest} {columns : List (String × String)}
    (h : validate request columns = .ok ()) : ∀ name ∈ request.columns, name ∈ columns.map Prod.fst := by
  obtain ⟨⟨⟩, hnames, -⟩ := bind_eq_ok.mp h
  intro name hname
  obtain ⟨kind, hkind, -⟩ := map_eq_ok.mp (forM_eq_ok.mp hnames name hname)
  exact List.mem_map_of_mem (columnType_spec hkind)

end Wordflow.Plots
