import Mathlib.Algebra.Group.Nat.Defs
import Wordflow.Library.Json
import Wordflow.Objects

namespace Wordflow.Plots

open Library Library.Json Objects

inductive PlotMode
  | trends
  | compare
  | scatter
  | heatmap
  | sankey
  deriving DecidableEq

def PlotMode.kind : PlotMode → String
  | .trends => "trends"
  | .compare => "compare"
  | .scatter => "scatter"
  | .heatmap => "heatmap"
  | .sankey => "sankey"

inductive Measure
  | count
  | sum
  | mean
  | median
  deriving DecidableEq

inductive TimeUnit
  | second
  | minute
  | hour
  | day
  | week
  | month
  | quarter
  | year
  deriving DecidableEq

inductive Interval
  | categories
  | numeric (width : String) (origin : Option String)
  | time (unit : TimeUnit) (step : UInt32)
  deriving DecidableEq

structure TrendsRequest where
  source : ObjectTarget
  axis : String
  groups : List String
  measure : Measure
  value : Option String
  interval : Interval
  timezone : String
  deriving DecidableEq

structure CompareRequest where
  source : ObjectTarget
  category : String
  stack : Option String
  measure : Measure
  value : Option String
  deriving DecidableEq

structure ScatterRequest where
  source : ObjectTarget
  x : String
  y : String
  color : Option String
  size : Option String
  label : Option String
  deriving DecidableEq

structure HeatmapRequest where
  source : ObjectTarget
  row : String
  column : String
  measure : Measure
  value : Option String
  deriving DecidableEq

structure SankeyRequest where
  source : ObjectTarget
  stages : List String
  measure : Measure
  value : Option String
  deriving DecidableEq

inductive PlotRequest
  | trends (request : TrendsRequest)
  | compare (request : CompareRequest)
  | scatter (request : ScatterRequest)
  | heatmap (request : HeatmapRequest)
  | sankey (request : SankeyRequest)
  deriving DecidableEq

namespace Measure

def encode : Measure → Json
  | .count => .str "count"
  | .sum => .str "sum"
  | .mean => .str "mean"
  | .median => .str "median"

def decode (value : Json) : Option Measure :=
  [count, sum, mean, median].find? fun m => m.encode = value

end Measure

namespace TimeUnit

def sql : TimeUnit → String
  | .second => "second"
  | .minute => "minute"
  | .hour => "hour"
  | .day => "day"
  | .week => "week"
  | .month => "month"
  | .quarter => "quarter"
  | .year => "year"

def decode (value : Json) : Option TimeUnit :=
  [second, minute, hour, day, week, month, quarter, year].find? fun u => Json.str u.sql = value

end TimeUnit

section Decode

/-- The fields of an object that has no others than the known ones. -/
def objectFields (known : List String) : Json → Option (List (String × Json))
  | .obj fields => if fields.all fun f => known.contains f.1 then some fields else none
  | _ => none

def optionalString : Option Json → Option (Option String)
  | none | some .null => some none
  | some (.str s) => some (some s)
  | some _ => none

def string (value : Option Json) : Option String := value.bind asStr?

def strings : Option Json → Option (List String)
  | some (.arr items) => items.mapM asStr?
  | _ => none

/-- The name may be spelled `table_name`. -/
def decodeTarget : Json → Option ObjectTarget
  | .obj fields => do
      let schema ← optionalString (lookup fields "schema")
      match lookup fields "name", lookup fields "table_name" with
      | some (.str name), none | none, some (.str name) => some ⟨schema, name⟩
      | _, _ => none
  | _ => none

def encodeTarget (target : ObjectTarget) : Json :=
  .obj [("schema", ofOption target.schema), ("name", .str target.name)]

end Decode

namespace Interval

def encode : Interval → Json
  | .categories => .obj [("type", .str "categories")]
  | .numeric width origin => .obj [("type", .str "numeric"), ("width", .str width), ("origin", ofOption origin)]
  | .time unit step => .obj [("type", .str "time"), ("unit", .str unit.sql), ("step", ofNat step.toNat)]

def decode (value : Json) : Option Interval :=
  match value.get "type" with
  | .str "categories" => do
      let _ ← objectFields ["type"] value
      some .categories
  | .str "numeric" => do
      let fields ← objectFields ["type", "width", "origin"] value
      let width ← string (lookup fields "width")
      let origin ← optionalString (lookup fields "origin")
      some (.numeric width origin)
  | .str "time" => do
      let fields ← objectFields ["type", "unit", "step"] value
      let unit ← (lookup fields "unit").bind TimeUnit.decode
      let step ← (lookup fields "step").bind asNat?
      if step < 2 ^ 32 then some (.time unit (.ofNat step)) else none
  | _ => none

end Interval

namespace PlotRequest

def encode : PlotRequest → Json
  | .trends r => .obj [("source", encodeTarget r.source), ("axis", .str r.axis), ("groups", .arr (r.groups.map .str)),
      ("measure", r.measure.encode), ("value", ofOption r.value), ("interval", r.interval.encode),
      ("timezone", .str r.timezone)]
  | .compare r => .obj [("source", encodeTarget r.source), ("category", .str r.category), ("stack", ofOption r.stack),
      ("measure", r.measure.encode), ("value", ofOption r.value)]
  | .scatter r => .obj [("source", encodeTarget r.source), ("x", .str r.x), ("y", .str r.y),
      ("color", ofOption r.color), ("size", ofOption r.size), ("label", ofOption r.label)]
  | .heatmap r => .obj [("source", encodeTarget r.source), ("row", .str r.row), ("column", .str r.column),
      ("measure", r.measure.encode), ("value", ofOption r.value)]
  | .sankey r => .obj [("source", encodeTarget r.source), ("stages", .arr (r.stages.map .str)),
      ("measure", r.measure.encode), ("value", ofOption r.value)]

/-- `none` is an error of the JSON library. -/
def decode (mode : PlotMode) (value : Json) : Option PlotRequest :=
  match mode with
  | .trends => do
      let fields ← objectFields ["source", "axis", "groups", "measure", "value", "interval", "timezone"] value
      let source ← (lookup fields "source").bind decodeTarget
      let axis ← string (lookup fields "axis")
      let groups ← strings (lookup fields "groups")
      let measure ← (lookup fields "measure").bind Measure.decode
      let measured ← optionalString (lookup fields "value")
      let interval ← (lookup fields "interval").bind Interval.decode
      let timezone ← string (lookup fields "timezone")
      some (.trends ⟨source, axis, groups, measure, measured, interval, timezone⟩)
  | .compare => do
      let fields ← objectFields ["source", "category", "stack", "measure", "value"] value
      let source ← (lookup fields "source").bind decodeTarget
      let category ← string (lookup fields "category")
      let stack ← optionalString (lookup fields "stack")
      let measure ← (lookup fields "measure").bind Measure.decode
      let measured ← optionalString (lookup fields "value")
      some (.compare ⟨source, category, stack, measure, measured⟩)
  | .scatter => do
      let fields ← objectFields ["source", "x", "y", "color", "size", "label"] value
      let source ← (lookup fields "source").bind decodeTarget
      let x ← string (lookup fields "x")
      let y ← string (lookup fields "y")
      let color ← optionalString (lookup fields "color")
      let size ← optionalString (lookup fields "size")
      let label ← optionalString (lookup fields "label")
      some (.scatter ⟨source, x, y, color, size, label⟩)
  | .heatmap => do
      let fields ← objectFields ["source", "row", "column", "measure", "value"] value
      let source ← (lookup fields "source").bind decodeTarget
      let row ← string (lookup fields "row")
      let column ← string (lookup fields "column")
      let measure ← (lookup fields "measure").bind Measure.decode
      let measured ← optionalString (lookup fields "value")
      some (.heatmap ⟨source, row, column, measure, measured⟩)
  | .sankey => do
      let fields ← objectFields ["source", "stages", "measure", "value"] value
      let source ← (lookup fields "source").bind decodeTarget
      let stages ← strings (lookup fields "stages")
      let measure ← (lookup fields "measure").bind Measure.decode
      let measured ← optionalString (lookup fields "value")
      some (.sankey ⟨source, stages, measure, measured⟩)

def mode : PlotRequest → PlotMode
  | .trends _ => .trends
  | .compare _ => .compare
  | .scatter _ => .scatter
  | .heatmap _ => .heatmap
  | .sankey _ => .sankey

def source : PlotRequest → ObjectTarget
  | .trends r => r.source
  | .compare r => r.source
  | .scatter r => r.source
  | .heatmap r => r.source
  | .sankey r => r.source

def columns : PlotRequest → List String
  | .trends r => r.axis :: (r.groups ++ r.value.toList)
  | .compare r => r.category :: (r.stack.toList ++ r.value.toList)
  | .scatter r => r.x :: r.y :: (r.color.toList ++ r.size.toList ++ r.label.toList)
  | .heatmap r => r.row :: r.column :: r.value.toList
  | .sankey r => r.stages ++ r.value.toList

def measure : PlotRequest → Measure × Option String
  | .trends r => (r.measure, r.value)
  | .compare r => (r.measure, r.value)
  | .heatmap r => (r.measure, r.value)
  | .sankey r => (r.measure, r.value)
  | .scatter _ => (.count, none)

/-- The request over a renamed source. -/
def withSource (target : ObjectTarget) : PlotRequest → PlotRequest
  | .trends r => .trends { r with source := target }
  | .compare r => .compare { r with source := target }
  | .scatter r => .scatter { r with source := target }
  | .heatmap r => .heatmap { r with source := target }
  | .sankey r => .sankey { r with source := target }

/-- The request with every source column renamed. -/
def map (f : String → String) : PlotRequest → PlotRequest
  | .trends r => .trends { r with axis := f r.axis, groups := r.groups.map f, value := r.value.map f }
  | .compare r => .compare { r with category := f r.category, stack := r.stack.map f, value := r.value.map f }
  | .scatter r => .scatter { r with
      x := f r.x
      y := f r.y
      color := r.color.map f
      size := r.size.map f
      label := r.label.map f }
  | .heatmap r => .heatmap { r with row := f r.row, column := f r.column, value := r.value.map f }
  | .sankey r => .sankey { r with stages := r.stages.map f, value := r.value.map f }

end PlotRequest

@[simp]
theorem optionalString_ofOption (value : Option String) : optionalString (some (ofOption value)) = some value := by
  cases value <;> rfl

@[simp]
theorem strings_arr (names : List String) : strings (some (.arr (names.map .str))) = some names := by
  induction names with
  | nil => rfl
  | cons name names ih =>
      simp only [strings] at ih
      simp [strings, ih, asStr?]

@[simp]
theorem decodeTarget_encode (target : ObjectTarget) : decodeTarget (encodeTarget target) = some target := by
  rcases target with ⟨_ | schema, name⟩ <;> rfl

@[simp]
theorem Measure.decode_encode (m : Measure) : Measure.decode m.encode = some m := by
  cases m <;> decide

@[simp]
theorem TimeUnit.decode_sql (u : TimeUnit) : TimeUnit.decode (.str u.sql) = some u := by
  cases u <;> decide

@[simp]
theorem Interval.decode_encode (i : Interval) : Interval.decode i.encode = some i := by
  cases i with
  | categories => rfl
  | numeric width origin => cases origin <;> rfl
  | time unit step =>
      simp [encode, decode, objectFields, Json.lookup, step.toNat_lt]

namespace PlotRequest

theorem decode_encode (r : PlotRequest) : decode r.mode r.encode = some r := by
  cases r <;>
    simp [encode, decode, mode, objectFields, string, Json.lookup, asStr?]

end PlotRequest

end Wordflow.Plots
