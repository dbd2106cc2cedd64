import Mathlib.Data.String.Basic
import Wordflow.Library.OrderedMap
import Wordflow.Plots.Projection
import Wordflow.Plots.Source

namespace Wordflow.Plots

open Library Library.Fallible Library.Identifier Objects Renames

variable {V : Type}

abbrev Bindings := OrderedMap.Map String String

/-- The payload of a plot. `rows` is its artifact; `fieldBindings` says under
which captured column a renamed source column is saved. -/
structure PlotResult where
  fieldBindings : Bindings
  rows : Nat
  source : ObjectTarget
  columns : List (String × String)
  documentColumn : Option String
  rowCount : Nat
  usableRows : Nat
  omittedMeasurements : Nat
  nonnegative : Bool
  deriving DecidableEq

structure Analysis where
  id : Nat
  request : Json
  result : Option PlotResult
  deriving DecidableEq

/-- Keep the captured column of a source column that is renamed. -/
def PlotResult.rebind (result : PlotResult) (before after : String) : PlotResult :=
  let captured := (result.fieldBindings.get? before).getD before
  { result with fieldBindings := (result.fieldBindings.remove before).insert after captured }

def reconcile (kind : String) (rename : Rename) (a : Analysis) : Analysis :=
  let renamed := rename.request kind a.request
  if !renamed.1 || a.request = renamed.2 then a
  else
    { a with
      request := renamed.2
      result :=
        match rename with
        | .table _ _ => a.result
        | .column _ before after => a.result.map fun result => result.rebind before after }

def captured (bindings : Bindings) (name : String) : String := (bindings.get? name).getD name

def bind (bindings : Bindings) (value : Json) : Json := value.mapStrings (captured bindings)

/-- The request of a plot with the captured columns in place of renamed ones. -/
def boundRequest (mode : PlotMode) (bindings : Bindings) (request : Json) : Json :=
  (plotFields mode.kind).foldl (fun value field => value.modify field (bind bindings)) request

section Json

open Json PlotRequest

/-- Changing the column fields of an encoded request changes its columns. -/
theorem modify_encode (f : String → String) (r : PlotRequest) :
    (plotFields r.mode.kind).foldl (fun value field => value.modify field (Json.mapStrings f)) r.encode =
      (r.map f).encode := by
  cases r <;>
    simp [plotFields, mode, PlotMode.kind, encode, PlotRequest.map, Json.modify, Json.get?, Json.set, Json.insert,
      Json.lookup, mapStrings, mapStringItems_strings]

theorem boundRequest_encode (bindings : Bindings) (r : PlotRequest) :
    boundRequest r.mode bindings r.encode = (r.map (captured bindings)).encode :=
  modify_encode (captured bindings) r

theorem request_encode (rename : Rename) (r : PlotRequest) :
    rename.request r.mode.kind r.encode =
      if rename.recognizes r.source then
        (true, match rename with
          | .table _ name => (r.withSource { r.source with name := name }).encode
          | .column _ _ _ => (r.map rename.field).encode)
      else (false, r.encode) := by
  have hinput : rename.request r.mode.kind r.encode = rename.input r.encode (plotFields r.mode.kind) := by
    cases r <;> rfl
  have hsource : r.encode.get? "source" = some (encodeTarget r.source) := by cases r <;> rfl
  have hname : (encodeTarget r.source).get? "name" = some (.str r.source.name) := rfl
  have hschema : (((encodeTarget r.source).get? "schema").bind asStr?).getD "data" = r.source.schema.getD "data" := by
    rcases r.source with ⟨_ | schema, name⟩ <;> rfl
  rw [hinput]
  simp only [Rename.input, hsource, hname, hschema, Option.bind_some, asStr?, Option.some_or]
  cases hrec : rename.recognizes r.source with
  | false =>
      rw [Rename.recognizes, Bool.and_eq_false_iff] at hrec
      exact if_pos (by simpa using hrec)
  | true =>
      rw [Rename.recognizes, Bool.and_eq_true] at hrec
      rw [if_neg (by simp [hrec])]
      cases rename with
      | table source name =>
          have hset : r.encode.set "source" ((encodeTarget r.source).set "name" (.str name)) =
              (r.withSource { r.source with name := name }).encode := by cases r <;> rfl
          simpa using hset
      | column source before after =>
          exact Prod.ext rfl (modify_encode _ r)

end Json

@[simp]
theorem mode_map (f : String → String) (r : PlotRequest) : (r.map f).mode = r.mode := by cases r <;> rfl

@[simp]
theorem mode_withSource (target : ObjectTarget) (r : PlotRequest) : (r.withSource target).mode = r.mode := by
  cases r <;> rfl

@[simp]
theorem source_withSource (target : ObjectTarget) (r : PlotRequest) : (r.withSource target).source = target := by
  cases r <;> rfl

@[simp]
theorem columns_withSource (target : ObjectTarget) (r : PlotRequest) :
    (r.withSource target).columns = r.columns := by
  cases r <;> rfl

@[simp]
theorem withSource_withSource (target other : ObjectTarget) (r : PlotRequest) :
    (r.withSource target).withSource other = r.withSource other := by
  cases r <;> rfl

theorem map_withSource (f : String → String) (target : ObjectTarget) (r : PlotRequest) :
    (r.withSource target).map f = (r.map f).withSource target := by
  cases r <;> rfl

theorem withSource_source (r : PlotRequest) : r.withSource r.source = r := by cases r <;> rfl

theorem map_map (f g : String → String) (r : PlotRequest) : (r.map f).map g = r.map (g ∘ f) := by
  cases r <;> simp [PlotRequest.map]

theorem columns_map (f : String → String) (r : PlotRequest) : (r.map f).columns = r.columns.map f := by
  cases r with
  | trends r => cases hv : r.value <;> simp [PlotRequest.map, PlotRequest.columns, hv]
  | compare r => cases hs : r.stack <;> cases hv : r.value <;> simp [PlotRequest.map, PlotRequest.columns, hs, hv]
  | scatter r =>
      cases hc : r.color <;> cases hs : r.size <;> cases hl : r.label <;>
        simp [PlotRequest.map, PlotRequest.columns, hc, hs, hl]
  | heatmap r => cases hv : r.value <;> simp [PlotRequest.map, PlotRequest.columns, hv]
  | sankey r => cases hv : r.value <;> simp [PlotRequest.map, PlotRequest.columns, hv]

theorem map_option_same {f : String → String} {value : Option String} (h : ∀ n ∈ value.toList, f n = n) :
    value.map f = value := by
  cases value with
  | none => rfl
  | some n => simp [h n (by simp)]

theorem map_list_same {f : String → String} {names : List String} (h : ∀ n ∈ names, f n = n) :
    names.map f = names := by
  conv_rhs => rw [← List.map_id names]
  exact List.map_congr_left h

theorem map_same {f : String → String} {r : PlotRequest} (h : ∀ n ∈ r.columns, f n = n) : r.map f = r := by
  cases r <;> simp only [PlotRequest.columns, List.forall_mem_cons, List.forall_mem_append] at h <;>
    simp only [PlotRequest.map]
  case trends r => rw [h.1, map_list_same h.2.1, map_option_same h.2.2]
  case compare r => rw [h.1, map_option_same h.2.1, map_option_same h.2.2]
  case scatter r =>
    rw [h.1, h.2.1, map_option_same h.2.2.1.1, map_option_same h.2.2.1.2, map_option_same h.2.2.2]
  case heatmap r => rw [h.1, h.2.1, map_option_same h.2.2]
  case sankey r => rw [map_list_same h.1, map_option_same h.2]

theorem map_eq_same {f : String → String} {r : PlotRequest} (h : r.map f = r) : ∀ n ∈ r.columns, f n = n := by
  intro n hn
  have hcolumns := columns_map f r
  rw [h] at hcolumns
  obtain ⟨i, hi, rfl⟩ := List.mem_iff_getElem.mp hn
  have hget := congrArg (fun names => names[i]?) hcolumns
  simpa [hi] using hget.symm

theorem encode_injective {r s : PlotRequest} (hmode : r.mode = s.mode) (h : r.encode = s.encode) : r = s := by
  have hr := r.decode_encode
  rw [hmode, h, s.decode_encode] at hr
  exact (Option.some.inj hr).symm

end Wordflow.Plots
