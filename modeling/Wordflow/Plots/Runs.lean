import Wordflow.Library.Run
import Wordflow.Plots.Bindings

namespace Wordflow.Plots

open Library Library.Fallible Library.Identifier Library.Run Objects Renames

variable {V : Type}

/-- What the summary queries of a run return. -/
structure Summary where
  count : Nat
  usable : Nat
  omitted : Nat
  nonnegative : Bool
  negativeSize : Bool
  documentColumn : Option String
  deriving DecidableEq

structure Snapshot (V : Type) where
  relation : Relation
  columns : List (String × String)
  rows : List (List V)
  summary : Summary
  deriving DecidableEq

/-- An accepted run with what it has captured. -/
structure PlotRun (V : Type) where
  id : Nat
  input : PlotRequest
  captured : Option (Snapshot V)
  deriving DecidableEq

def PlotRun.store (id : Nat) (snapshot : Snapshot V) (run : PlotRun V) : PlotRun V :=
  if run.id = id then { run with captured := some snapshot } else run

theorem PlotRun.store_spec (id : Nat) (snapshot : Snapshot V) (run : PlotRun V) :
    (run.store id snapshot).id = run.id ∧ (run.store id snapshot).input = run.input := by
  simp only [store]
  split <;> exact ⟨rfl, rfl⟩

/-- One plot tab and the source its runs read. `history` holds the definitions
the source has had. -/
structure State (V : Type) where
  mode : PlotMode
  source : Source V
  history : List (List Layer)
  minted : List Nat
  runs : List (PlotRun V)
  analysis : Option Analysis
  artifacts : List (Nat × List (List V))
  deriving DecidableEq

inductive Event
  | beginRun (input : PlotRequest) (id : Nat)
  | capture (id : Nat) (summary : Except Error Summary)
  | publish (id artifact : Nat)
  | changeColumn (column name : String)
  | undo
  | redo (layer : Layer)
  | renameNode (name : String)

def resolveSource (relation : Relation) (target : ObjectTarget) : Except Error Relation :=
  match target.schema with
  | none =>
      if eqIgnoreAsciiCase relation.schema "data" && eqIgnoreAsciiCase relation.name target.name then .ok relation
      else .error ⟨"node_not_found", "Data Block is not registered"⟩
  | some schema =>
      if eqIgnoreAsciiCase schema "wordflow" then .error (.invalid "Wordflow metadata is not a data object")
      else if eqIgnoreAsciiCase relation.schema schema && eqIgnoreAsciiCase relation.name target.name then .ok relation
      else .error ⟨"object_not_found", "Database object is unavailable"⟩

def PlotRequest.sized : PlotRequest → Bool
  | .scatter r => r.size.isSome
  | _ => false

/-- The read-only transaction of `run_plot`. -/
def capture (s : Source V) (input : PlotRequest) (summary : Except Error Summary) : Except Error (Snapshot V) := do
  let relation ← resolveSource s.relation input.source
  validate input s.columns
  let summary ← summary
  if input.mode ∈ [.compare, .sankey] ∧ !summary.nonnegative then .error (.invalid "Weights must be nonnegative")
  else if input.sized ∧ summary.negativeSize then .error (.invalid "Bubble sizes must be nonnegative")
  else .ok ⟨relation, s.columns, s.rows, summary⟩

def Snapshot.result (snapshot : Snapshot V) (artifact : Nat) (bindings : Bindings) : PlotResult where
  fieldBindings := bindings
  rows := artifact
  source := ⟨some snapshot.relation.schema, snapshot.relation.name⟩
  columns := snapshot.columns
  documentColumn := snapshot.summary.documentColumn
  rowCount := snapshot.summary.count
  usableRows := snapshot.summary.usable
  omittedMeasurements := snapshot.summary.omitted
  nonnegative := snapshot.summary.nonnegative

namespace State

def renamed (s : State V) (r : Renamed V) : State V :=
  { s with
    source := r.source
    history := record r.source s.history
    analysis :=
      match r.rename with
      | some rename => s.analysis.map (reconcile s.mode.kind rename)
      | none => s.analysis }

def publish (s : State V) (id artifact : Nat) : Option (State V) := do
  let run ← s.runs.find? fun r => r.id = id
  let snapshot ← run.captured
  let a ← s.analysis
  if a.id = id ∧ a.result = none ∧ artifact ∉ s.artifacts.map Prod.fst then
    some { s with
      analysis := some { a with result := some (snapshot.result artifact .empty) }
      artifacts := (artifact, snapshot.rows) :: s.artifacts }
  else none

def capture (s : State V) (id : Nat) (summary : Except Error Summary) : Option (State V) := do
  let run ← s.runs.find? fun r => r.id = id
  let snapshot ← (Plots.capture s.source run.input summary).toOption
  if run.captured = none then
    some { s with runs := s.runs.map (PlotRun.store id snapshot) }
  else none

/-- A new run replaces the analysis of the tab and its artifacts. -/
def beginRun (s : State V) (input : PlotRequest) (id : Nat) : Option (State V) :=
  if input.mode = s.mode ∧ id ∉ s.minted then
    some { s with
      minted := id :: s.minted
      runs := ⟨id, input, none⟩ :: s.runs
      analysis := some ⟨id, input.encode, none⟩
      artifacts := [] }
  else none

end State

/-- What succeeds; a transaction that fails changes nothing. -/
def step (s : State V) : Event → Option (State V)
  | .beginRun input id => s.beginRun input id
  | .capture id summary => s.capture id summary
  | .publish id artifact => s.publish id artifact
  | .changeColumn column name => (changeColumn s.source column name).toOption.map s.renamed
  | .undo => (undo s.source).map s.renamed
  | .redo layer => (redo s.source s.history layer).map s.renamed
  | .renameNode name => (renameNode s.source name).toOption.map s.renamed

/-- The request, result and rows that a plot shows. -/
def saved (s : State V) (id : Nat) (mode : PlotMode) : Except Error (PlotRequest × PlotResult × List (List V)) :=
  match s.analysis.filter fun a => a.id = id with
  | none => .error ⟨"analysis_not_found", "Analysis is no longer available"⟩
  | some a =>
      match a.result with
      | none =>
          .error ⟨"result_unavailable",
            "This analysis has no saved output. Run the analysis to calculate results."⟩
      | some result =>
          if s.mode ≠ mode then
            .error ⟨"analysis_version_unsupported", "This analysis result version is not supported"⟩
          else
            match s.artifacts.find? fun artifact => artifact.1 = result.rows with
            | none => .error ⟨"analysis_corrupt", "Analysis relation is unavailable"⟩
            | some artifact =>
                match PlotRequest.decode mode (boundRequest mode result.fieldBindings a.request) with
                | none => .error (.invalid "The saved request does not fit the plot")
                | some request => .ok (request, result, artifact.2)

def Recognized (relation : Relation) (target : ObjectTarget) : Prop :=
  asciiLower target.name = asciiLower relation.name ∧
    asciiLower (target.schema.getD "data") = asciiLower relation.schema

theorem recognizes_iff {rename : Rename} {target : ObjectTarget} :
    rename.recognizes target = true ↔ Recognized rename.source target := by
  simp [Rename.recognizes, Recognized, eqIgnoreAsciiCase_iff]

theorem resolveSource_spec {relation found : Relation} {target : ObjectTarget}
    (h : resolveSource relation target = .ok found) : Recognized relation target := by
  rcases target with ⟨_ | schema, name⟩
  · simp only [resolveSource] at h
    split at h
    · rename_i hsame
      simp only [Bool.and_eq_true, eqIgnoreAsciiCase_iff] at hsame
      exact ⟨hsame.2.symm, hsame.1.symm⟩
    · cases h
  · simp only [resolveSource] at h
    obtain ⟨-, h⟩ := guard_eq_ok.mp h
    split at h
    · rename_i hsame
      simp only [Bool.and_eq_true, eqIgnoreAsciiCase_iff] at hsame
      exact ⟨hsame.2.symm, hsame.1.symm⟩
    · cases h

theorem capture_spec {s : Source V} {input : PlotRequest} {summary : Except Error Summary} {snapshot : Snapshot V}
    (h : capture s input summary = .ok snapshot) :
    Recognized s.relation input.source ∧ snapshot.columns = s.columns ∧
      ∀ n ∈ input.columns, n ∈ s.columns.map Prod.fst := by
  obtain ⟨relation, hrelation, h⟩ := bind_eq_ok.mp h
  obtain ⟨⟨⟩, hvalid, h⟩ := bind_eq_ok.mp h
  obtain ⟨sum, -, h⟩ := bind_eq_ok.mp h
  obtain ⟨-, h⟩ := guard_eq_ok.mp h
  obtain ⟨-, h⟩ := guard_eq_ok.mp h
  cases h
  exact ⟨resolveSource_spec hrelation, rfl, validate_columns hvalid⟩

def applyRename (rename : Rename) (r : PlotRequest) : PlotRequest :=
  if rename.recognizes r.source then
    match rename with
    | .table _ name => r.withSource { r.source with name := name }
    | .column _ _ _ => r.map rename.field
  else r

@[simp]
theorem mode_applyRename (rename : Rename) (r : PlotRequest) : (applyRename rename r).mode = r.mode := by
  simp only [applyRename]
  split
  · cases rename <;> simp
  · rfl

theorem applyRename_of_not {rename : Rename} {r : PlotRequest} (h : ¬rename.recognizes r.source = true) :
    applyRename rename r = r := by
  simp [applyRename, h]

def rebound (rename : Rename) (result : Option PlotResult) : Option PlotResult :=
  match rename with
  | .table _ _ => result
  | .column _ before after => result.map fun result => result.rebind before after

/-- What `reconcile` does to the analysis of a request. -/
theorem reconcile_encode {rename : Rename} {a : Analysis} {r : PlotRequest} (h : a.request = r.encode) :
    reconcile r.mode.kind rename a =
      { a with
        request := (applyRename rename r).encode
        result := if applyRename rename r = r then a.result else rebound rename a.result } := by
  rcases a with ⟨id, request, result⟩
  obtain rfl := h
  have hrequest := request_encode rename r
  by_cases hrec : rename.recognizes r.source = true
  · rw [if_pos hrec] at hrequest
    have happly : (rename.request r.mode.kind r.encode) = (true, (applyRename rename r).encode) := by
      rw [hrequest]
      cases rename <;> simp [applyRename, hrec]
    simp only [reconcile, happly, Bool.not_true, Bool.false_or]
    by_cases hsame : applyRename rename r = r
    · rw [hsame]
      simp
    · have hne : r.encode ≠ (applyRename rename r).encode := fun heq =>
        hsame (encode_injective (mode_applyRename rename r) heq.symm)
      simp only [hsame, if_false, hne, decide_false, Bool.false_eq_true]
      rfl
  · rw [if_neg hrec] at hrequest
    simp [reconcile, hrequest, applyRename_of_not hrec]

/-- The stored request of a run: every column field it submitted has been
rewritten by `g`, to a column of the source if at all. -/
structure Tracks (source : Source V) (run : PlotRun V) (a : Analysis) (g : String → String)
    (target : ObjectTarget) : Prop where
  request : a.request = ((run.input.map g).withSource target).encode
  origin : target = run.input.source ∨ Recognized source.relation target
  field : ∀ n ∈ run.input.columns,
    g n = n ∨ (g n ∈ source.columns.map Prod.fst ∧ Recognized source.relation target)
  held : ∀ snapshot, run.captured = some snapshot → Recognized source.relation target ∧
    ∀ n ∈ run.input.columns, g n ∈ source.columns.map Prod.fst ∧ n ∈ snapshot.columns.map Prod.fst

/-- A rename rewrites a field that is a column exactly when it names it. -/
theorem field_eq_rewrite {names : List String} {source : Relation} {before after name : String}
    (hd : Distinct names) (ha : Admissible names before after) (hname : name ∈ names) :
    (Rename.column source before after).field name = rewrite before after name := by
  by_cases h : name = before
  · subst h
    simp [Rename.field, rewrite]
  · have hne : eqIgnoreAsciiCase name before = false := by
      rw [Bool.eq_false_iff, ne_eq, eqIgnoreAsciiCase_iff]
      exact fun heq => h (hd.eq hname ha.mem heq)
    simp [Rename.field, rewrite, h, hne]

theorem captured_rebind {names : List String} {result : PlotResult} {before after name : String}
    (ha : Admissible names before after) (hname : name ∈ names) :
    captured (result.rebind before after).fieldBindings (rewrite before after name) =
      captured result.fieldBindings name := by
  by_cases h : name = before
  · simp [rewrite, h, captured, PlotResult.rebind]
  · have hne : name ≠ after := fun heq => ha.free name hname h (by rw [heq])
    simp only [rewrite, h, if_false, captured, PlotResult.rebind, OrderedMap.Map.get?_insert_of_ne hne,
      OrderedMap.Map.get?_remove_of_ne h]

theorem Applies.renames {s t : Source V} {rename : Rename} (h : Applies s rename t) : rename.source = s.relation := by
  cases h <;> rfl

/-- A run whose source is another relation has captured nothing of this one. -/
theorem Tracks.unrecognized {s t : Source V} {run : PlotRun V} {a : Analysis} {g : String → String}
    {target : ObjectTarget} (h : Tracks s run a g target) (hrec : ¬Recognized s.relation target) :
    Tracks t run a g target where
  request := h.request
  origin := h.origin.imp id fun hsame => absurd hsame hrec
  field n hn := (h.field n hn).imp id fun hsame => absurd hsame.2 hrec
  held snapshot hsnap := absurd (h.held snapshot hsnap).1 hrec

section Reconcile

variable {s t : Source V} {run : PlotRun V} {a : Analysis} {g : String → String} {target : ObjectTarget}

theorem Tracks.renamed_table {name : String} (h : Tracks s run a g target) (hrec : Recognized s.relation target)
    (hrelation : t.relation = ⟨s.relation.schema, name⟩) (hcolumns : t.columns = s.columns) {b : Analysis}
    (hrequest : b.request = ((run.input.map g).withSource { target with name := name }).encode) :
    Tracks t run b g { target with name := name } := by
  have hnew : Recognized t.relation { target with name := name } := by
    rw [hrelation]
    exact ⟨rfl, hrec.2⟩
  refine ⟨hrequest, .inr hnew, fun n hn => ?_, fun snapshot hsnap => ⟨hnew, ?_⟩⟩
  · rcases h.field n hn with hsame | ⟨hmem, -⟩
    · exact .inl hsame
    · exact .inr ⟨hcolumns ▸ hmem, hnew⟩
  · rw [hcolumns]
    exact (h.held snapshot hsnap).2

theorem Tracks.renamed_column {before after : String} (h : Tracks s run a g target)
    (hd : Distinct (s.columns.map Prod.fst)) (hrec : Recognized s.relation target)
    (hrelation : t.relation = s.relation) (hadmissible : Admissible (s.columns.map Prod.fst) before after)
    (hcolumns : t.columns.map Prod.fst = (s.columns.map Prod.fst).map (rewrite before after)) {b : Analysis}
    (hrequest : b.request =
      ((run.input.map ((Rename.column s.relation before after).field ∘ g)).withSource target).encode) :
    Tracks t run b ((Rename.column s.relation before after).field ∘ g) target := by
  have hnew : Recognized t.relation target := hrelation ▸ hrec
  have hmem : ∀ n, n ∈ s.columns.map Prod.fst →
      (Rename.column s.relation before after).field n ∈ t.columns.map Prod.fst := by
    intro n hn
    rw [field_eq_rewrite hd hadmissible hn, hcolumns]
    exact List.mem_map_of_mem hn
  have hafter : after ∈ t.columns.map Prod.fst := by
    rw [hcolumns]
    exact List.mem_map.mpr ⟨before, hadmissible.mem, if_pos rfl⟩
  refine ⟨hrequest, .inr hnew, fun n hn => ?_, fun snapshot hsnap => ⟨hnew, fun n hn => ?_⟩⟩
  · rcases h.field n hn with hsame | ⟨hg, -⟩
    · by_cases hbefore : eqIgnoreAsciiCase n before = true
      · exact .inr ⟨by simpa [Rename.field, hsame, hbefore] using hafter, hnew⟩
      · exact .inl (by simp [Rename.field, hsame, hbefore])
    · exact .inr ⟨hmem _ hg, hnew⟩
  · obtain ⟨hg, hsnapshot⟩ := (h.held snapshot hsnap).2 n hn
    exact ⟨hmem _ hg, hsnapshot⟩

/-- What one rename does to the bindings of a saved result. -/
def Rebinds (names : List String) (g g' : String → String) (result result' : PlotResult) : Prop :=
  result' = { result with fieldBindings := result'.fieldBindings } ∧
    ∀ n ∈ names, captured result'.fieldBindings (g' n) = captured result.fieldBindings (g n)

theorem rebinds_refl (names : List String) (g : String → String) (result : PlotResult) :
    Rebinds names g g result result := ⟨rfl, fun _ _ => rfl⟩

/-- Reconciling a rename keeps the request on the columns it names, and each of
them under the column it was captured as. -/
theorem Tracks.reconcile {rename : Rename} (h : Tracks s run a g target)
    (hd : Distinct (s.columns.map Prod.fst)) (happ : Applies s rename t) :
    ∃ g' target', Tracks t run (Plots.reconcile run.input.mode.kind rename a) g' target' ∧
      ∀ snapshot, run.captured = some snapshot →
        Option.Rel (Rebinds run.input.columns g g') a.result
          (Plots.reconcile run.input.mode.kind rename a).result := by
  have hmode : ((run.input.map g).withSource target).mode = run.input.mode := by simp
  have hreconcile := @reconcile_encode rename _ _ h.request
  rw [hmode] at hreconcile
  rw [hreconcile]
  have hrefl : Option.Rel (Rebinds run.input.columns g g) a.result a.result := by
    cases a.result with
    | none => exact .none
    | some result => exact .some (rebinds_refl _ _ _)
  by_cases hrec : Recognized s.relation target
  · cases happ with
    | table name _ hrelation hcolumns =>
        have happly : applyRename (.table s.relation name) ((run.input.map g).withSource target) =
            (run.input.map g).withSource { target with name := name } := by
          simp [applyRename, recognizes_iff, Rename.source, hrec]
        refine ⟨g, { target with name := name }, h.renamed_table hrec hrelation hcolumns ?_, fun _ _ => ?_⟩
        · rw [happly]
        · simpa [rebound] using hrefl
    | column before after _ hrelation hadmissible hcolumns =>
        have happly : applyRename (.column s.relation before after) ((run.input.map g).withSource target) =
            (run.input.map ((Rename.column s.relation before after).field ∘ g)).withSource target := by
          simp [applyRename, recognizes_iff, Rename.source, hrec, map_withSource, map_map]
        refine ⟨_, target, h.renamed_column hd hrec hrelation hadmissible hcolumns ?_, fun snapshot hsnap => ?_⟩
        · rw [happly]
        · have hmem := fun n hn => ((h.held snapshot hsnap).2 n hn).1
          split
          · rename_i hsame
            rw [happly, ← map_map, ← map_withSource] at hsame
            have hfield : ∀ n ∈ run.input.columns,
                (Rename.column s.relation before after).field (g n) = g n := by
              intro n hn
              refine map_eq_same hsame (g n) ?_
              rw [columns_withSource, columns_map]
              exact List.mem_map_of_mem hn
            cases a.result with
            | none => exact .none
            | some result => exact .some ⟨rfl, fun n hn => by rw [Function.comp_apply, hfield n hn]⟩
          · cases a.result with
            | none => exact .none
            | some result =>
                refine .some ⟨rfl, fun n hn => ?_⟩
                rw [Function.comp_apply, field_eq_rewrite hd hadmissible (hmem n hn),
                  captured_rebind hadmissible (hmem n hn)]
  · have hsame : applyRename rename ((run.input.map g).withSource target) = (run.input.map g).withSource target := by
      apply applyRename_of_not
      simpa [recognizes_iff, happ.renames] using hrec
    refine ⟨g, target, ?_, fun _ _ => ?_⟩
    · simp only [hsame, if_true, ← h.request]
      exact h.unrecognized hrec
    · simpa [hsame] using hrefl

end Reconcile

structure Invariant (s : State V) : Prop where
  source : s.source.WellFormed s.history
  ids : (s.runs.map PlotRun.id).Nodup
  minted : ∀ run ∈ s.runs, run.id ∈ s.minted
  mode : ∀ run ∈ s.runs, run.input.mode = s.mode
  tracked : ∀ a, s.analysis = some a → ∃ run ∈ s.runs, run.id = a.id ∧ ∃ g target, Tracks s.source run a g target
  published : ∀ a result, s.analysis = some a → a.result = some result → ∃ run ∈ s.runs, run.id = a.id ∧
    ∃ snapshot, run.captured = some snapshot ∧ result = snapshot.result result.rows result.fieldBindings ∧
      s.artifacts.find? (fun artifact => artifact.1 = result.rows) = some (result.rows, snapshot.rows)

/-- The bindings of a saved plot take the stored request back to the submitted
one. -/
def Bound (s : State V) : Prop :=
  ∀ a result run, s.analysis = some a → a.result = some result → run ∈ s.runs → run.id = a.id →
    ∃ target, boundRequest s.mode result.fieldBindings a.request = (run.input.withSource target).encode

/-- A saved plot shows the columns and rows its run captured, under the request
the run was given: only its source may have another name. -/
def Kept (s : State V) : Prop :=
  ∀ a result, s.analysis = some a → a.result = some result → ∃ run ∈ s.runs, run.id = a.id ∧
    ∃ snapshot target, run.captured = some snapshot ∧
      result = snapshot.result result.rows result.fieldBindings ∧
      saved s a.id s.mode = .ok (run.input.withSource target, result, snapshot.rows) ∧
      ∀ n ∈ run.input.columns, n ∈ result.columns.map Prod.fst

/-- The stored request still names the submitted columns when it is published. -/
def Unrenamed (s : State V) : Event → Prop
  | .publish id _ => ∀ a run, s.analysis = some a → run ∈ s.runs → a.id = id → run.id = id →
      ∃ target, a.request = (run.input.withSource target).encode
  | _ => True

section Tracked

variable {s : Source V} {run : PlotRun V} {a : Analysis} {g : String → String} {target : ObjectTarget}

theorem withSource_encode_eq {r r' : PlotRequest} {target target' : ObjectTarget} (hmode : r.mode = r'.mode)
    (h : (r.withSource target).encode = (r'.withSource target').encode) :
    r.withSource r'.source = r' := by
  have hsame := encode_injective (by simpa using hmode) h
  have hsource := congrArg (PlotRequest.withSource r'.source) hsame
  rwa [withSource_withSource, withSource_withSource, withSource_source] at hsource

/-- A rewritten request is the submitted one over some source just when its
columns are not rewritten. -/
theorem rewritten_iff {r : PlotRequest} {f : String → String} {target : ObjectTarget} :
    (∃ target', ((r.map f).withSource target).encode = (r.withSource target').encode) ↔
      ∀ n ∈ r.columns, f n = n := by
  constructor
  · rintro ⟨target', h⟩ n hn
    have hsame := withSource_encode_eq (mode_map f r) h
    rw [← map_withSource, withSource_source] at hsame
    exact map_eq_same hsame n hn
  · intro h
    exact ⟨target, by rw [map_same h]⟩

theorem Tracks.boundRequest (h : Tracks s run a g target) (bindings : Bindings) :
    boundRequest run.input.mode bindings a.request =
      ((run.input.map (captured bindings ∘ g)).withSource target).encode := by
  have hbound := boundRequest_encode bindings ((run.input.map g).withSource target)
  rw [mode_withSource, mode_map, ← h.request] at hbound
  rw [hbound, map_withSource, map_map]

theorem Tracks.bound_iff (h : Tracks s run a g target) (bindings : Bindings) :
    (∃ target', Plots.boundRequest run.input.mode bindings a.request = (run.input.withSource target').encode) ↔
      ∀ n ∈ run.input.columns, captured bindings (g n) = n := by
  rw [h.boundRequest bindings]
  exact rewritten_iff

theorem Tracks.unrenamed_iff (h : Tracks s run a g target) :
    (∃ target', a.request = (run.input.withSource target').encode) ↔ ∀ n ∈ run.input.columns, g n = n := by
  rw [h.request]
  exact rewritten_iff

theorem Tracks.congr {t : Source V} {b : Analysis} (h : Tracks s run a g target)
    (hrelation : t.relation = s.relation) (hcolumns : t.columns.map Prod.fst = s.columns.map Prod.fst)
    (hrequest : b.request = a.request) : Tracks t run b g target := by
  refine ⟨hrequest ▸ h.request, ?_, ?_, ?_⟩
  · rw [hrelation]
    exact h.origin
  · rw [hrelation, hcolumns]
    exact h.field
  · rw [hrelation, hcolumns]
    exact h.held

end Tracked

theorem Invariant.run_eq {s : State V} {a b : PlotRun V} (hs : Invariant s) (ha : a ∈ s.runs) (hb : b ∈ s.runs)
    (h : a.id = b.id) : a = b := List.inj_on_of_nodup_map hs.ids ha hb h

theorem reconcile_id (kind : String) (rename : Rename) (a : Analysis) : (reconcile kind rename a).id = a.id := by
  simp only [reconcile]
  split <;> rfl

theorem reconcile_published {kind : String} {rename : Rename} {a : Analysis} {result : PlotResult}
    (h : (reconcile kind rename a).result = some result) : ∃ earlier, a.result = some earlier := by
  simp only [reconcile] at h
  split at h
  · exact ⟨result, h⟩
  · cases rename with
    | table source name => exact ⟨result, h⟩
    | column source before after =>
        obtain ⟨earlier, hearlier, -⟩ := Option.map_eq_some_iff.mp h
        exact ⟨earlier, hearlier⟩

/-- A change of the source that `reconcile` is told of keeps requests on their
columns and bindings on the captured ones. -/
theorem invariant_renamed {s : State V} {r : Renamed V} (hs : Invariant s) (hfollows : Follows s.source r)
    (hsource : r.source.WellFormed (record r.source s.history)) :
    Invariant (s.renamed r) ∧ (Bound s → Bound (s.renamed r)) := by
  rcases r with ⟨source, rename⟩
  cases rename with
  | none =>
      obtain ⟨hrelation, hcolumns⟩ := hfollows
      refine ⟨⟨hsource, hs.ids, hs.minted, hs.mode, fun a ha => ?_, hs.published⟩, fun hbound => hbound⟩
      obtain ⟨run, hrun, hid, g, target, htracks⟩ := hs.tracked a ha
      exact ⟨run, hrun, hid, g, target, htracks.congr hrelation hcolumns rfl⟩
  | some rename =>
      have hstep : ∀ a', s.analysis.map (reconcile s.mode.kind rename) = some a' →
          ∃ a run, s.analysis = some a ∧ run ∈ s.runs ∧ run.id = a.id ∧ a'.id = a.id ∧
          ∃ g target, Tracks s.source run a g target ∧ ∃ g' target', Tracks source run a' g' target' ∧
            ∀ result', a'.result = some result' → ∃ result snapshot, a.result = some result ∧
              run.captured = some snapshot ∧ result = snapshot.result result.rows result.fieldBindings ∧
              s.artifacts.find? (fun artifact => artifact.1 = result.rows) = some (result.rows, snapshot.rows) ∧
              Rebinds run.input.columns g g' result result' := by
        intro a' ha'
        obtain ⟨a, ha, rfl⟩ := Option.map_eq_some_iff.mp ha'
        obtain ⟨run, hrun, hid, g, target, htracks⟩ := hs.tracked a ha
        obtain ⟨g', target', htracks', hrel⟩ := htracks.reconcile hs.source.distinct hfollows
        rw [hs.mode run hrun] at htracks' hrel
        refine ⟨a, run, ha, hrun, hid, reconcile_id _ _ _, g, target, htracks, g', target', htracks', ?_⟩
        intro result' hresult'
        obtain ⟨result, hresult⟩ := reconcile_published hresult'
        obtain ⟨run', hrun', hid', snapshot, hsnap, hpayload, hartifact⟩ := hs.published a result ha hresult
        obtain rfl := hs.run_eq hrun hrun' (hid.trans hid'.symm)
        have hrebinds := hrel snapshot hsnap
        rw [hresult, hresult'] at hrebinds
        cases hrebinds with
        | some hrebinds => exact ⟨result, snapshot, hresult, hsnap, hpayload, hartifact, hrebinds⟩
      refine ⟨⟨hsource, hs.ids, hs.minted, hs.mode, fun a' ha' => ?_, fun a' result' ha' hresult' => ?_⟩,
        fun hbound a' result' run' ha' hresult' hrun' hid' => ?_⟩
      · obtain ⟨a, run, ha, hrun, hid, hsame, g, target, -, g', target', htracks', -⟩ := hstep a' ha'
        exact ⟨run, hrun, hid.trans hsame.symm, g', target', htracks'⟩
      · obtain ⟨a, run, ha, hrun, hid, hsame, g, target, -, g', target', -, hresults⟩ := hstep a' ha'
        obtain ⟨result, snapshot, -, hsnap, hpayload, hartifact, hrest, -⟩ := hresults result' hresult'
        refine ⟨run, hrun, hid.trans hsame.symm, snapshot, hsnap, ?_, ?_⟩
        · rw [hrest, hpayload]
          rfl
        · rw [hrest]
          exact hartifact
      · obtain ⟨a, run, ha, hrun, hid, hsame, g, target, htracks, g', target', htracks', hresults⟩ := hstep a' ha'
        obtain ⟨result, snapshot, hresult, -, -, -, -, hcaptured⟩ := hresults result' hresult'
        obtain rfl := hs.run_eq hrun hrun' (hid.trans (hsame.symm.trans hid'.symm))
        have hbinds := (htracks.bound_iff result.fieldBindings).mp ?_
        · have hthis := (htracks'.bound_iff result'.fieldBindings).mpr fun n hn =>
            (hcaptured n hn).trans (hbinds n hn)
          rwa [hs.mode run hrun] at hthis
        · rw [hs.mode run hrun]
          exact hbound a result run ha hresult hrun hid

theorem invariant_beginRun {s t : State V} {input : PlotRequest} {id : Nat} (hs : Invariant s)
    (h : s.beginRun input id = some t) : Invariant t ∧ Bound t := by
  simp only [State.beginRun, Option.ite_none_right_eq_some, Option.some.injEq] at h
  obtain ⟨⟨hmode, hfresh⟩, rfl⟩ := h
  have hnew : ∀ run ∈ s.runs, run.id ≠ id := fun run hrun heq => hfresh (heq ▸ hs.minted run hrun)
  refine ⟨⟨hs.source, ?_, ?_, ?_, ?_, ?_⟩, ?_⟩
  · rw [List.map_cons]
    refine List.nodup_cons.mpr ⟨fun hmem => ?_, hs.ids⟩
    obtain ⟨run, hrun, heq⟩ := List.mem_map.mp hmem
    exact hnew run hrun heq
  · exact List.forall_mem_cons.mpr ⟨List.mem_cons_self, fun run hrun => List.mem_cons_of_mem _ (hs.minted run hrun)⟩
  · exact List.forall_mem_cons.mpr ⟨hmode, hs.mode⟩
  · intro a ha
    cases ha
    refine ⟨_, List.mem_cons_self, rfl, fun n => n, input.source, ?_, .inl rfl, fun n _ => .inl rfl, fun snapshot hsnap => ?_⟩
    · rw [map_same fun _ _ => rfl, withSource_source]
    · cases hsnap
  · intro a result ha hresult
    cases ha
    cases hresult
  · intro a result run ha hresult
    cases ha
    cases hresult

theorem invariant_capture {s t : State V} {id : Nat} {summary : Except Error Summary} (hs : Invariant s)
    (h : s.capture id summary = some t) : Invariant t ∧ (Bound s → Bound t) := by
  obtain ⟨run, hfind, h⟩ := Option.bind_eq_some_iff.mp h
  obtain ⟨snapshot, hcapture, h⟩ := Option.bind_eq_some_iff.mp h
  simp only [Option.ite_none_right_eq_some, Option.some.injEq] at h
  obtain ⟨hnone, rfl⟩ := h
  have hrun : run ∈ s.runs := List.mem_of_find?_eq_some hfind
  obtain rfl : run.id = id := by simpa using List.find?_some hfind
  obtain ⟨hrecognized, hcolumns, hnames⟩ := capture_spec (toOption_eq_some.mp hcapture)
  have hother : ∀ r ∈ s.runs, r ≠ run → r ∈ s.runs.map (PlotRun.store run.id snapshot) := by
    intro r hr hne
    exact List.mem_map.mpr ⟨r, hr, if_neg fun heq => hne (hs.run_eq hr hrun heq)⟩
  refine ⟨⟨hs.source, ?_, ?_, ?_, fun a ha => ?_, fun a result ha hresult => ?_⟩,
    fun hbound a result r ha hresult hr hid => ?_⟩
  · rw [List.map_map]
    have hids : PlotRun.id ∘ PlotRun.store run.id snapshot = PlotRun.id :=
      funext fun r => (r.store_spec run.id snapshot).1
    rw [hids]
    exact hs.ids
  · intro r hr
    obtain ⟨old, hold, rfl⟩ := List.mem_map.mp hr
    rw [(old.store_spec run.id snapshot).1]
    exact hs.minted old hold
  · intro r hr
    obtain ⟨old, hold, rfl⟩ := List.mem_map.mp hr
    rw [(old.store_spec run.id snapshot).2]
    exact hs.mode old hold
  · obtain ⟨r, hr, hid, g, target, htracks⟩ := hs.tracked a ha
    by_cases hsame : r = run
    · subst hsame
      have htarget : Recognized s.source.relation target := by
        rcases htracks.origin with rfl | hrec
        · exact hrecognized
        · exact hrec
      refine ⟨{ r with captured := some snapshot }, List.mem_map.mpr ⟨r, hr, if_pos rfl⟩, hid, g, target,
        htracks.request, htracks.origin, htracks.field, ?_⟩
      rintro _ hsnap
      obtain rfl := Option.some.inj hsnap
      refine ⟨htarget, fun n hn => ⟨?_, hcolumns ▸ hnames n hn⟩⟩
      rcases htracks.field n hn with hg | ⟨hg, -⟩
      · exact hg.symm ▸ hnames n hn
      · exact hg
    · exact ⟨r, hother r hr hsame, hid, g, target, htracks⟩
  · obtain ⟨r, hr, hid, captured, hcaptured, hrest⟩ := hs.published a result ha hresult
    have hne : r ≠ run := by
      rintro rfl
      rw [hnone] at hcaptured
      cases hcaptured
    exact ⟨r, hother r hr hne, hid, captured, hcaptured, hrest⟩
  · obtain ⟨old, hold, rfl⟩ := List.mem_map.mp hr
    rw [(old.store_spec run.id snapshot).1] at hid
    rw [(old.store_spec run.id snapshot).2]
    exact hbound a result old ha hresult hold hid

theorem invariant_publish {s t : State V} {id artifact : Nat} (hs : Invariant s)
    (h : s.publish id artifact = some t) : Invariant t ∧ (Bound t ↔ Unrenamed s (.publish id artifact)) := by
  obtain ⟨run, hfind, h⟩ := Option.bind_eq_some_iff.mp h
  obtain ⟨snapshot, hsnap, h⟩ := Option.bind_eq_some_iff.mp h
  obtain ⟨a, ha, h⟩ := Option.bind_eq_some_iff.mp h
  simp only [Option.ite_none_right_eq_some, Option.some.injEq] at h
  obtain ⟨⟨rfl, hnone, hfresh⟩, rfl⟩ := h
  have hrun : run ∈ s.runs := List.mem_of_find?_eq_some hfind
  have hid : run.id = a.id := by simpa using List.find?_some hfind
  obtain ⟨run', hrun', hid', g, target, htracks⟩ := hs.tracked a ha
  obtain rfl := hs.run_eq hrun hrun' (hid.trans hid'.symm)
  have htracks' : Tracks s.source run { a with result := some (snapshot.result artifact .empty) } g target :=
    htracks.congr rfl rfl rfl
  refine ⟨⟨hs.source, hs.ids, hs.minted, hs.mode, fun b hb => ?_, fun b result hb hresult => ?_⟩, ?_⟩
  · cases hb
    exact ⟨run, hrun, hid, g, target, htracks'⟩
  · cases hb
    cases hresult
    exact ⟨run, hrun, hid, snapshot, hsnap, rfl, by simp [Snapshot.result]⟩
  · have hempty : ∀ n, captured .empty n = n := fun n => rfl
    constructor
    · intro hbound b run'' hb hrun'' hid'' hrunid
      obtain rfl := Option.some.inj (ha.symm.trans hb)
      obtain rfl := hs.run_eq hrun hrun'' (hid.trans hrunid.symm)
      have hbind := (htracks'.bound_iff .empty).mp ?_
      · exact htracks.unrenamed_iff.mpr fun n hn => (hempty (g n)).symm.trans (hbind n hn)
      · have hthis := hbound _ _ run rfl rfl hrun hid
        rwa [← hs.mode run hrun] at hthis
    · intro hrenamed b result run'' hb hresult hrun'' hid''
      cases hb
      cases hresult
      obtain rfl := hs.run_eq hrun hrun'' (hid.trans hid''.symm)
      have hsame := htracks.unrenamed_iff.mp (hrenamed a run ha hrun rfl hid)
      have hthis := (htracks'.bound_iff .empty).mpr fun n hn => (hempty (g n)).trans (hsame n hn)
      rwa [hs.mode run hrun] at hthis

theorem invariant_step {s t : State V} {e : Event} (hs : Invariant s) (h : step s e = some t) :
    Invariant t ∧ (Bound s → Unrenamed s e → Bound t) := by
  have hrenamed : ∀ {r : Option (Renamed V)}, (∀ x, r = some x → Follows s.source x ∧
      x.source.WellFormed (record x.source s.history)) → r.map s.renamed = some t →
      Invariant t ∧ (Bound s → Bound t) := by
    intro r hr ht
    obtain ⟨x, hx, rfl⟩ := Option.map_eq_some_iff.mp ht
    exact invariant_renamed hs (hr x hx).1 (hr x hx).2
  cases e with
  | beginRun input id =>
      obtain ⟨hinv, hbound⟩ := invariant_beginRun hs h
      exact ⟨hinv, fun _ _ => hbound⟩
  | capture id summary =>
      obtain ⟨hinv, hbound⟩ := invariant_capture hs h
      exact ⟨hinv, fun hb _ => hbound hb⟩
  | publish id artifact =>
      obtain ⟨hinv, hbound⟩ := invariant_publish hs h
      exact ⟨hinv, fun _ => hbound.mpr⟩
  | changeColumn column name =>
      obtain ⟨hinv, hbound⟩ :=
        hrenamed (fun x hx => changeColumn_spec hs.source (toOption_eq_some.mp hx)) h
      exact ⟨hinv, fun hb _ => hbound hb⟩
  | undo =>
      obtain ⟨hinv, hbound⟩ := hrenamed (fun x hx => undo_spec hs.source hx) h
      exact ⟨hinv, fun hb _ => hbound hb⟩
  | redo layer =>
      obtain ⟨hinv, hbound⟩ := hrenamed (fun x hx => redo_spec hs.source hx) h
      exact ⟨hinv, fun hb _ => hbound hb⟩
  | renameNode name =>
      obtain ⟨hinv, hbound⟩ :=
        hrenamed (fun x hx => renameNode_spec hs.source (toOption_eq_some.mp hx)) h
      exact ⟨hinv, fun hb _ => hbound hb⟩

theorem saved_eq_ok {s : State V} {id : Nat} {mode : PlotMode} {request : PlotRequest} {result : PlotResult}
    {rows : List (List V)} (h : saved s id mode = .ok (request, result, rows)) :
    ∃ a, s.analysis = some a ∧ a.id = id ∧ a.result = some result ∧
      PlotRequest.decode mode (boundRequest mode result.fieldBindings a.request) = some request := by
  simp only [saved] at h
  split at h
  · cases h
  · rename_i a ha
    obtain ⟨hanalysis, hid⟩ := Option.filter_eq_some_iff.mp ha
    split at h
    · cases h
    · rename_i found hresult
      obtain ⟨-, h⟩ := guard_eq_ok.mp h
      split at h
      · cases h
      · split at h
        · cases h
        · rename_i decoded hdecode
          cases h
          exact ⟨a, hanalysis, by simpa using hid, hresult, hdecode⟩

theorem kept_iff {s : State V} (hs : Invariant s) : Kept s ↔ Bound s := by
  constructor
  · intro hkept a result run ha hresult hrun hid
    obtain ⟨run', hrun', hid', snapshot, target, -, -, hsaved, -⟩ := hkept a result ha hresult
    obtain rfl := hs.run_eq hrun hrun' (hid.trans hid'.symm)
    obtain ⟨b, hb, -, hbresult, hdecode⟩ := saved_eq_ok hsaved
    obtain rfl := Option.some.inj (ha.symm.trans hb)
    obtain ⟨run'', hrun'', hid'', g, target', htracks⟩ := hs.tracked a ha
    obtain rfl := hs.run_eq hrun hrun'' (hid.trans hid''.symm)
    refine ⟨target, ?_⟩
    have hbound := htracks.boundRequest result.fieldBindings
    rw [hs.mode run hrun] at hbound
    rw [hbound] at hdecode ⊢
    have hmode : ((run.input.map (captured result.fieldBindings ∘ g)).withSource target').mode = s.mode := by
      simpa using hs.mode run hrun
    rw [← hmode, PlotRequest.decode_encode] at hdecode
    rw [Option.some.inj hdecode]
  · intro hbound a result ha hresult
    obtain ⟨run, hrun, hid, snapshot, hsnap, hpayload, hartifact⟩ := hs.published a result ha hresult
    obtain ⟨target, htarget⟩ := hbound a result run ha hresult hrun hid
    obtain ⟨run', hrun', hid', g, target', htracks⟩ := hs.tracked a ha
    obtain rfl := hs.run_eq hrun hrun' (hid.trans hid'.symm)
    refine ⟨run, hrun, hid, snapshot, target, hsnap, hpayload, ?_, fun n hn => ?_⟩
    · have hmode : (run.input.withSource target).mode = s.mode := by simpa using hs.mode run hrun
      have hdecode := (run.input.withSource target).decode_encode
      rw [hmode, ← htarget] at hdecode
      have hfilter : (some a).filter (fun b => b.id = a.id) = some a := by simp [Option.filter]
      simp [saved, ha, hfilter, hresult, hartifact, hdecode]
    · rw [hpayload]
      exact ((htracks.held snapshot hsnap).2 n hn).2

/-- A tab before its first run, over a source no two columns of which have one
name. -/
structure Initial (s : State V) : Prop where
  source : s.source.WellFormed s.history
  runs : s.runs = []
  analysis : s.analysis = none

theorem Initial.invariant {s : State V} (h : Initial s) : Invariant s where
  source := h.source
  ids := by simp [h.runs]
  minted := by simp [h.runs]
  mode := by simp [h.runs]
  tracked := by simp [h.analysis]
  published := by simp [h.analysis]

/-- When no publication comes after a rename of a submitted column, every saved
plot keeps the columns and rows its run captured through all later renames; a
publication that does come after one shows other columns at once. -/
theorem saved_plot_keeps_columns {s t : State V} {es : List Event} (h0 : Initial s) (h : exec step s es = some t) :
    (Along step Unrenamed s es → Kept t) ∧
    ∀ id artifact u, step t (.publish id artifact) = some u → (Kept u ↔ Unrenamed t (.publish id artifact)) := by
  refine ⟨fun hrenamed => ?_, fun id artifact u hstep => ?_⟩
  · have hboth : Invariant t ∧ Bound t := by
      refine exec_invariant_along (I := fun s => Invariant s ∧ Bound s) (fun hs hP hstep => ?_) ⟨h0.invariant, ?_⟩ h
        hrenamed
      · obtain ⟨hinv, hbound⟩ := invariant_step hs.1 hstep
        exact ⟨hinv, hbound hs.2 hP⟩
      · intro a result run ha
        rw [h0.analysis] at ha
        cases ha
    exact (kept_iff hboth.1).mpr hboth.2
  · have ht : Invariant t := exec_invariant (fun hs hstep => (invariant_step hs hstep).1) h0.invariant h
    obtain ⟨hu, hbound⟩ := invariant_publish ht hstep
    exact (kept_iff hu).trans hbound

def corpus : State String where
  mode := .compare
  source := ⟨⟨"data", "corpus"⟩, false, [("party", "VARCHAR")], [], [["A"], ["B"]]⟩
  history := []
  minted := []
  runs := []
  analysis := none
  artifacts := []

def parties : PlotRequest := .compare ⟨⟨none, "corpus"⟩, "party", none, .count, none⟩

def partySummary : Summary := ⟨2, 2, 0, true, false, none⟩

/-- A rename that commits between the capture of a run and its publication. -/
def overtaken : List Event :=
  [.beginRun parties 1, .capture 1 (.ok partySummary), .changeColumn "party" "group", .publish 1 2]

/-- The same rename after the publication. -/
def settled : List Event :=
  [.beginRun parties 1, .capture 1 (.ok partySummary), .publish 1 2, .changeColumn "party" "group",
    .changeColumn "group" "renamed", .renameNode "new corpus"]

theorem corpus_initial : Initial corpus :=
  ⟨⟨by simp [Stacked, Distinct, corpus], by simp [corpus], by simp [corpus]⟩, rfl, rfl⟩

theorem settled_unrenamed : Along step Unrenamed corpus settled := by
  refine ⟨trivial, fun t ht => ⟨trivial, fun u hu => ⟨?_, fun _ _ => ⟨trivial, fun _ _ => ⟨trivial, fun _ _ =>
    ⟨trivial, fun _ _ => trivial⟩⟩⟩⟩⟩⟩
  have hexec : exec step corpus [.beginRun parties 1, .capture 1 (.ok partySummary)] = some u :=
    exec_cons.mpr ⟨t, ht, exec_cons.mpr ⟨u, hu, rfl⟩⟩
  have hstored : (exec step corpus [.beginRun parties 1, .capture 1 (.ok partySummary)]).map
      (fun u => (u.analysis.map Analysis.request, u.runs.map PlotRun.input)) =
        some (some parties.encode, [parties]) := by decide
  rw [hexec, Option.map_some, Option.some.injEq, Prod.mk.injEq] at hstored
  intro a run ha hrun _ _
  have hinput : run.input = parties := by simpa [hstored.2] using List.mem_map_of_mem (f := PlotRun.input) hrun
  rw [ha, Option.map_some, Option.some.injEq] at hstored
  exact ⟨parties.source, by rw [hstored.1, hinput, withSource_source]⟩

theorem settled_keeps_columns : ∃ t, exec step corpus settled = some t ∧ Kept t := by
  have hrun : (exec step corpus settled).isSome = true := by decide
  obtain ⟨t, ht⟩ := Option.isSome_iff_exists.mp hrun
  exact ⟨t, ht, (saved_plot_keeps_columns corpus_initial ht).1 settled_unrenamed⟩

/-- The saved plot of an overtaken run shows a column it has not captured. -/
theorem overtaken_loses_column : ∃ t request result rows, exec step corpus overtaken = some t ∧
    saved t 1 .compare = .ok (request, result, rows) ∧ "group" ∈ request.columns ∧
    "group" ∉ result.columns.map Prod.fst := by
  have hrun : (exec step corpus overtaken).bind (fun t => (saved t 1 .compare).toOption.map fun r =>
      (r.1.columns, r.2.1.columns)) = some (["group"], [("party", "VARCHAR")]) := by decide
  obtain ⟨t, ht, hsaved⟩ := Option.bind_eq_some_iff.mp hrun
  obtain ⟨⟨request, result, rows⟩, hok, hcolumns⟩ := Option.map_eq_some_iff.mp hsaved
  obtain ⟨hrequest, hresult⟩ := Prod.mk.inj hcolumns
  refine ⟨t, request, result, rows, ht, toOption_eq_some.mp hok, ?_, ?_⟩
  · rw [hrequest]
    decide
  · rw [hresult]
    decide

end Wordflow.Plots
