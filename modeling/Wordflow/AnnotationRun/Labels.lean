import Mathlib.Algebra.GroupWithZero.Nat
import Mathlib.Data.List.Dedup
import Wordflow.AnnotationRun.Rows
import Wordflow.CellEdit.Sessions
import Wordflow.Library.Join
import Wordflow.Library.Run

namespace Wordflow.AnnotationRun

open Library Library.Chunks Library.Fallible Library.Identifier Library.Join Library.Run
open Objects Tables Annotation CellEdit

section Labelling

variable {V : Type} {sql : Sql V} {t : Table V}

section Steps

variable [DecidableEq V]

/-- The texts asked so far are those answered and those of the requests that
have not completed; every number stands for the text it was given to. -/
structure Sound (sql : Sql V) (start s : Live V) : Prop where
  request : s.run.request = start.run.request
  codes : s.run.codes = start.run.codes
  columns : s.run.table.columns = start.run.table.columns
  captured : Captured sql start.run.table s.run
  rows : List.Forall₂ (Labelled sql s.run.request s.answered) start.run.table.rows s.run.table.rows
  stored : List.Forall₂ (fun p a => s.run.input p.1 = some a.1 ∧ p.2 = a.2) s.run.predictions s.answered
  waiting : ∀ job ∈ s.batches,
    List.Forall₂ (fun ref text => s.run.input ref = some text) ((s.refs.drop job.1).take job.2.length) job.2
  asked : s.windows.flatten = s.run.inputs.take s.run.after
  accounted : (s.answered.map Prod.fst ++ s.batches.flatMap Prod.snd).Perm (s.run.inputs.take s.run.after)
  coded : ∀ a ∈ s.answered, a.2.Coded s.run.codes
  processed : s.run.processed = (s.run.predictions.map s.run.succeeded).sum
  failed : s.run.failed = (s.run.predictions.map s.run.lost).sum
  drained : s.drained = true → s.batches = [] ∧ s.run.inputs.length ≤ s.run.after
  published : ∀ result, s.outcome = some (.ok result) → s.drained = true ∧ result = s.run.publish

theorem Sound.stop {start s : Live V} (h : Sound sql start s) (error : Error) :
    Sound sql start { s with outcome := some (.error error) } :=
  { h with published := fun _ hresult => nomatch hresult }

/-- The loop goes on with the next window of texts. -/
theorem Sound.window {start s : Live V} (h : Sound sql start s) (hdrained : s.drained = false) (hbatches : s.batches = [])
    (houtcome : s.outcome = none) (hne : s.run.next.1 ≠ []) : Sound sql start { s with
      run := s.run.next.2
      refs := s.run.next.1.map Prod.fst
      batches := chunks s.run.request.inference.batchSize (s.run.next.1.map Prod.snd)
      windows := s.windows ++ [s.run.next.1.map Prod.snd] } := by
  have htake : s.run.inputs.take s.run.next.2.after = s.run.inputs.take s.run.after ++ s.run.next.1.map Prod.snd := by
    have hlength := congrArg List.length (next_texts s.run)
    rw [List.length_map, List.length_take] at hlength
    rw [next_after hne, List.take_add, next_texts, hlength, ← List.take_eq_take_min]
  exact {
    request := h.request
    codes := h.codes
    columns := h.columns
    captured := { h.captured with }
    rows := h.rows
    stored := h.stored
    waiting := fun job hjob => forall₂_chunk (next_numbers s.run) hjob
    asked := List.flatten_concat.trans ((congrArg (· ++ _) h.asked).trans htake.symm)
    accounted := by
      have hold := h.accounted
      rw [hbatches, List.flatMap_nil, List.append_nil] at hold
      rw [chunks_flatten h.captured.batchSize]
      exact (hold.append_right _).trans (.of_eq htake.symm)
    coded := h.coded
    processed := h.processed
    failed := h.failed
    drained := fun htrue => nomatch hdrained.symm.trans htrue
    published := fun result hresult => nomatch houtcome.symm.trans hresult }

theorem Sound.next {start s : Live V} (h : Sound sql start s) (hdrained : s.drained = false) (hbatches : s.batches = [])
    (houtcome : s.outcome = none) : Sound sql start (Live.next sql s) := by
  simp only [Live.next]
  split
  · rename_i hempty
    refine { h with drained := fun _ => ⟨hbatches, ?_⟩, published := fun result hresult => ?_ }
    · rw [List.isEmpty_iff, next_texts, List.take_eq_nil_iff, List.drop_eq_nil_iff] at hempty
      have hlimit := Nat.mul_pos h.captured.batchSize h.captured.concurrency
      exact hempty.resolve_left hlimit.ne'
    · cases houtcome.symm.trans hresult
  · rename_i hne
    cases checkCodes sql.fold [] s.run.codes with
    | error error => exact h.stop error
    | ok =>
        refine h.window hdrained hbatches houtcome fun hnil => hne ?_
        rw [hnil]
        rfl

theorem stage_spec {run changed : Run V} {refs : List Nat} {predictions : List Prediction}
    (h : run.stage sql refs predictions = .ok changed) : refs.length = predictions.length ∧
      ((refs = [] ∧ changed = run) ∨ (((run.predictions ++ refs.zip predictions).map Prod.fst).Nodup ∧
        ∃ table, run.update sql (run.predictions ++ refs.zip predictions) refs = .ok table ∧ changed = { run with
          table := table
          predictions := run.predictions ++ refs.zip predictions
          processed := run.processed + ((refs.zip predictions).map run.succeeded).sum
          failed := run.failed + ((refs.zip predictions).map run.lost).sum })) := by
  rw [Run.stage, guard_eq_ok, not_not] at h
  obtain ⟨hlength, h⟩ := h
  refine ⟨hlength, ?_⟩
  split at h
  · rename_i hempty
    exact .inl ⟨List.isEmpty_iff.mp hempty, (Except.ok.inj h).symm⟩
  · rw [guard_eq_ok, not_not, bind_eq_ok] at h
    obtain ⟨hnodup, table, htable, h⟩ := h
    exact .inr ⟨hnodup, table, htable, (Except.ok.inj h).symm⟩

/-- A batch that is staged labels the rows of its texts. -/
theorem Captured.staged {run changed : Run V} {answered : List (String × Prediction)} {refs : List Nat} {texts : List String}
    {predictions : List Prediction} (hc : Captured sql t run) (hlength : predictions.length = texts.length)
    (hinputs : List.Forall₂ (fun ref text => run.input ref = some text) refs texts)
    (hstored : List.Forall₂ (fun p a => run.input p.1 = some a.1 ∧ p.2 = a.2) run.predictions answered)
    (hrows : List.Forall₂ (Labelled sql run.request answered) t.rows run.table.rows)
    (h : run.stage sql refs predictions = .ok changed) :
    List.Forall₂ (Labelled sql run.request (answered ++ texts.zip predictions)) t.rows changed.table.rows ∧
      changed = { run with
        table := changed.table
        predictions := run.predictions ++ refs.zip predictions
        processed := run.processed + ((refs.zip predictions).map run.succeeded).sum
        failed := run.failed + ((refs.zip predictions).map run.lost).sum } ∧
      changed.table.columns = run.table.columns := by
  obtain ⟨-, ⟨rfl, rfl⟩ | ⟨hnodup, table, htable, rfl⟩⟩ := stage_spec h
  · cases hinputs
    rw [List.zip_nil_left, List.zip_nil_left, List.append_nil, List.append_nil]
    exact ⟨hrows, rfl, rfl⟩
  · obtain ⟨values, moves, hcast, rfl⟩ := update_spec htable
    refine ⟨?_, rfl, rfl⟩
    have hmem := (List.forall₂_and_left _ _).mpr ⟨fun row hrow => hrow, hrows⟩
    refine List.forall₂_map_right_iff.mpr (hmem.imp fun base row hrow => ?_)
    exact hc.relabelled ⟨hlength, hinputs, hstored, hnodup⟩ hcast hrow.1 hrow.2

theorem Sound.complete {start s : Live V} (h : Sound sql start s) (houtcome : s.outcome = none) {job : Nat × List String}
    (hjob : job ∈ s.batches) (answers : List Attempt) : Sound sql start (Live.complete sql s job answers) := by
  simp only [Live.complete]
  cases hpredicted : predictBatch sql.fold s.run.codes s.run.request.inference.retries answers job.2 with
  | error error => exact h.stop error
  | ok predictions =>
      obtain ⟨hlength, hcoded⟩ := predictBatch_spec hpredicted
      simp only
      cases hstaged : s.run.stage sql ((s.refs.drop job.1).take predictions.length) predictions with
      | error error => exact h.stop error
      | ok changed =>
          rw [hlength] at hstaged
          obtain ⟨hrows, hchanged, hcolumns⟩ :=
            h.captured.staged hlength (h.waiting job hjob) h.stored h.rows hstaged
          generalize changed.table = table at hrows hchanged hcolumns
          subst hchanged
          exact {
            request := h.request
            codes := h.codes
            columns := hcolumns.trans h.columns
            captured := { h.captured with }
            rows := hrows
            stored := List.rel_append h.stored (forall₂_zip _ (h.waiting job hjob))
            waiting := fun other hother => h.waiting other (List.mem_of_mem_erase hother)
            asked := h.asked
            accounted := by
              have hbatch := (List.perm_cons_erase hjob).flatMap_right Prod.snd
              rw [List.flatMap_cons] at hbatch
              rw [List.map_append, List.map_fst_zip hlength.ge, List.append_assoc]
              exact (hbatch.symm.append_left _).trans h.accounted
            coded := by
              refine List.forall_mem_append.mpr ⟨h.coded, fun a ha => ?_⟩
              exact hcoded _ (List.of_mem_zip ha).2
            processed := by
              rw [List.map_append, List.sum_append]
              exact congrArg (· + _) h.processed
            failed := by
              rw [List.map_append, List.sum_append]
              exact congrArg (· + _) h.failed
            drained := by
              intro htrue
              rw [(h.drained htrue).1] at hjob
              cases hjob
            published := fun result hresult => nomatch houtcome.symm.trans hresult }

/-- No event breaks what the run has accounted for. -/
theorem Sound.step {start s s' : Live V} {event : Event} (h : Sound sql start s) (hstep : Live.step sql s event = some s') :
    Sound sql start s' := by
  simp only [Live.step] at hstep
  split at hstep
  · cases hstep
  · rename_i hnot
    have houtcome : s.outcome = none := Option.not_isSome_iff_eq_none.mp hnot
    cases event with
    | next =>
        simp only at hstep
        split at hstep
        · cases hstep
        · rename_i hidle
          obtain rfl := Option.some.inj hstep
          simp only [Bool.or_eq_true, Bool.not_eq_true', not_or, Bool.not_eq_true, Bool.not_eq_false, List.isEmpty_iff] at hidle
          exact h.next hidle.1 hidle.2 houtcome
    | completed offset answers =>
        obtain ⟨job, hjob, rfl⟩ := Option.map_eq_some_iff.mp hstep
        exact h.complete houtcome (List.mem_of_find?_eq_some hjob) answers
    | stop error =>
        obtain rfl := Option.some.inj hstep
        exact h.stop error
    | publish =>
        simp only at hstep
        split at hstep
        · rename_i hdrained
          obtain rfl := Option.some.inj hstep
          refine { h with published := fun result hresult => ⟨hdrained, ?_⟩ }
          exact (Except.ok.inj (Option.some.inj hresult)).symm
        · cases hstep

theorem Sound.run {start s s' : Live V} {events : List Event} (h : Sound sql start s)
    (hrun : exec (Live.step sql) s events = some s') : Sound sql start s' :=
  exec_invariant (I := Sound sql start) (fun hs hstep => hs.step hstep) h hrun

/-- What a run captures when it starts. -/
theorem capture_spec {distinct : DistinctOrder} {c : Catalogue V} {request : Request} {run : Run V}
    (h : capture sql c distinct request = .ok run) :
    ∃ relation table codes, request.validate sql c = .ok (relation, table) ∧
      validateIdentifiers sql table.rows = .ok () ∧ captureContext sql c request = .ok codes ∧
      run.request = request ∧ run.codes = codes ∧ run.relation = relation ∧ run.table = table ∧
      run.captured = (table.rows.filter (eligible sql request)).map (fun r => (rowRef sql r, documentText sql request r)) ∧
      run.inputs = distinct.order (run.captured.map Prod.snd) ∧ run.predictions = [] ∧ run.total = table.rows.length ∧
      run.eligible = run.captured.length ∧
      run.skipped = (table.rows.filter fun r => blank (document sql request r)).length ∧
      run.after = 0 ∧ run.processed = 0 ∧ run.failed = 0 := by
  obtain ⟨⟨relation, table⟩, hvalid, h⟩ := bind_eq_ok.mp h
  rw [guard_eq_ok] at h
  obtain ⟨⟨⟩, hidentifiers, h⟩ := bind_eq_ok.mp h.2
  obtain ⟨codes, hcodes, h⟩ := bind_eq_ok.mp h
  obtain rfl := Except.ok.inj h
  exact ⟨relation, table, codes, hvalid, hidentifiers, hcodes, rfl, rfl, rfl, rfl, rfl, rfl, rfl, rfl, rfl, rfl, rfl, rfl, rfl⟩

omit [DecidableEq V] in
theorem stored_spec {c : Catalogue V} {relation : Relation} {request : Request} {table : Table V}
    (h : stored c relation request = .ok table) : c.table? relation = some table := by
  rw [stored] at h
  split at h
  · cases h
  · rename_i found hfound
    rw [guard_eq_ok] at h
    obtain rfl := Except.ok.inj h.2
    exact (Option.filter_eq_some_iff.mp hfound).1

omit [DecidableEq V] in
theorem validate_columns {c : Catalogue V} {setup : ManualSetup}
    (h : (EditRequest.manual setup).validate sql c = .ok ()) : setup.document ≠ setup.annotation := by
  obtain ⟨relation, -, h⟩ := bind_eq_ok.mp h
  rw [guard_eq_ok] at h
  obtain ⟨⟨⟩, -, h⟩ := bind_eq_ok.mp h.2
  simp only [EditRequest.validateSetup, guard_eq_ok] at h
  intro heq
  refine h.2.2.1 ?_
  rw [EditRequest.columns, List.any_cons, heq, eqIgnoreAsciiCase_refl]
  rfl

omit [DecidableEq V] in
/-- A run starts on the stored table of its source. -/
theorem validate_spec {c : Catalogue V} {request : Request} {relation : Relation} {table : Table V}
    (h : request.validate sql c = .ok (relation, table)) : resolve c request.setup.source = .ok relation ∧
      c.table? relation = some table ∧ request.setup.document ≠ request.setup.annotation := by
  obtain ⟨found, hfields, h⟩ := bind_eq_ok.mp h
  rw [guard_eq_ok] at h
  obtain ⟨⟨⟩, hvalid, h⟩ := bind_eq_ok.mp h.2
  obtain ⟨t, hstored, h⟩ := bind_eq_ok.mp h
  obtain ⟨rfl, rfl⟩ := Prod.mk.inj (Except.ok.inj h)
  refine ⟨?_, stored_spec hstored, validate_columns hvalid⟩
  obtain ⟨resolved, hresolved, hfields⟩ := bind_eq_ok.mp hfields
  split at hfields
  · cases hfields
  · obtain rfl := Except.ok.inj hfields
    exact hresolved

/-- What a run starts as. -/
theorem start_spec {distinct : DistinctOrder} {c : Catalogue V} {request : Request} {s : Live V}
    (h : Live.start sql distinct c request = .ok s) :
    ∃ run, capture sql c distinct request = .ok run ∧ request.inference.prepare = .ok () ∧
      s = ⟨run, [], [], [], [], false, none⟩ := by
  obtain ⟨run, hcapture, h⟩ := bind_eq_ok.mp h
  obtain ⟨⟨⟩, hprepare, h⟩ := bind_eq_ok.mp h
  exact ⟨run, hcapture, hprepare, (Except.ok.inj h).symm⟩

theorem start_source {distinct : DistinctOrder} {c : Catalogue V} {request : Request} {s : Live V}
    (h : Live.start sql distinct c request = .ok s) : s.run.request = request ∧
      resolve c request.setup.source = .ok s.run.relation ∧ c.table? s.run.relation = some s.run.table := by
  obtain ⟨run, hcapture, -, rfl⟩ := start_spec h
  obtain ⟨relation, table, codes, hvalid, -, -, hrequest, -, hrelation, htable, -⟩ := capture_spec hcapture
  obtain ⟨hresolved, hfound, -⟩ := validate_spec hvalid
  rw [htable, hrelation]
  exact ⟨hrequest, hresolved, hfound⟩

theorem texts_of_validated {rows : List (Row V)} (h : validateIdentifiers sql rows = .ok ()) :
    ∀ row ∈ rows, (sql.text (row.key sql)).isSome = true := by
  rw [validateIdentifiers] at h
  split at h
  · rename_i hvalid
    exact List.all_eq_true.mp hvalid.1
  · cases h

theorem Sound.start {distinct : DistinctOrder} {c : Catalogue V} {request : Request} {s : Live V}
    (h : Live.start sql distinct c request = .ok s) (hidentified : Identified sql s.run.rowType s.run.table.rows) :
    Sound sql s s := by
  obtain ⟨run, hcapture, hprepare, rfl⟩ := start_spec h
  obtain ⟨relation, table, codes, hvalid, hvalidated, -, hrequest, -, hrelation, htable, hcaptured, hinputs, hpredictions,
    htotal, heligible, hskipped, hafter, hprocessed, hfailed⟩ := capture_spec hcapture
  obtain ⟨-, -, hcolumns⟩ := validate_spec hvalid
  rw [Inference.prepare, ite_eq_right_iff] at hprepare
  have hbounds : ¬_ := fun hbad => nomatch hprepare hbad
  simp only [not_or, not_not] at hbounds
  obtain rfl := htable
  obtain rfl := hrequest
  exact {
    request := rfl
    codes := rfl
    columns := rfl
    captured := {
      columns := hcolumns
      keyed := keyed_of_validated hvalidated
      texts := texts_of_validated hvalidated
      identified := hidentified
      captured := hcaptured
      nodup := hinputs ▸ distinct.nodup _
      inputs := hinputs ▸ distinct.mem _
      total := htotal
      eligible := heligible
      skipped := hskipped
      batchSize := hbounds.2.1.1
      concurrency := hbounds.2.2.2.1 }
    rows := by
      have hundecided : ∀ row, decided sql run.request [] row = none := by
        intro row
        rw [decided]
        split <;> rfl
      refine List.forall₂_same.mpr fun row _ => ?_
      rw [Labelled, hundecided]
    stored := hpredictions ▸ .nil
    waiting := fun job hjob => nomatch hjob
    asked := by
      rw [hafter]
      rfl
    accounted := by
      rw [hafter]
      exact .refl _
    coded := fun a ha => nomatch ha
    processed := by
      rw [hprocessed, hpredictions]
      rfl
    failed := by
      rw [hfailed, hpredictions]
      rfl
    drained := fun htrue => nomatch htrue
    published := fun result hresult => nomatch hresult }

end Steps

section Reports

variable {request : Request} {answered : List (String × Prediction)} {row : Row V}

def Prediction.isSuccess : Prediction → Bool
  | .success _ => true
  | .failed _ => false

def succeeded (sql : Sql V) (request : Request) (answered : List (String × Prediction)) (row : Row V) : Bool :=
  (decided sql request answered row).any Prediction.isSuccess

/-- The line of the diagnostics about a row. -/
def failure (sql : Sql V) (request : Request) (answered : List (String × Prediction)) (row : Row V) :
    Option (String × Error) :=
  match decided sql request answered row with
  | some (.failed error) => some (rowRef sql row, error)
  | _ => none

theorem decided_of_not_eligible (h : eligible sql request row ≠ true) : decided sql request answered row = none := if_neg h

theorem length_filterMap_of_isSome {α β : Type*} {f : α → Option β} {p : α → Bool} (h : ∀ a, (f a).isSome = p a)
    (items : List α) : (items.filterMap f).length = (items.filter p).length := by
  induction items with
  | nil => rfl
  | cons a items ih =>
      have ha := h a
      cases hf : f a with
      | none =>
          rw [hf] at ha
          rw [List.filterMap_cons_none hf, List.filter_cons_of_neg (by simp [← ha]), ih]
      | some b =>
          rw [hf] at ha
          rw [List.filterMap_cons_some hf, List.filter_cons_of_pos ha.symm, List.length_cons, List.length_cons, ih]

/-- A row is blank, left out because it is labelled, or eligible. -/
theorem rows_partition (sql : Sql V) (request : Request) (rows : List (Row V)) :
    rows.length = (rows.filter fun r => blank (document sql request r)).length +
      (rows.filter fun r => !blank (document sql request r) && !missing sql request r).length +
      (rows.filter (eligible sql request)).length := by
  have hblank := List.length_eq_length_filter_add (l := rows) fun r => blank (document sql request r)
  have hmissing := List.length_eq_length_filter_add (l := rows.filter fun r => !blank (document sql request r))
    (missing sql request)
  simp only [List.filter_filter, Bool.and_comm] at hmissing
  have heligible : rows.filter (eligible sql request) =
      rows.filter fun r => !blank (document sql request r) && missing sql request r := rfl
  rw [heligible]
  omega

variable [DecidableEq V] {start s : Live V}

/-- The answers stored for the numbers of texts are the answers to the rows of the texts. -/
theorem Sound.joined {γ : Type} (h : Sound sql start s) (hnodup : (s.answered.map Prod.fst).Nodup)
    (g : String × String → Prediction → Option γ) :
    (s.run.predictions.flatMap fun p => (s.run.rowsOf p.1).filterMap fun e => g e p.2).Perm
      (start.run.table.rows.filterMap fun r => (decided sql s.run.request s.answered r).bind
        (g (rowRef sql r, documentText sql s.run.request r))) := by
  have hstored : (s.run.predictions.flatMap fun p => (s.run.rowsOf p.1).filterMap fun e => g e p.2) =
      s.answered.flatMap fun a => (s.run.captured.filter fun e => a.1 = e.2).filterMap fun e => g e a.2 := by
    rw [List.flatMap_def, List.flatMap_def]
    refine congrArg List.flatten (forall₂_map_eq h.stored ?_).symm
    rintro p a ⟨hinput, hprediction⟩
    simp only [Run.rowsOf, hinput, hprediction, Option.some.injEq]
  rw [hstored]
  refine (join_perm hnodup Prod.snd g s.run.captured).trans (.of_eq ?_)
  rw [h.captured.captured, List.filterMap_map, List.filterMap_filter]
  refine List.filterMap_congr fun r _ => ?_
  rw [decided]
  split <;> rfl

theorem Sound.once (h : Sound sql start s) : (s.answered.map Prod.fst).Nodup := by
  have hnodup := h.accounted.nodup_iff.mpr (h.captured.nodup.sublist (List.take_sublist _ _))
  rw [List.nodup_append] at hnodup
  exact hnodup.1

theorem Sound.mem_windows (h : Sound sql start s) {text : String} (htext : text ∈ s.windows.flatten) :
    ∃ row ∈ start.run.table.rows, eligible sql s.run.request row = true ∧ document sql s.run.request row = some text := by
  rw [h.asked] at htext
  have hcaptured := (h.captured.inputs text).mp (List.mem_of_mem_take htext)
  obtain ⟨e, he, rfl⟩ := List.mem_map.mp hcaptured
  rw [h.captured.captured] at he
  obtain ⟨row, hrow, rfl⟩ := List.mem_map.mp he
  obtain ⟨hmem, heligible⟩ := List.mem_filter.mp hrow
  exact ⟨row, hmem, heligible, document_of_eligible heligible⟩

/-- Once the texts are used up, every captured text has been answered. -/
theorem Sound.drained_spec (h : Sound sql start s) (hdrained : s.drained = true) :
    s.windows.flatten = s.run.inputs ∧ (s.answered.map Prod.fst).Perm s.run.inputs := by
  obtain ⟨hbatches, hafter⟩ := h.drained hdrained
  have haccounted := h.accounted
  rw [hbatches, List.flatMap_nil, List.append_nil, List.take_of_length_le hafter] at haccounted
  exact ⟨h.asked.trans (List.take_of_length_le hafter), haccounted⟩

theorem Sound.mem_inputs (h : Sound sql start s) (hrow : row ∈ start.run.table.rows)
    (heligible : eligible sql s.run.request row = true) : documentText sql s.run.request row ∈ s.run.inputs :=
  (h.captured.inputs _).mpr (List.mem_map_of_mem (h.captured.mem hrow heligible))

theorem Sound.decides (h : Sound sql start s) (hdrained : s.drained = true) (hrow : row ∈ start.run.table.rows) :
    (decided sql s.run.request s.answered row).isSome = eligible sql s.run.request row := by
  rw [decided]
  split
  · rename_i heligible
    rw [heligible, Option.isSome_iff_ne_none]
    intro hnone
    have hmem := (h.drained_spec hdrained).2.mem_iff.mpr (h.mem_inputs hrow heligible)
    exact find_answer_none.mp hnone hmem
  · rename_i hnot
    exact (Bool.eq_false_iff.mpr hnot).symm

/-- The total of a count over the predictions is the count of the rows. -/
theorem Sound.count (h : Sound sql start s) {weight : Nat × Prediction → Nat} (kind : Prediction → Bool)
    (hweight : ∀ p, weight p = if kind p.2 then (s.run.rowsOf p.1).length else 0) :
    (s.run.predictions.map weight).sum =
      (start.run.table.rows.filter fun r => (decided sql s.run.request s.answered r).any kind).length := by
  have hjoined := (h.joined h.once fun _ p => if kind p then some () else none).length_eq
  rw [List.length_flatMap] at hjoined
  refine Eq.trans (congrArg List.sum (List.map_congr_left fun p _ => ?_)) (hjoined.trans ?_)
  · rw [hweight]
    cases kind p.2 with
    | false => simp
    | true => simp
  · refine length_filterMap_of_isSome (fun r => ?_) _
    cases decided sql s.run.request s.answered r with
    | none => rfl
    | some p =>
        rw [Option.bind_some, Option.any_some]
        cases kind p <;> rfl

theorem Sound.diagnostics_perm (h : Sound sql start s) :
    s.run.diagnostics.Perm (start.run.table.rows.filterMap (failure sql s.run.request s.answered)) := by
  have hjoined := h.joined h.once fun e p =>
    match p with
    | .success _ => none
    | .failed error => some (e.1, error)
  refine .trans (.of_eq ?_) (hjoined.trans (.of_eq ?_))
  · rw [Run.diagnostics, List.flatMap_def, List.flatMap_def]
    refine congrArg List.flatten (List.map_congr_left fun p _ => ?_)
    rcases p with ⟨ref, label | error⟩
    · simp
    · exact (congrFun (List.filterMap_eq_map (f := fun e : String × String => (e.1, error))) _).symm
  · refine List.filterMap_congr fun r _ => ?_
    rw [failure]
    rcases decided sql s.run.request s.answered r with _ | label | error <;> rfl

/-- What holds of a run at every moment. -/
structure Labels (sql : Sql V) (start s : Live V) : Prop where
  columns : s.run.table.columns = start.run.table.columns
  rows : List.Forall₂ (Labelled sql start.run.request s.answered) start.run.table.rows s.run.table.rows
  once : (s.answered.map Prod.fst).Nodup
  coded : ∀ a ∈ s.answered, a.2.Coded start.run.codes
  asked : ∀ a ∈ s.answered, a.1 ∈ s.windows.flatten
  windows : s.windows.flatten.Nodup
  equal : ∀ p ∈ start.run.table.rows.zip s.run.table.rows, ∀ q ∈ start.run.table.rows.zip s.run.table.rows,
    document sql start.run.request p.1 = document sql start.run.request q.1 →
      AnnotationRun.eligible sql start.run.request q.1 = true →
        succeeded sql start.run.request s.answered p.1 = true →
          cellText sql p.2 start.run.request.setup.annotation = cellText sql q.2 start.run.request.setup.annotation
  eligible : ∀ text ∈ s.windows.flatten, ∃ row ∈ start.run.table.rows,
    AnnotationRun.eligible sql start.run.request row = true ∧ document sql start.run.request row = some text

/-- What a report says about the rows of the captured table. -/
structure Accounts (sql : Sql V) (start s : Live V) (report : Report) (diagnostics : List (String × Error)) : Prop where
  decided : ∀ row ∈ start.run.table.rows, eligible sql start.run.request row = true →
    (AnnotationRun.decided sql start.run.request s.answered row).isSome = true ∧
      documentText sql start.run.request row ∈ s.windows.flatten
  failed : report.failed = diagnostics.length
  diagnostics : diagnostics.Perm (start.run.table.rows.filterMap (failure sql start.run.request s.answered))
  processed : report.processed = (start.run.table.rows.filter (succeeded sql start.run.request s.answered)).length
  preserved : report.preserved = (start.run.table.rows.filter fun r =>
    !blank (document sql start.run.request r) && !missing sql start.run.request r).length
  skipped : report.skipped = (start.run.table.rows.filter fun r => blank (document sql start.run.request r)).length
  total : report.processed + report.preserved + report.skipped + report.failed = start.run.table.rows.length

/-- Rows with equal texts hold equal labels. -/
theorem Sound.equal (h : Sound sql start s) {p q : Row V × Row V}
    (hp : p ∈ start.run.table.rows.zip s.run.table.rows) (hq : q ∈ start.run.table.rows.zip s.run.table.rows)
    (htext : document sql s.run.request p.1 = document sql s.run.request q.1)
    (heligible : eligible sql s.run.request q.1 = true)
    (hsuccess : succeeded sql s.run.request s.answered p.1 = true) :
    cellText sql p.2 s.run.request.setup.annotation = cellText sql q.2 s.run.request.setup.annotation := by
  have hrow : ∀ {r : Row V × Row V}, r ∈ start.run.table.rows.zip s.run.table.rows →
      Labelled sql s.run.request s.answered r.1 r.2 := (List.forall₂_iff_zip.mp h.rows).2
  have hshape := start.run.table.shaped
  obtain ⟨prediction, hdecided, hlabel⟩ := (Option.any_eq_true _ _).mp hsuccess
  have hsame : decided sql s.run.request s.answered q.1 = some prediction := by
    rw [← hdecided, decided, decided, if_pos heligible, if_pos, documentText, documentText, htext]
    by_contra hnot
    rw [decided_of_not_eligible hnot] at hdecided
    cases hdecided
  cases prediction with
  | failed error => cases hlabel
  | success label =>
      refine (hrow hp).equal (hrow hq) hdecided hsame ?_
      rw [hshape _ (List.of_mem_zip hp).1, hshape _ (List.of_mem_zip hq).1]

theorem Sound.labels (h : Sound sql start s) : Labels sql start s := by
  have hmem : ∀ a ∈ s.answered, a.1 ∈ s.windows.flatten := by
    intro a ha
    rw [h.asked]
    exact h.accounted.subset (List.mem_append_left _ (List.mem_map_of_mem ha))
  refine ⟨h.columns, h.request ▸ h.rows, h.once, h.codes ▸ h.coded, hmem, ?_,
    h.request ▸ fun _ hp _ hq => h.equal hp hq, h.request ▸ fun _ => h.mem_windows⟩
  rw [h.asked]
  exact h.captured.nodup.sublist (List.take_sublist _ _)

/-- An eligible row was given a label or lost once all texts are answered. -/
theorem Sound.eligible_length (h : Sound sql start s) (hdrained : s.drained = true) :
    (start.run.table.rows.filter (eligible sql s.run.request)).length =
      (start.run.table.rows.filter (succeeded sql s.run.request s.answered)).length +
        (start.run.table.rows.filter fun r => (decided sql s.run.request s.answered r).any fun p => !p.isSuccess).length := by
  have hsplit := List.length_eq_length_filter_add (l := start.run.table.rows.filter (eligible sql s.run.request))
    (succeeded sql s.run.request s.answered)
  rw [List.filter_filter, List.filter_filter] at hsplit
  have hcongr : ∀ {p q : Row V → Bool}, (∀ r ∈ start.run.table.rows, p r = q r) →
      (start.run.table.rows.filter p).length = (start.run.table.rows.filter q).length :=
    fun hpq => congrArg List.length (List.filter_congr hpq)
  refine hsplit.trans (congrArg₂ (· + ·) (hcongr fun r hr => ?_) (hcongr fun r hr => ?_)) <;>
    rw [← h.decides hdrained hr, succeeded] <;> cases decided sql s.run.request s.answered r <;> simp

theorem Sound.accounts (h : Sound sql start s) (hdrained : s.drained = true) :
    Accounts sql start s s.run.publish.1 s.run.publish.2 := by
  have hpartition := rows_partition sql s.run.request start.run.table.rows
  have heligible := h.eligible_length hdrained
  have hcaptured : s.run.eligible = (start.run.table.rows.filter (eligible sql s.run.request)).length := by
    rw [h.captured.eligible, h.captured.captured, List.length_map]
  have hprocessed := h.processed.trans (h.count Prediction.isSuccess fun p => by
    rcases p with ⟨ref, label | error⟩ <;> rfl)
  have hfailed := h.failed.trans (h.count (fun p => !p.isSuccess) fun p => by
    rcases p with ⟨ref, label | error⟩ <;> rfl)
  have hdiagnostics : s.run.diagnostics.length = s.run.failed := by
    rw [hfailed, h.diagnostics_perm.length_eq]
    refine length_filterMap_of_isSome (fun r => ?_) _
    rw [failure]
    rcases decided sql s.run.request s.answered r with _ | label | error <;> rfl
  have hpreserved : s.run.total - s.run.eligible - s.run.skipped = (start.run.table.rows.filter fun r =>
      !blank (document sql s.run.request r) && !missing sql s.run.request r).length := by
    rw [h.captured.total, hcaptured, h.captured.skipped]
    omega
  have hsuccess : (start.run.table.rows.filter fun r => (decided sql s.run.request s.answered r).any Prediction.isSuccess) =
      start.run.table.rows.filter (succeeded sql s.run.request s.answered) := rfl
  rw [hsuccess] at hprocessed
  have hrequest := h.request
  exact {
    decided := by
      rw [← hrequest]
      intro row hrow hrow'
      refine ⟨(h.decides hdrained hrow).trans hrow', ?_⟩
      rw [(h.drained_spec hdrained).1]
      exact h.mem_inputs hrow hrow'
    failed := hdiagnostics.symm
    diagnostics := hrequest ▸ h.diagnostics_perm
    processed := hrequest ▸ hprocessed
    preserved := hrequest ▸ hpreserved
    skipped := hrequest ▸ h.captured.skipped
    total := by
      simp only [Run.publish]
      rw [hpreserved, h.captured.skipped]
      omega }

end Reports

/-- A run labels the rows it captured and no others, and its report accounts for every row. -/
theorem run_labels [DecidableEq V] {distinct : DistinctOrder} {c : Catalogue V} {request : Request} {start s : Live V}
    {events : List Event} (hstart : Live.start sql distinct c request = .ok start)
    (hidentified : Identified sql start.run.rowType start.run.table.rows)
    (hrun : exec (Live.step sql) start events = some s) :
    start.run.request = request ∧ c.table? start.run.relation = some start.run.table ∧ Labels sql start s ∧
      ∀ report diagnostics, s.outcome = some (.ok (report, diagnostics)) → Accounts sql start s report diagnostics := by
  have hsound := (Sound.start hstart hidentified).run hrun
  obtain ⟨hrequest, -, htable⟩ := start_source hstart
  refine ⟨hrequest, htable, hsound.labels, fun report diagnostics houtcome => ?_⟩
  obtain ⟨hdrained, heq⟩ := hsound.published _ houtcome
  obtain ⟨rfl, rfl⟩ := Prod.mk.inj heq
  exact hsound.accounts hdrained

end Labelling

namespace Value

open CellEdit.Value

def distinct : DistinctOrder := ⟨List.dedup, List.nodup_dedup, fun _ _ => List.mem_dedup⟩

def poems : Table CellEdit.Value where
  base := true
  columns := [("text", "VARCHAR"), ("label", "VARCHAR")]
  rows :=
    [⟨0, [("text", .text "a"), ("label", .null)]⟩, ⟨1, [("text", .text "b"), ("label", .text "old")]⟩,
      ⟨2, [("text", .text "a"), ("label", .text "old")]⟩, ⟨3, [("text", .text " "), ("label", .text "old")]⟩]
  next := 4
  shaped := by decide
  below := by decide
  distinct := by decide

def library : Catalogue CellEdit.Value :=
  ⟨[(⟨"data", "poems"⟩, poems), (⟨"data", "codes"⟩, codes)], ["poems", "codes"]⟩

def labelPoems : Request :=
  ⟨⟨⟨none, "poems"⟩, "text", "label", none, some ⟨⟨none, "codes"⟩, "code", "description"⟩⟩, ⟨"m", 1, 0, 2⟩, .all⟩

/-- The second text of a window is answered first, and the other one cannot be labelled. -/
def answers : List Event :=
  [.next, .completed 1 [.ok (.labels [.text "pro"])], .completed 0 [.ok .notJson], .next, .publish]

def labelled : List (Row CellEdit.Value) :=
  [⟨0, [("text", .text "a"), ("label", .text "pro")]⟩, ⟨1, [("text", .text "b"), ("label", .text "old")]⟩,
    ⟨2, [("text", .text "a"), ("label", .text "pro")]⟩, ⟨3, [("text", .text " "), ("label", .text "old")]⟩]

def lostPoems : Report × List (String × Error) :=
  (⟨2, 0, 1, 1⟩, [("1", ⟨"annotation_provider_invalid_response", "Annotation response was not valid JSON"⟩)])

theorem identified : Identified sql "BIGINT" poems.rows := by
  have hrefs : ∀ row ∈ poems.rows, ∃ key, sql.cast "BIGINT" (sql.text (row.key sql)) = .ok key ∧
      sql.equal (row.key sql) key = true := by
    simp only [poems, List.forall_mem_cons]
    exact ⟨⟨.bigint 0, by decide +kernel, by decide +kernel⟩, ⟨.bigint 1, by decide +kernel, by decide +kernel⟩,
      ⟨.bigint 2, by decide +kernel, by decide +kernel⟩, ⟨.bigint 3, by decide +kernel, by decide +kernel⟩, List.forall_mem_nil _⟩
  intro row hrow ref href
  exact href ▸ hrefs row hrow

theorem poems_labelled : ∃ start s, Live.start sql distinct library labelPoems = .ok start ∧
    exec (Live.step sql) start answers = some s ∧ s.run.table.rows = labelled ∧
      Accounts sql start s lostPoems.1 lostPoems.2 := by
  have hstart : ((Live.start sql distinct library labelPoems).toOption.map fun s => (s.run.rowType, s.run.table)) =
      some ("BIGINT", poems) := by decide +kernel
  obtain ⟨start, hsome, hcaptured⟩ := Option.map_eq_some_iff.mp hstart
  obtain ⟨htype, htable⟩ := Prod.mk.inj hcaptured
  have hrun : ((Live.start sql distinct library labelPoems).toOption.bind fun s =>
      (exec (Live.step sql) s answers).map fun s => (s.run.table.rows, s.outcome.bind Except.toOption)) =
        some (labelled, some lostPoems) := by decide +kernel
  rw [hsome, Option.bind_some] at hrun
  obtain ⟨s, hexec, hlabelled⟩ := Option.map_eq_some_iff.mp hrun
  obtain ⟨hrows, houtcome⟩ := Prod.mk.inj hlabelled
  obtain ⟨result, hresult, hok⟩ := Option.bind_eq_some_iff.mp houtcome
  rw [toOption_eq_some] at hsome hok
  rw [hok] at hresult
  refine ⟨start, s, hsome, hexec, hrows, ?_⟩
  exact (run_labels hsome (htype ▸ htable ▸ identified) hexec).2.2.2 _ _ hresult

end Value

end Wordflow.AnnotationRun
