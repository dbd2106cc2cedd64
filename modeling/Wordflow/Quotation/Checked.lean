import Mathlib.Data.List.Nodup
import Mathlib.Data.List.Perm.Basic
import Wordflow.Library.Fallible
import Wordflow.Quotation.Execution

namespace Wordflow.Quotation

open Library.Fallible Library.OrderedMap Objects

variable {Quote : Type} {extract : Uuid → String → Except Error (List Quote)}

section Documents

theorem mem_distinctDocuments {texts : List (Option String)} {text : String} :
    text ∈ distinctDocuments texts ↔ some text ∈ texts := by
  induction texts with
  | nil => simp [distinctDocuments]
  | cons first rest ih =>
      cases first with
      | none => simp [distinctDocuments, ih]
      | some first =>
          simp only [distinctDocuments, List.mem_cons, List.mem_filter, ih, decide_eq_true_eq, Option.some.injEq]
          by_cases h : text = first <;> simp [h]

theorem nodup_distinctDocuments {texts : List (Option String)} : (distinctDocuments texts).Nodup := by
  induction texts with
  | nil => exact List.nodup_nil
  | cons first rest ih =>
      cases first with
      | none => exact ih
      | some first =>
          refine List.nodup_cons.mpr ⟨fun h => ?_, ih.filter _⟩
          simpa using (List.mem_filter.mp h).2

theorem checked_iff {artifacts : Artifacts Quote} {text : String} :
    artifacts.checked text = true ↔ text ∈ artifacts.documents.map Prod.snd := by
  simp [Artifacts.checked]

theorem pendingDocuments_texts {artifacts : Artifacts Quote} {texts : List String} {uuid : Nat → Uuid} :
    (pendingDocuments artifacts texts uuid).map Prod.snd = texts.filter fun text => !artifacts.checked text := by
  apply List.map_snd_zip
  simp

theorem insertDocuments (completed : Completed Quote) (artifacts : Artifacts Quote) :
    completed.foldl insertDocument artifacts =
      { artifacts with
        documents := artifacts.documents ++ completed.map fun c => (c.1, c.2.1)
        matched := artifacts.matched ++ completed.flatMap fun c => c.2.2.map fun quote => (c.1, quote)
        checkpoint := { artifacts.checkpoint with progress := { artifacts.checkpoint.progress with
          checkedTexts := artifacts.checkpoint.progress.checkedTexts + completed.length } } } := by
  induction completed generalizing artifacts with
  | nil => simp
  | cons c completed ih =>
      rw [List.foldl_cons, ih]
      simp only [insertDocument, List.append_assoc, List.map_cons, List.flatMap_cons, List.length_cons,
        List.singleton_append, Nat.add_assoc, Nat.add_comm 1]

/-- The quotes stored for a document. -/
def quotesOf (matched : List (Uuid × Quote)) (id : Uuid) : List Quote :=
  (matched.filter fun m => m.1 = id).map Prod.snd

theorem quotesOf_append (before after : List (Uuid × Quote)) (id : Uuid) :
    quotesOf (before ++ after) id = quotesOf before id ++ quotesOf after id := by
  simp only [quotesOf, List.filter_append, List.map_append]

theorem quotesOf_none {matched : List (Uuid × Quote)} {id : Uuid} (h : ∀ m ∈ matched, m.1 ≠ id) :
    quotesOf matched id = [] := by
  rw [quotesOf, List.filter_eq_nil_iff.mpr fun m hm => by simpa using h m hm]
  rfl

theorem quotesOf_self (id : Uuid) (quotes : List Quote) :
    quotesOf (quotes.map fun quote => (id, quote)) id = quotes := by
  rw [quotesOf, List.filter_eq_self.mpr]
  · rw [List.map_map]
    exact List.map_id _
  · intro m hm
    obtain ⟨quote, -, rfl⟩ := List.mem_map.mp hm
    simp

theorem quotesOf_completed {completed : Completed Quote} (hnodup : (completed.map Prod.fst).Nodup)
    {c : Uuid × String × List Quote} (hc : c ∈ completed) :
    quotesOf (completed.flatMap fun c => c.2.2.map fun quote => (c.1, quote)) c.1 = c.2.2 := by
  induction completed with
  | nil => cases hc
  | cons first rest ih =>
      rw [List.map_cons, List.nodup_cons] at hnodup
      rw [List.flatMap_cons, quotesOf_append]
      rcases List.mem_cons.mp hc with rfl | hrest
      · rw [quotesOf_self, quotesOf_none, List.append_nil]
        intro m hm heq
        obtain ⟨d, hd, hm⟩ := List.mem_flatMap.mp hm
        obtain ⟨quote, -, rfl⟩ := List.mem_map.mp hm
        exact hnodup.1 (heq ▸ List.mem_map_of_mem hd)
      · rw [ih hnodup.2 hrest, quotesOf_none, List.nil_append]
        intro m hm heq
        obtain ⟨quote, -, rfl⟩ := List.mem_map.mp hm
        exact hnodup.1 (List.mem_map.mpr ⟨c, hrest, heq.symm⟩)

end Documents

section Databases

variable {db db' : Database Quote} {id other : Uuid}

theorem findAnalysis_setAnalysis {change : Analysis Quote → Analysis Quote} (hchange : ∀ a, (change a).id = a.id) :
    findAnalysis (setAnalysis db id change) other =
      if other = id then (findAnalysis db other).map change else findAnalysis db other := by
  simp only [findAnalysis, setAnalysis]
  cases db.tab with
  | none => simp
  | some tab =>
      simp only [Option.map_some, Option.bind_some]
      cases tab.analysis with
      | none => simp
      | some analysis =>
          by_cases hid : other = id
          · subst hid
            by_cases hfound : analysis.id = other
            · simp [Option.filter, hfound, hchange]
            · simp [Option.filter, hfound]
          · by_cases hfound : analysis.id = id
            · simp [Option.filter, hid, hchange, hfound, Ne.symm hid]
            · simp [hid, hfound]

theorem retained_setArtifacts {artifacts : Option (Artifacts Quote)} (hfound : (findAnalysis db id).isSome) :
    retained (setArtifacts db id artifacts) other = if other = id then artifacts else retained db other := by
  obtain ⟨analysis, hanalysis⟩ := Option.isSome_iff_exists.mp hfound
  simp only [retained, setArtifacts]
  rw [findAnalysis_setAnalysis (by intro a; rfl)]
  by_cases hid : other = id
  · rw [if_pos hid, if_pos hid, hid, hanalysis]
    rfl
  · rw [if_neg hid, if_neg hid]

theorem claim_found (h : claim db id = .ok ()) : (findAnalysis db id).isSome := by
  obtain ⟨tab, _, h⟩ := bind_eq_ok.mp h
  split at h
  · rename_i hfound
    exact Option.isSome_iff_exists.mpr ⟨_, (Option.filter_eq_some_iff.mp hfound).1⟩
  · cases h

theorem checkpoint_ok {artifacts : Option (Artifacts Quote)} (h : checkpoint db id = .ok artifacts) :
    artifacts = retained db id := by
  simp only [checkpoint] at h
  split at h
  · rename_i hretained
    obtain ⟨-, h⟩ := guard_eq_ok.mp h
    rw [hretained, Except.ok.inj h]
  · rename_i hretained
    rw [hretained, Except.ok.inj h]

theorem quotationResume_ok {modelSha256 : String} {request : DocumentInput}
    (h : quotationResume db modelSha256 request = .ok id) : (retained db id).isSome := by
  obtain ⟨tab, _, h⟩ := bind_eq_ok.mp h
  split at h
  · cases h
  · obtain ⟨found, hfound, h⟩ := bind_eq_ok.mp h
    split at h
    · cases h
    · obtain ⟨-, h⟩ := guard_eq_ok.mp h
      obtain rfl := Except.ok.inj h
      rw [← checkpoint_ok hfound]
      rfl

theorem beginAnalysisRun_ok {request : DocumentInput} (h : beginAnalysisRun db id request = .ok db') :
    (∀ other, retained db' other = none) ∧ ∀ other, (findAnalysis db' other).isSome → other = id := by
  obtain ⟨tab, _, h⟩ := bind_eq_ok.mp h
  obtain rfl := Except.ok.inj h
  refine ⟨fun other => ?_, fun other hother => ?_⟩
  · simp only [retained, findAnalysis, Option.bind_some]
    cases hfilter : Option.filter _ _ with
    | none => rfl
    | some a =>
        obtain ⟨ha, -⟩ := Option.filter_eq_some_iff.mp hfilter
        rw [← Option.some.inj ha]
        rfl
  · obtain ⟨a, ha⟩ := Option.isSome_iff_exists.mp hother
    obtain ⟨hsome, hid⟩ := Option.filter_eq_some_iff.mp ha
    have hthis := Option.some.inj hsome
    rw [← hthis] at hid
    exact (of_decide_eq_true hid).symm

theorem clearAnalysisTab_ok (h : clearAnalysisTab db = .ok db') :
    (∀ other, retained db' other = none) ∧ ∀ other, (findAnalysis db' other).isSome → (findAnalysis db other).isSome := by
  obtain ⟨tab, htab, h⟩ := bind_eq_ok.mp h
  have hdb : db.tab = some tab := by
    simp only [readTab] at htab
    split at htab
    · rename_i hdb
      rw [hdb, Except.ok.inj htab]
    · cases htab
  obtain rfl := Except.ok.inj h
  refine ⟨fun other => ?_, fun other => ?_⟩
  · simp only [retained, findAnalysis, Option.bind_some]
    cases tab.analysis with
    | none => rfl
    | some a => by_cases ha : a.id = other <;> simp [ha]
  · simp only [findAnalysis, hdb, Option.bind_some]
    cases tab.analysis with
    | none => exact id
    | some a => by_cases ha : a.id = other <;> simp [ha]

theorem publishAnalysis_ok (h : publishAnalysis db id = .ok db') :
    (∀ other, retained db' other = retained db other) ∧
      ∀ other, (findAnalysis db' other).isSome → (findAnalysis db other).isSome := by
  obtain ⟨tab, _, h⟩ := bind_eq_ok.mp h
  split at h
  · obtain rfl := Except.ok.inj h
    have hfind : ∀ other, findAnalysis (setAnalysis db id fun a => { a with finished := true }) other =
        if other = id then (findAnalysis db other).map fun a => { a with finished := true } else findAnalysis db other :=
      fun other => findAnalysis_setAnalysis fun _ => rfl
    refine ⟨fun other => ?_, fun other => ?_⟩
    · simp only [retained, hfind]
      split
      · cases findAnalysis db other <;> rfl
      · rfl
    · rw [hfind]
      split
      · rw [Option.isSome_map]
        exact fun h => h
      · exact fun h => h
  · cases h

theorem retainedOr_ok {resume : Bool} {existing : Option (Artifacts Quote)} {fresh artifacts : Artifacts Quote}
    (h : retainedOr resume existing fresh = .ok artifacts) :
    resume = true ∧ existing = some artifacts ∨ resume = false ∧ existing = none ∧ artifacts = fresh := by
  simp only [retainedOr] at h
  split at h
  · exact .inl ⟨rfl, by rw [Except.ok.inj h]⟩
  · cases h
  · exact .inr ⟨rfl, rfl, (Except.ok.inj h).symm⟩
  · cases h

theorem startQuotation_ok {modelSha256 : String} {request : DocumentInput} {resume : Bool}
    {checkpointId generation : Uuid} {uuid : Nat → Uuid} {work : Work}
    (h : startQuotation db modelSha256 id request resume checkpointId generation uuid = .ok (db', work)) :
    ∃ docs artifacts, db.source request = .ok docs ∧ (findAnalysis db id).isSome ∧
      (resume = true ∧ retained db id = some artifacts ∨ resume = false ∧ retained db id = none ∧
        artifacts = freshArtifacts modelSha256 checkpointId generation docs) ∧
      work.checkpointId = artifacts.checkpointId ∧ work.checkpoint.generation = generation ∧
      work.docs = distinctDocuments docs.texts ∧ work.todo = pendingDocuments artifacts work.docs uuid ∧
      work.offset = 0 ∧ work.checkpoint.progress = ⟨artifacts.checkpoint.progress.checkedTexts,
        artifacts.checkpoint.progress.checkedTexts + work.todo.length⟩ ∧
      db' = setArtifacts db id (some { artifacts with checkpoint := work.checkpoint }) := by
  obtain ⟨_, hclaim, h⟩ := bind_eq_ok.mp h
  obtain ⟨docs, hdocs, h⟩ := bind_eq_ok.mp h
  obtain ⟨existing, hexisting, h⟩ := bind_eq_ok.mp h
  obtain rfl := checkpoint_ok hexisting
  obtain ⟨artifacts, hartifacts, h⟩ := bind_eq_ok.mp h
  split at h
  · cases h
  · obtain ⟨rfl, rfl⟩ := Prod.mk.inj (Except.ok.inj h)
    exact ⟨docs, artifacts, hdocs, claim_found hclaim, retainedOr_ok hartifacts, rfl, rfl, rfl, rfl, rfl, rfl, rfl⟩

theorem commitQuotationBatch_ok {work next : Work} {completed : Completed Quote}
    (h : commitQuotationBatch db id work completed = .ok (db', next)) :
    ∃ artifacts, (findAnalysis db id).isSome ∧ retained db id = some artifacts ∧
      artifacts.checkpoint.generation = work.checkpoint.generation ∧
      next = { work with checkpoint := (completed.foldl insertDocument artifacts).checkpoint } ∧
      db' = setArtifacts db id (some { completed.foldl insertDocument artifacts with checkpoint :=
        if artifacts.checkpointId = work.checkpointId then next.checkpoint else artifacts.checkpoint }) := by
  obtain ⟨_, hclaim, h⟩ := bind_eq_ok.mp h
  obtain ⟨found, hfound, h⟩ := bind_eq_ok.mp h
  obtain rfl := checkpoint_ok hfound
  split at h
  · cases h
  · rename_i artifacts hretained
    obtain ⟨hgeneration, h⟩ := guard_eq_ok.mp h
    split at h
    · cases h
    · obtain ⟨rfl, rfl⟩ := Prod.mk.inj (Except.ok.inj h)
      exact ⟨artifacts, claim_found hclaim, hretained, not_not.mp hgeneration, rfl, rfl⟩

/-- A run whose generation is not the current one commits nothing. -/
theorem commitQuotationBatch_superseded {work : Work} {completed : Completed Quote}
    (h : ∀ artifacts, retained db id = some artifacts →
      artifacts.checkpoint.generation ≠ work.checkpoint.generation) :
    ∃ error, commitQuotationBatch db id work completed = .error error := by
  cases hresult : commitQuotationBatch db id work completed with
  | error error => exact ⟨error, rfl⟩
  | ok result =>
      obtain ⟨db', next⟩ := result
      obtain ⟨artifacts, -, hretained, hgeneration, -⟩ := commitQuotationBatch_ok hresult
      exact absurd hgeneration (h artifacts hretained)

theorem manifest_ok (h : manifest db id = .ok ()) : (findAnalysis db id).isSome := by
  obtain ⟨analysis, hanalysis, -⟩ := bind_eq_ok.mp h
  simp only [readAnalysis] at hanalysis
  split at hanalysis
  · rename_i hfound
    rw [hfound]
    rfl
  · cases hanalysis

end Databases

section Batches

/-- The rows of `todo` that a run has not fetched, in the order that it fetches them. -/
def unfetched (work : Work) : Batch := (work.todo.insertionSort fun a b => a.1 ≤ b.1).drop work.offset

/-- The texts that a run has still to commit. -/
def pending (run : Running Quote) : Batch :=
  unfetched run.work ++ run.jobs.flatten ++ (run.results.map Prod.fst).flatten

def exhausted (run : Running Quote) : Prop := unfetched run.work = []

theorem quotationBatch_eq (work : Work) : quotationBatch work = (unfetched work).take batchSize := rfl

theorem unfetched_fetched (work : Work) :
    unfetched work = quotationBatch work ++ unfetched { work with offset := work.offset + (quotationBatch work).length } := by
  have hdrop : unfetched { work with offset := work.offset + (quotationBatch work).length } =
      (unfetched work).drop (quotationBatch work).length := by
    rw [unfetched, unfetched, List.drop_drop]
  rw [hdrop]
  conv_lhs => rw [← List.take_append_drop batchSize (unfetched work)]
  rw [← quotationBatch_eq]
  congr 1
  rw [quotationBatch_eq, List.length_take]
  rcases Nat.le_total batchSize (unfetched work).length with hle | hle
  · rw [Nat.min_eq_left hle]
  · rw [Nat.min_eq_right hle, List.drop_eq_nil_of_le hle, List.drop_length]

theorem quotationBatch_eq_nil {work : Work} : quotationBatch work = [] ↔ unfetched work = [] := by
  simp [quotationBatch_eq, batchSize]

theorem workerCount_eq_zero {available remaining : Nat} (h : workerCount available remaining = 0) : remaining = 0 := by
  simp only [workerCount, batchSize] at h
  omega

/-- A fetch takes the batch that is next, where there is one. -/
theorem fetch_cases (run : Running Quote) :
    (run.fetch = (run, false) ∧ exhausted run) ∨
      ∃ batch, batch ≠ [] ∧ unfetched run.work = batch ++ unfetched run.fetch.1.work ∧
        run.fetch = ({ run with
          work := { run.work with offset := run.work.offset + batch.length }
          jobs := run.jobs ++ [batch]
          active := run.active + 1 }, true) := by
  cases hbatch : quotationBatch run.work with
  | nil =>
      left
      exact ⟨by simp only [Running.fetch, hbatch]; rfl, quotationBatch_eq_nil.mp hbatch⟩
  | cons d batch =>
      right
      have hfetch : run.fetch = ({ run with
          work := { run.work with offset := run.work.offset + (d :: batch).length }
          jobs := run.jobs ++ [d :: batch]
          active := run.active + 1 }, true) := by
        simp only [Running.fetch, hbatch]
        rfl
      refine ⟨d :: batch, List.cons_ne_nil _ _, ?_, hfetch⟩
      rw [hfetch, ← hbatch]
      exact unfetched_fetched run.work

theorem pending_fetch (run : Running Quote) : (pending run.fetch.1).Perm (pending run) := by
  rcases fetch_cases run with ⟨hfetch, -⟩ | ⟨batch, -, hunfetched, hfetch⟩
  · rw [hfetch]
  · simp only [pending]
    rw [hunfetched, hfetch]
    simp only [List.flatten_append, List.flatten_singleton]
    refine List.Perm.append_right _ ?_
    rw [← List.append_assoc]
    refine (List.perm_append_comm).trans ?_
    rw [← List.append_assoc]

theorem pending_extract {run : Running Quote} {index : Nat} {batch : Batch} (h : run.jobs[index]? = some batch)
    (outcome : Except Error (Completed Quote)) :
    (pending { run with jobs := run.jobs.eraseIdx index, results := run.results ++ [(batch, outcome)] }).Perm
      (pending run) := by
  obtain ⟨hlt, rfl⟩ := List.getElem?_eq_some_iff.mp h
  have hjobs : (run.jobs[index] ++ (run.jobs.eraseIdx index).flatten).Perm run.jobs.flatten :=
    (List.getElem_cons_eraseIdx_perm hlt).flatten
  simp only [pending, List.map_append, List.map_cons, List.map_nil, List.flatten_append, List.flatten_singleton]
  rw [List.append_assoc, List.append_assoc]
  refine List.Perm.append_left _ ?_
  refine (List.perm_append_comm_assoc _ _ _).trans ?_
  refine .trans ?_ (List.perm_append_comm)
  refine List.Perm.append_left _ ?_
  exact List.perm_append_comm.trans hjobs

theorem pending_receive {run : Running Quote} {batch : Batch} {outcome : Except Error (Completed Quote)}
    {rest : List (Batch × Except Error (Completed Quote))} (h : run.results = (batch, outcome) :: rest) :
    (batch ++ pending { run with results := rest }).Perm (pending run) := by
  simp only [pending, h, List.map_cons, List.flatten_cons]
  exact List.perm_append_comm_assoc _ _ _

end Batches

end Wordflow.Quotation
