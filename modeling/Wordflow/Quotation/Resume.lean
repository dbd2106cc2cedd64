import Wordflow.Quotation.Checked

namespace Wordflow.Quotation

open Library.Fallible Library.OrderedMap Library.Run Objects

variable {Quote : Type} {modelSha256 : String} {extract : Uuid → String → Except Error (List Quote)}
variable {used : List Uuid} {db db' : Database Quote} {run run' : Running Quote}

/-- What holds of the artifacts of an analysis, whoever wrote them. -/
structure Sound (extract : Uuid → String → Except Error (List Quote)) (used : List Uuid)
    (artifacts : Artifacts Quote) : Prop where
  texts : (artifacts.documents.map Prod.snd).Nodup
  ids : (artifacts.documents.map Prod.fst).Nodup
  checked : artifacts.checkpoint.progress.checkedTexts = artifacts.documents.length
  bound : artifacts.checkpoint.progress.checkedTexts ≤ artifacts.checkpoint.progress.totalTexts
  quotes : ∀ d ∈ artifacts.documents, extract d.1 d.2 = .ok (quotesOf artifacts.matched d.1)
  owned : ∀ m ∈ artifacts.matched, m.1 ∈ artifacts.documents.map Prod.fst
  drawn : ∀ d ∈ artifacts.documents, d.1 ∈ used

theorem Sound.mono {more : List Uuid} {artifacts : Artifacts Quote} (h : Sound extract used artifacts) :
    Sound extract (more ++ used) artifacts :=
  { h with drawn := fun d hd => List.mem_append_right _ (h.drawn d hd) }

theorem sound_fresh {checkpointId generation : Uuid} {docs : CapturedDocuments} :
    Sound extract used (freshArtifacts modelSha256 checkpointId generation docs) := by
  refine ⟨List.nodup_nil, List.nodup_nil, rfl, Nat.zero_le _, ?_, ?_, ?_⟩ <;> (intro d hd; cases hd)

/-- Another generation with another total. -/
theorem Sound.restart {artifacts : Artifacts Quote} (h : Sound extract used artifacts) {checkpoint : Checkpoint} {n : Nat}
    (hprogress : checkpoint.progress = ⟨artifacts.checkpoint.progress.checkedTexts,
      artifacts.checkpoint.progress.checkedTexts + n⟩) :
    Sound extract used { artifacts with checkpoint := checkpoint } :=
  ⟨h.texts, h.ids, by rw [hprogress]; exact h.checked, by rw [hprogress]; exact Nat.le_add_right _ _, h.quotes, h.owned,
    h.drawn⟩

/-- A batch of new texts, each with the quotes computed for it. -/
theorem Sound.commit {artifacts : Artifacts Quote} (h : Sound extract used artifacts) {completed : Completed Quote}
    {batch : Batch} (hbatch : (completed.map fun c => (c.1, c.2.1)) = batch)
    (hextract : ∀ c ∈ completed, extract c.1 c.2.1 = .ok c.2.2)
    (htexts : ((artifacts.documents ++ batch).map Prod.snd).Nodup)
    (hids : ((artifacts.documents ++ batch).map Prod.fst).Nodup)
    (hbound : artifacts.checkpoint.progress.checkedTexts + batch.length ≤ artifacts.checkpoint.progress.totalTexts)
    (hdrawn : ∀ d ∈ batch, d.1 ∈ used) :
    Sound extract used (completed.foldl insertDocument artifacts) := by
  have hlength : completed.length = batch.length := by rw [← hbatch, List.length_map]
  have hcompleted : completed.map Prod.fst = batch.map Prod.fst := by
    rw [← hbatch, List.map_map]
    rfl
  have hsplit : (artifacts.documents.map Prod.fst ++ completed.map Prod.fst).Nodup := by
    rwa [hcompleted, ← List.map_append]
  have hdisjoint : ∀ {id}, id ∈ artifacts.documents.map Prod.fst → id ∉ completed.map Prod.fst := fun hold hnew =>
    (List.nodup_append.mp hsplit).2.2 _ hold _ hnew rfl
  have hnew : ∀ {id}, id ∉ completed.map Prod.fst →
      quotesOf (completed.flatMap fun c => c.2.2.map fun quote => (c.1, quote)) id = [] := by
    refine fun hid => quotesOf_none fun m hm heq => hid ?_
    obtain ⟨c, hc, hm⟩ := List.mem_flatMap.mp hm
    obtain ⟨quote, -, rfl⟩ := List.mem_map.mp hm
    exact heq ▸ List.mem_map_of_mem hc
  rw [insertDocuments, hbatch, hlength]
  refine ⟨htexts, hids, ?_, hbound, fun d hd => ?_, fun m hm => ?_, fun d hd => ?_⟩
  · rw [List.length_append, ← h.checked]
  · rw [quotesOf_append]
    rcases List.mem_append.mp hd with hold | hd
    · rw [hnew (hdisjoint (List.mem_map_of_mem hold)), List.append_nil]
      exact h.quotes d hold
    · rw [← hbatch] at hd
      obtain ⟨c, hc, rfl⟩ := List.mem_map.mp hd
      rw [quotesOf_none fun m hm heq => hdisjoint (h.owned m hm) (heq ▸ List.mem_map_of_mem hc), List.nil_append,
        quotesOf_completed (List.nodup_append.mp hsplit).2.1 hc]
      exact hextract c hc
  · rw [List.map_append, List.mem_append]
    rcases List.mem_append.mp hm with hm | hm
    · exact .inl (h.owned m hm)
    · obtain ⟨c, hc, hm⟩ := List.mem_flatMap.mp hm
      obtain ⟨quote, -, rfl⟩ := List.mem_map.mp hm
      exact .inr (hcompleted ▸ List.mem_map_of_mem hc)
  · rcases List.mem_append.mp hd with hd | hd
    · exact h.drawn d hd
    · exact hdrawn d hd

/-- What a run may count on while its generation is the current one. -/
structure Continues (artifacts : Artifacts Quote) (run : Running Quote) : Prop where
  texts : ((artifacts.documents ++ pending run).map Prod.snd).Nodup
  ids : ((artifacts.documents ++ pending run).map Prod.fst).Nodup
  checkpointId : artifacts.checkpointId = run.work.checkpointId
  bound : artifacts.checkpoint.progress.checkedTexts + (pending run).length ≤ artifacts.checkpoint.progress.totalTexts

/-- What a run and the artifacts of its analysis know of each other. -/
structure Tracked (used : List Uuid) (db : Database Quote) (run : Running Quote) : Prop where
  covers : ∀ artifacts, retained db run.analysis = some artifacts → ∀ text ∈ run.work.docs,
    text ∈ artifacts.documents.map Prod.snd ∨ text ∈ (pending run).map Prod.snd
  continues : ∀ artifacts, retained db run.analysis = some artifacts →
    artifacts.checkpoint.generation = run.work.checkpoint.generation → Continues artifacts run
  generation : run.work.checkpoint.generation ∈ used
  drawn : ∀ d ∈ pending run, d.1 ∈ used

/-- Two states of a run that differ in where its batches are. -/
structure SameWork (run run' : Running Quote) : Prop where
  analysis : run'.analysis = run.analysis
  docs : run'.work.docs = run.work.docs
  checkpoint : run'.work.checkpoint = run.work.checkpoint
  checkpointId : run'.work.checkpointId = run.work.checkpointId
  pending : (pending run').Perm (pending run)

theorem Continues.same {artifacts : Artifacts Quote} (h : Continues artifacts run) (hsame : SameWork run run') :
    Continues artifacts run' := by
  have hperm : (artifacts.documents ++ pending run').Perm (artifacts.documents ++ pending run) :=
    hsame.pending.append_left _
  refine ⟨(hperm.map _).nodup_iff.mpr h.texts, (hperm.map _).nodup_iff.mpr h.ids, ?_, ?_⟩
  · rw [hsame.checkpointId, h.checkpointId]
  · rw [hsame.pending.length_eq]
    exact h.bound

theorem Tracked.same (h : Tracked used db run) (hsame : SameWork run run') : Tracked used db run' := by
  refine ⟨fun artifacts hartifacts text htext => ?_, fun artifacts hartifacts hgeneration => ?_, ?_, fun d hd => ?_⟩
  · rw [hsame.analysis] at hartifacts
    rw [hsame.docs] at htext
    exact (h.covers artifacts hartifacts text htext).imp_right (hsame.pending.map _).mem_iff.mpr
  · rw [hsame.analysis] at hartifacts
    rw [hsame.checkpoint] at hgeneration
    exact (h.continues artifacts hartifacts hgeneration).same hsame
  · rw [hsame.checkpoint]
    exact h.generation
  · exact h.drawn d (hsame.pending.mem_iff.mp hd)

/-- The artifacts of one analysis as another run may leave them. -/
structure Extends (artifacts artifacts' : Artifacts Quote) (generation : Uuid) : Prop where
  texts : ∀ text ∈ artifacts.documents.map Prod.snd, text ∈ artifacts'.documents.map Prod.snd
  generation : artifacts'.checkpoint.generation = generation → artifacts' = artifacts

theorem Tracked.other (h : Tracked used db run) {more : List Uuid}
    (hother : ∀ artifacts', retained db' run.analysis = some artifacts' →
      ∃ artifacts, retained db run.analysis = some artifacts ∧
        Extends artifacts artifacts' run.work.checkpoint.generation) : Tracked (more ++ used) db' run := by
  refine ⟨fun artifacts' hartifacts' text htext => ?_, fun artifacts' hartifacts' hgeneration => ?_,
    List.mem_append_right _ h.generation, fun d hd => List.mem_append_right _ (h.drawn d hd)⟩
  · obtain ⟨artifacts, hartifacts, hextends⟩ := hother artifacts' hartifacts'
    exact (h.covers artifacts hartifacts text htext).imp_left (hextends.texts text)
  · obtain ⟨artifacts, hartifacts, hextends⟩ := hother artifacts' hartifacts'
    obtain rfl := hextends.generation hgeneration
    exact h.continues artifacts' hartifacts hgeneration

theorem Tracked.kept (h : Tracked used db run) {more : List Uuid}
    (hkept : retained db' run.analysis = retained db run.analysis) : Tracked (more ++ used) db' run :=
  h.other fun artifacts' hartifacts' => ⟨artifacts', hkept ▸ hartifacts', fun _ h => h, fun _ => rfl⟩

theorem Tracked.dropped (h : Tracked used db run) {more : List Uuid} (hnone : retained db' run.analysis = none) :
    Tracked (more ++ used) db' run :=
  h.other fun artifacts' hartifacts' => by
    rw [hnone] at hartifacts'
    cases hartifacts'

def inFlight (run : Running Quote) : Nat := run.jobs.length + (run.results.filter fun r => !r.1.isEmpty).length

def PositionOk (run : Running Quote) : Position → Prop
  | .filling left => exhausted run ∨ run.active + left + 1 = run.workers
  | .waiting => exhausted run ∨ run.active = run.workers
  | .refilling => exhausted run ∨ run.active + 1 = run.workers
  | .saving | .publishing | .finished => pending run = []

/-- What the channels of a run hold. -/
structure Channels (extract : Uuid → String → Except Error (List Quote)) (run : Running Quote) (position : Position) :
    Prop where
  extracted : ∀ batch completed, (batch, Except.ok completed) ∈ run.results → batch ≠ [] ∧
    (completed.map fun c => (c.1, c.2.1)) = batch ∧ ∀ c ∈ completed, extract c.1 c.2.1 = .ok c.2.2
  jobs : ∀ job ∈ run.jobs, job ≠ []
  count : inFlight run ≤ run.active
  idle : run.workers = 0 → exhausted run
  progress : run.work.checkpoint.progress.checkedTexts ≤ run.work.checkpoint.progress.totalTexts
  position : PositionOk run position

theorem extractBatch_ok {interrupt : Bool} {batch : Batch} {completed : Completed Quote}
    (h : extractBatch extract interrupt batch = .ok completed) :
    (completed.map fun c => (c.1, c.2.1)) = batch ∧ ∀ c ∈ completed, extract c.1 c.2.1 = .ok c.2.2 := by
  simp only [extractBatch] at h
  split at h
  · cases h
  · have hall := mapM_eq_ok.mp h
    have hone : ∀ (d : Uuid × String) (c : Uuid × String × List Quote),
        (extract d.1 d.2).map (fun quotes => (d.1, d.2, quotes)) = .ok c →
          (c.1, c.2.1) = d ∧ extract c.1 c.2.1 = .ok c.2.2 := by
      intro d c hc
      obtain ⟨quotes, hquotes, rfl⟩ := map_eq_ok.mp hc
      exact ⟨rfl, hquotes⟩
    refine ⟨?_, fun c hc => ?_⟩
    · rw [forall₂_map_eq (k := id) hall fun d c hc => (hone d c hc).1, List.map_id]
    · obtain ⟨d, -, hdc⟩ := forall₂_mem_right hall hc
      exact (hone d c hdc).2

section Channels

variable {position : Position}

theorem exhausted_fetch (h : exhausted run) : run.fetch = (run, false) := by
  rcases fetch_cases run with ⟨hfetch, -⟩ | ⟨batch, hne, hunfetched, -⟩
  · exact hfetch
  · rw [exhausted] at h
    rw [h] at hunfetched
    exact absurd (List.append_eq_nil_iff.mp hunfetched.symm).1 hne

theorem sameWork_fetch (run : Running Quote) : SameWork run run.fetch.1 := by
  have hpending := pending_fetch run
  rcases fetch_cases run with ⟨hfetch, -⟩ | ⟨batch, -, -, hfetch⟩
  · rw [hfetch] at hpending ⊢
    exact ⟨rfl, rfl, rfl, rfl, hpending⟩
  · rw [hfetch] at hpending ⊢
    exact ⟨rfl, rfl, rfl, rfl, hpending⟩

/-- A fetch keeps the channels, wherever its thread goes. -/
theorem Channels.fetch (h : Channels extract run position) {next : Position}
    (hexhausted : exhausted run → PositionOk run next)
    (hmore : ∀ run', run.fetch = (run', true) → PositionOk run' next) : Channels extract run.fetch.1 next := by
  rcases fetch_cases run with ⟨hfetch, hnone⟩ | ⟨batch, hne, hunfetched, hfetch⟩
  · rw [hfetch]
    exact { h with position := hexhausted hnone }
  · have hposition := hmore _ hfetch
    rw [hfetch]
    refine ⟨h.extracted, fun job hjob => ?_, ?_, fun hworkers => ?_, h.progress, hposition⟩
    · rcases List.mem_append.mp hjob with hjob | hjob
      · exact h.jobs job hjob
      · rwa [List.mem_singleton.mp hjob]
    · have hcount := h.count
      simp only [inFlight, List.length_append, List.length_singleton] at hcount ⊢
      omega
    · have hidle := h.idle hworkers
      rw [exhausted] at hidle
      rw [hidle] at hunfetched
      exact absurd (List.append_eq_nil_iff.mp hunfetched.symm).1 hne

theorem PositionOk.same (h : PositionOk run position) (hwork : unfetched run'.work = unfetched run.work)
    (hactive : run'.active = run.active) (hworkers : run'.workers = run.workers)
    (hpending : (pending run').Perm (pending run)) : PositionOk run' position := by
  have hexhausted : exhausted run → exhausted run' := fun hx => by rwa [exhausted, hwork]
  cases position with
  | filling left | waiting | refilling =>
      refine Or.imp hexhausted (fun h => ?_) h
      rwa [hactive, hworkers]
  | saving | publishing | finished =>
      have hnone : pending run = [] := h
      rw [hnone] at hpending
      exact hpending.eq_nil

theorem Channels.extracting (h : Channels extract run position) {index : Nat} {batch : Batch}
    (hjob : run.jobs[index]? = some batch) {interrupt : Bool} :
    Channels extract { run with
      jobs := run.jobs.eraseIdx index
      results := run.results ++ [(batch, extractBatch extract interrupt batch)] } position := by
  obtain ⟨hlt, hget⟩ := List.getElem?_eq_some_iff.mp hjob
  have hne : batch ≠ [] := h.jobs batch (hget ▸ List.getElem_mem hlt)
  refine ⟨fun b completed hmem => ?_, fun job hmem => h.jobs job (List.mem_of_mem_eraseIdx hmem), ?_, h.idle,
    h.progress, h.position.same rfl rfl rfl (pending_extract hjob _)⟩
  · rcases List.mem_append.mp hmem with hmem | hmem
    · exact h.extracted b completed hmem
    · obtain ⟨rfl, hcompleted⟩ := Prod.mk.inj (List.mem_singleton.mp hmem)
      exact ⟨hne, extractBatch_ok hcompleted.symm⟩
  · have hcount := h.count
    have hsome : batch.isEmpty = false := List.isEmpty_eq_false_iff.mpr hne
    simp only [inFlight, List.length_eraseIdx, List.filter_append, List.filter_cons, hsome, List.length_append] at hcount ⊢
    simp only [hlt, if_true, Bool.not_false, List.filter_nil, List.length_singleton]
    omega

theorem pending_loadFailed (run : Running Quote) (error : Error) :
    pending { run with results := run.results ++ [([], .error error)] } = pending run := by
  simp [pending]

theorem Channels.loadFailed (h : Channels extract run position) (error : Error) :
    Channels extract { run with results := run.results ++ [([], .error error)] } position := by
  refine ⟨fun b completed hmem => ?_, h.jobs, ?_, h.idle, h.progress,
    h.position.same rfl rfl rfl (by rw [pending_loadFailed])⟩
  · rcases List.mem_append.mp hmem with hmem | hmem
    · exact h.extracted b completed hmem
    · cases (Prod.mk.inj (List.mem_singleton.mp hmem)).2
  · have hcount := h.count
    simpa [inFlight, List.filter_append] using hcount

/-- A run whose thread leaves its loop has committed all that it fetched, and fetched all. -/
theorem Channels.leave (h : Channels extract run .waiting) (hactive : run.active = 0) : pending run = [] := by
  have hexhausted : exhausted run := h.position.elim (fun h => h) fun heq => h.idle (by rw [← heq, hactive])
  have hcount := h.count
  simp only [inFlight, hactive] at hcount
  have hjobs : run.jobs = [] := List.length_eq_zero_iff.mp (by omega)
  have hresults : (run.results.map Prod.fst).flatten = [] := by
    rw [List.flatten_eq_nil_iff]
    intro batch hbatch
    obtain ⟨r, hr, rfl⟩ := List.mem_map.mp hbatch
    have hfilter : run.results.filter (fun r => !r.1.isEmpty) = [] := List.length_eq_zero_iff.mp (by omega)
    simpa using List.filter_eq_nil_iff.mp hfilter r hr
  rw [exhausted] at hexhausted
  rw [pending, hexhausted, hjobs, hresults]
  rfl

theorem Channels.receive (h : Channels extract run .waiting) {batch : Batch} {completed : Completed Quote}
    {rest : List (Batch × Except Error (Completed Quote))} (hresults : run.results = (batch, .ok completed) :: rest)
    (hactive : run.active ≠ 0) {checkpoint : Checkpoint}
    (hprogress : checkpoint.progress.checkedTexts ≤ checkpoint.progress.totalTexts) :
    Channels extract { run with
      work := { run.work with checkpoint := checkpoint }
      results := rest
      active := run.active - 1 } .refilling := by
  have hhead : (batch, Except.ok completed) ∈ run.results := by rw [hresults]; exact List.mem_cons_self
  have hsome : batch.isEmpty = false := List.isEmpty_eq_false_iff.mpr (h.extracted batch completed hhead).1
  refine ⟨fun b c hmem => h.extracted b c (by rw [hresults]; exact List.mem_cons_of_mem _ hmem), h.jobs, ?_, h.idle,
    hprogress, h.position.imp (fun h => h) fun heq => ?_⟩
  · have hcount := h.count
    simp only [inFlight, hresults, List.filter_cons, hsome] at hcount ⊢
    simp only [Bool.not_false, if_true, List.length_cons] at hcount
    omega
  · change run.active - 1 + 1 = run.workers
    omega

theorem channels_start {analysis : Uuid} {work : Work} {available : Nat}
    (htotal : work.checkpoint.progress.totalTexts = work.checkpoint.progress.checkedTexts + work.todo.length) :
    let workers := workerCount available (work.checkpoint.progress.totalTexts - work.checkpoint.progress.checkedTexts)
    Channels extract ⟨analysis, work, workers, [], [], 0⟩ (fill workers) := by
  intro workers
  have hidle : workers = 0 → unfetched work = [] := by
    intro hworkers
    have hnone := workerCount_eq_zero hworkers
    rw [htotal, Nat.add_sub_cancel_left, List.length_eq_zero_iff] at hnone
    simp [unfetched, hnone]
  refine ⟨fun _ _ h => (by cases h), fun _ h => (by cases h), Nat.le_refl _, hidle, by rw [htotal]; exact Nat.le_add_right _ _, ?_⟩
  cases hworkers : workers with
  | zero => exact .inl (hidle hworkers)
  | succ left => exact .inr (by change 0 + left + 1 = left + 1; rw [Nat.zero_add])

end Channels

/-- What a step of a task does to the database and to the task. -/
inductive Move (extract : Uuid → String → Except Error (List Quote)) (db : Database Quote) (task : Task Quote) :
    Phase Quote → Database Quote → Phase Quote → List Uuid → Prop
  | begun {db' : Database Quote} (analysis : Uuid) (hresume : task.resume = false)
      (hretained : ∀ other, retained db' other = none)
      (hfound : ∀ other, (findAnalysis db' other).isSome → other = analysis) :
      Move extract db task .submitted db' (.accepted analysis) [analysis]
  | resumed (analysis : Uuid) (hresume : task.resume = true) (hretained : (retained db analysis).isSome) :
      Move extract db task .submitted db (.accepted analysis) []
  | verified (analysis : Uuid) : Move extract db task (.accepted analysis) db (.verified analysis) []
  | started {db' : Database Quote} {modelSha256 : String} {checkpointId generation : Uuid} {uuid : Nat → Uuid} {work : Work}
      (analysis : Uuid) (available : Nat)
      (h : startQuotation db modelSha256 analysis task.request task.resume checkpointId generation uuid = .ok (db', work)) :
      Move extract db task (.verified analysis) db' (.running ⟨analysis, work, workerCount available
        (work.checkpoint.progress.totalTexts - work.checkpoint.progress.checkedTexts), [], [], 0⟩ (fill (workerCount available
          (work.checkpoint.progress.totalTexts - work.checkpoint.progress.checkedTexts))))
        (checkpointId :: generation :: work.todo.map Prod.fst)
  | moved {run run' : Running Quote} {position position' : Position} (hsame : SameWork run run')
      (hchannels : Channels extract run position → Channels extract run' position') :
      Move extract db task (.running run position) db (.running run' position') []
  | committed {db' : Database Quote} {run : Running Quote} {batch : Batch} {completed : Completed Quote}
      {rest : List (Batch × Except Error (Completed Quote))} {work : Work} (hactive : run.active ≠ 0)
      (hresults : run.results = (batch, .ok completed) :: rest)
      (h : commitQuotationBatch db run.analysis run.work completed = .ok (db', work)) :
      Move extract db task (.running run .waiting) db'
        (.running { run with work := work, results := rest, active := run.active - 1 } .refilling) []
  | published {db' : Database Quote} {run : Running Quote} (hretained : ∀ other, retained db' other = retained db other)
      (hfound : ∀ other, (findAnalysis db' other).isSome → (findAnalysis db other).isSome) :
      Move extract db task (.running run .publishing) db' (.running run .finished) []

theorem SameWork.refl (run : Running Quote) : SameWork run run := ⟨rfl, rfl, rfl, rfl, .refl _⟩

theorem taskStep_move {task : Task Quote} {event : TaskEvent} {phase phase' : Phase Quote}
    (h : taskStep modelSha256 extract db task event phase = some (.ok (db', phase'))) :
    Move extract db task phase db' phase' (drawn event phase') := by
  cases event with
  | begin analysis =>
      cases phase with
      | submitted =>
          obtain ⟨hresume, h⟩ := Option.ite_none_left_eq_some.mp h
          obtain ⟨_, hbegin, h⟩ := bind_eq_ok.mp (Option.some.inj h)
          obtain ⟨rfl, rfl⟩ := Prod.mk.inj (Except.ok.inj h)
          obtain ⟨hretained, hfound⟩ := beginAnalysisRun_ok hbegin
          exact .begun analysis (Bool.eq_false_iff.mpr hresume) hretained hfound
      | _ => cases h
  | resume =>
      cases phase with
      | submitted =>
          obtain ⟨hresume, h⟩ := Option.ite_none_right_eq_some.mp h
          obtain ⟨analysis, hanalysis, h⟩ := bind_eq_ok.mp (Option.some.inj h)
          obtain ⟨rfl, rfl⟩ := Prod.mk.inj (Except.ok.inj h)
          exact .resumed analysis hresume (quotationResume_ok hanalysis)
      | _ => cases h
  | verify =>
      cases phase with
      | accepted analysis =>
          simp only [taskStep] at h
          split at h
          · obtain ⟨current, _, h⟩ := bind_eq_ok.mp (Option.some.inj h)
            obtain ⟨-, h⟩ := guard_eq_ok.mp h
            obtain ⟨rfl, rfl⟩ := Prod.mk.inj (Except.ok.inj h)
            exact .verified analysis
          · obtain ⟨rfl, rfl⟩ := Prod.mk.inj (Except.ok.inj (Option.some.inj h))
            exact .verified analysis
      | _ => cases h
  | start available checkpointId generation uuid =>
      cases phase with
      | verified analysis =>
          obtain ⟨⟨_, work⟩, hstart, h⟩ := bind_eq_ok.mp (Option.some.inj h)
          obtain ⟨rfl, rfl⟩ := Prod.mk.inj (Except.ok.inj h)
          exact .started analysis available hstart
      | _ => cases h
  | fetch =>
      cases phase with
      | running run position =>
          cases position with
          | filling left =>
              obtain ⟨rfl, rfl⟩ := Prod.mk.inj (Except.ok.inj (Option.some.inj h))
              refine .moved (sameWork_fetch run) fun hchannels => hchannels.fetch (fun hx => ?_) fun run' hrun' => ?_
              · rw [exhausted_fetch hx]
                exact .inl hx
              · rw [hrun']
                have hold := hchannels.position
                rcases fetch_cases run with ⟨hfetch, -⟩ | ⟨batch, hne, hunfetched, hfetch⟩
                · rw [hfetch] at hrun'
                  cases (Prod.mk.inj hrun').2
                · have hleft : run.active + left + 1 = run.workers := hold.resolve_left fun hx => by
                    rw [exhausted_fetch hx] at hrun'
                    cases (Prod.mk.inj hrun').2
                  rw [hfetch] at hrun'
                  obtain ⟨rfl, -⟩ := Prod.mk.inj hrun'
                  cases left with
                  | zero => exact .inr hleft
                  | succ left => exact .inr (by change run.active + 1 + left + 1 = run.workers; omega)
          | refilling =>
              obtain ⟨rfl, rfl⟩ := Prod.mk.inj (Except.ok.inj (Option.some.inj h))
              refine .moved (sameWork_fetch run) fun hchannels => hchannels.fetch .inl fun run' hrun' => ?_
              have hactive : run.active + 1 = run.workers := hchannels.position.resolve_left fun hx => by
                rw [exhausted_fetch hx] at hrun'
                cases (Prod.mk.inj hrun').2
              rcases fetch_cases run with ⟨hfetch, -⟩ | ⟨batch, -, -, hfetch⟩
              · rw [hfetch] at hrun'
                cases (Prod.mk.inj hrun').2
              · rw [hfetch] at hrun'
                obtain ⟨rfl, -⟩ := Prod.mk.inj hrun'
                exact .inr hactive
          | _ => cases h
      | _ => cases h
  | extract index interrupt =>
      cases phase with
      | running run position =>
          obtain ⟨batch, hjob, h⟩ := Option.map_eq_some_iff.mp h
          obtain ⟨rfl, rfl⟩ := Prod.mk.inj (Except.ok.inj h)
          exact .moved ⟨rfl, rfl, rfl, rfl, pending_extract hjob _⟩ fun hchannels => hchannels.extracting hjob
      | _ => cases h
  | loadFailed error =>
      cases phase with
      | running run position =>
          obtain ⟨rfl, rfl⟩ := Prod.mk.inj (Except.ok.inj (Option.some.inj h))
          exact .moved ⟨rfl, rfl, rfl, rfl, by rw [pending_loadFailed]⟩ fun hchannels => hchannels.loadFailed error
      | _ => cases h
  | receive =>
      cases phase with
      | running run position =>
          cases position with
          | waiting =>
              obtain ⟨hactive, h⟩ := Option.ite_none_left_eq_some.mp h
              split at h
              · cases h
              · cases Option.some.inj h
              · rename_i hresults
                obtain ⟨⟨_, work⟩, hcommit, h⟩ := bind_eq_ok.mp (Option.some.inj h)
                obtain ⟨rfl, rfl⟩ := Prod.mk.inj (Except.ok.inj h)
                exact .committed hactive hresults hcommit
          | _ => cases h
      | _ => cases h
  | leave =>
      cases phase with
      | running run position =>
          cases position with
          | waiting =>
              obtain ⟨hactive, h⟩ := Option.ite_none_right_eq_some.mp h
              obtain ⟨rfl, rfl⟩ := Prod.mk.inj (Except.ok.inj (Option.some.inj h))
              exact .moved (.refl run) fun hchannels => { hchannels with position := hchannels.leave hactive }
          | _ => cases h
      | _ => cases h
  | manifest =>
      cases phase with
      | running run position =>
          cases position with
          | saving =>
              obtain ⟨_, _, h⟩ := bind_eq_ok.mp (Option.some.inj h)
              obtain ⟨rfl, rfl⟩ := Prod.mk.inj (Except.ok.inj h)
              exact .moved (.refl run) fun hchannels => { hchannels with position := hchannels.position }
          | _ => cases h
      | _ => cases h
  | publish =>
      cases phase with
      | running run position =>
          cases position with
          | publishing =>
              obtain ⟨_, hpublish, h⟩ := bind_eq_ok.mp (Option.some.inj h)
              obtain ⟨rfl, rfl⟩ := Prod.mk.inj (Except.ok.inj h)
              obtain ⟨hretained, hfound⟩ := publishAnalysis_ok hpublish
              exact .published hretained hfound
          | _ => cases h
      | _ => cases h
  | fail error =>
      simp only [taskStep] at h
      split at h <;> cases h

section Invariants

/-- The analysis that a task works on. -/
def Phase.analysis : Phase Quote → Option Uuid
  | .accepted analysis | .verified analysis => some analysis
  | .running run _ => some run.analysis
  | _ => none

/-- A new run that has its analysis and has written nothing yet. -/
def Phase.Awaits (phase : Phase Quote) (analysis : Uuid) : Prop :=
  phase = .accepted analysis ∨ phase = .verified analysis

theorem Phase.Awaits.analysis {phase : Phase Quote} {a : Uuid} (h : phase.Awaits a) : phase.analysis = some a := by
  rcases h with rfl | rfl <;> rfl

structure Invariant (extract : Uuid → String → Except Error (List Quote)) (s : State Quote) : Prop where
  sound : ∀ a artifacts, retained s.database a = some artifacts → Sound extract s.used artifacts
  tracked : ∀ id task run position, s.tasks.get? id = some task → task.phase = .running run position →
    Tracked s.used s.database run ∧ Channels extract run position
  distinct : ∀ id other task task' run run' position position', s.tasks.get? id = some task →
    s.tasks.get? other = some task' → task.phase = .running run position → task'.phase = .running run' position' →
      run.work.checkpoint.generation = run'.work.checkpoint.generation → id = other
  awaits : ∀ id task a, s.tasks.get? id = some task → task.resume = false → task.phase.Awaits a →
    retained s.database a = none ∧ ∀ other task', s.tasks.get? other = some task' → task'.phase.analysis = some a → other = id
  known : ∀ id task a, s.tasks.get? id = some task → task.phase.analysis = some a → a ∈ s.used
  current : ∀ a, (findAnalysis s.database a).isSome → a ∈ s.used

variable {s : State Quote} {id : Uuid} {task : Task Quote} {phase : Phase Quote} {fresh : List Uuid}

/-- What a step of a task leaves of the rest of the state. -/
structure Kept (extract : Uuid → String → Except Error (List Quote)) (s : State Quote) (id : Uuid) (db : Database Quote)
    (fresh : List Uuid) : Prop where
  sound : ∀ a artifacts, retained db a = some artifacts → Sound extract (fresh ++ s.used) artifacts
  others : ∀ other task run position, other ≠ id → s.tasks.get? other = some task → task.phase = .running run position →
    Tracked (fresh ++ s.used) db run
  awaits : ∀ other task a, other ≠ id → s.tasks.get? other = some task → task.resume = false → task.phase.Awaits a →
    retained db a = none
  current : ∀ a, (findAnalysis db a).isSome → a ∈ fresh ++ s.used

/-- What a step of a task makes of the task. -/
structure Own (extract : Uuid → String → Except Error (List Quote)) (s : State Quote) (id : Uuid) (task : Task Quote)
    (db : Database Quote) (phase : Phase Quote) (fresh : List Uuid) : Prop where
  tracked : ∀ run position, phase = .running run position →
    Tracked (fresh ++ s.used) db run ∧ Channels extract run position
  distinct : ∀ run position, phase = .running run position → ∀ other task' run' position', other ≠ id →
    s.tasks.get? other = some task' → task'.phase = .running run' position' →
      run'.work.checkpoint.generation ≠ run.work.checkpoint.generation
  awaits : ∀ a, task.resume = false → phase.Awaits a → retained db a = none ∧
    ∀ other task', other ≠ id → s.tasks.get? other = some task' → task'.phase.analysis ≠ some a
  claimed : ∀ a, phase.analysis = some a → a ∈ fresh ++ s.used ∧ ∀ other task', other ≠ id →
    s.tasks.get? other = some task' → task'.resume = false → ¬task'.phase.Awaits a

theorem Invariant.update (hs : Invariant extract s) (hkept : Kept extract s id db' fresh)
    (hown : Own extract s id task db' phase fresh) :
    Invariant extract ⟨db', s.tasks.insert id (task.enter phase), fresh ++ s.used⟩ := by
  have hlookup : ∀ {other found}, (s.tasks.insert id (task.enter phase)).get? other = some found →
      other = id ∧ found = task.enter phase ∨ other ≠ id ∧ s.tasks.get? other = some found := by
    intro other found hfound
    by_cases hid : other = id
    · rw [hid, Map.get?_insert_self] at hfound
      exact .inl ⟨hid, (Option.some.inj hfound).symm⟩
    · rw [Map.get?_insert_of_ne hid] at hfound
      exact .inr ⟨hid, hfound⟩
  refine ⟨hkept.sound, fun other found run position hfound hrun => ?_,
    fun first second found found' run run' position position' hfound hfound' hrun hrun' hsame => ?_,
    fun other found a hfound hresume hawaits => ?_, fun other found a hfound ha => ?_, hkept.current⟩
  · rcases hlookup hfound with ⟨-, rfl⟩ | ⟨hid, hfound⟩
    · exact hown.tracked run position hrun
    · exact ⟨hkept.others other found run position hid hfound hrun, (hs.tracked other found run position hfound hrun).2⟩
  · rcases hlookup hfound with ⟨hid, rfl⟩ | ⟨hid, hfound⟩ <;> rcases hlookup hfound' with ⟨hid', rfl⟩ | ⟨hid', hfound'⟩
    · rw [hid, hid']
    · exact absurd hsame.symm (hown.distinct run position hrun second found' run' position' hid' hfound' hrun')
    · exact absurd hsame (hown.distinct run' position' hrun' first found run position hid hfound hrun)
    · exact hs.distinct first second found found' run run' position position' hfound hfound' hrun hrun' hsame
  · rcases hlookup hfound with ⟨hid, rfl⟩ | ⟨hid, hfound⟩
    · obtain ⟨hnone, hothers⟩ := hown.awaits a hresume hawaits
      refine ⟨hnone, fun second found' hfound' ha => ?_⟩
      rcases hlookup hfound' with ⟨hid', -⟩ | ⟨hid', hfound'⟩
      · rw [hid, hid']
      · exact absurd ha (hothers second found' hid' hfound')
    · refine ⟨hkept.awaits other found a hid hfound hresume hawaits, fun second found' hfound' ha => ?_⟩
      rcases hlookup hfound' with ⟨-, rfl⟩ | ⟨hid', hfound'⟩
      · exact absurd hawaits ((hown.claimed a ha).2 other found hid hfound hresume)
      · exact (hs.awaits other found a hfound hresume hawaits).2 second found' hfound' ha
  · rcases hlookup hfound with ⟨-, rfl⟩ | ⟨-, hfound⟩
    · exact (hown.claimed a ha).1
    · exact List.mem_append_right _ (hs.known other found a hfound ha)

theorem kept_same (hs : Invariant extract s) (hretained : ∀ a, retained db' a = retained s.database a)
    (hfound : ∀ a, (findAnalysis db' a).isSome → (findAnalysis s.database a).isSome) : Kept extract s id db' fresh := by
  refine ⟨fun a artifacts ha => ?_, fun other found run position _ hother hrun => ?_,
    fun other found a _ hother hresume hawaits => ?_, fun a ha => List.mem_append_right _ (hs.current a (hfound a ha))⟩
  · rw [hretained] at ha
    exact (hs.sound a artifacts ha).mono
  · exact (hs.tracked other found run position hother hrun).1.kept (hretained _)
  · rw [hretained]
    exact (hs.awaits other found a hother hresume hawaits).1

theorem kept_dropped (hs : Invariant extract s) (hretained : ∀ a, retained db' a = none)
    (hfound : ∀ a, (findAnalysis db' a).isSome → a ∈ fresh ++ s.used) : Kept extract s id db' fresh := by
  refine ⟨fun a artifacts ha => ?_, fun other found run position _ hother hrun => ?_,
    fun other found a _ hother hresume hawaits => hretained a, hfound⟩
  · rw [hretained] at ha
    cases ha
  · exact (hs.tracked other found run position hother hrun).1.dropped (hretained _)

theorem kept_set (hs : Invariant extract s) {analysis : Uuid} {artifacts : Artifacts Quote}
    (htask : s.tasks.get? id = some task) (hanalysis : task.phase.analysis = some analysis)
    (hfound : (findAnalysis s.database analysis).isSome) (hsound : Sound extract (fresh ++ s.used) artifacts)
    (hothers : ∀ other found run position, other ≠ id → s.tasks.get? other = some found → found.phase = .running run position →
      run.analysis = analysis → ∃ before, retained s.database analysis = some before ∧
        Extends before artifacts run.work.checkpoint.generation) :
    Kept extract s id (setArtifacts s.database analysis (some artifacts)) fresh := by
  have hretained : ∀ a, retained (setArtifacts s.database analysis (some artifacts)) a =
      if a = analysis then some artifacts else retained s.database a := fun a => retained_setArtifacts hfound
  refine ⟨fun a art ha => ?_, fun other found run position hid hother hrun => ?_,
    fun other found a hid hother hresume hawaits => ?_, fun a ha => ?_⟩
  · rw [hretained] at ha
    split at ha
    · rwa [← Option.some.inj ha]
    · exact (hs.sound a art ha).mono
  · have htracked := (hs.tracked other found run position hother hrun).1
    by_cases ha : run.analysis = analysis
    · refine htracked.other fun artifacts' hartifacts' => ?_
      rw [hretained, if_pos ha] at hartifacts'
      obtain rfl := Option.some.inj hartifacts'
      rw [ha]
      exact hothers other found run position hid hother hrun ha
    · exact htracked.kept (by rw [hretained, if_neg ha])
  · obtain ⟨hnone, honly⟩ := hs.awaits other found a hother hresume hawaits
    have hne : a ≠ analysis := by
      rintro rfl
      exact hid (honly id task htask hanalysis).symm
    rw [hretained, if_neg hne, hnone]
  · refine List.mem_append_right _ (hs.current a ?_)
    rw [setArtifacts, findAnalysis_setAnalysis (by intro _; rfl)] at ha
    split at ha
    · rwa [Option.isSome_map] at ha
    · exact ha

theorem nodup_pending {artifacts : Artifacts Quote} {batch rest : Batch}
    (hpending : (batch ++ rest).Perm (pending run)) {β : Type} {f : Uuid × String → β}
    (hnodup : ((artifacts.documents ++ pending run).map f).Nodup) :
    ((artifacts.documents ++ batch ++ rest).map f).Nodup := by
  have hperm : (artifacts.documents ++ batch ++ rest).Perm (artifacts.documents ++ pending run) := by
    rw [List.append_assoc]
    exact hpending.append_left _
  exact (hperm.map f).nodup_iff.mpr hnodup

/-- The commit of a batch by a run whose generation is current. -/
theorem move_committed (hs : Invariant extract s) (htask : s.tasks.get? id = some task)
    (hphase : task.phase = .running run .waiting) {batch : Batch} {completed : Completed Quote}
    {rest : List (Batch × Except Error (Completed Quote))} {work : Work} (hactive : run.active ≠ 0)
    (hresults : run.results = (batch, .ok completed) :: rest)
    (h : commitQuotationBatch s.database run.analysis run.work completed = .ok (db', work)) :
    Invariant extract ⟨db', s.tasks.insert id (task.enter (.running { run with
      work := work, results := rest, active := run.active - 1 } .refilling)), [] ++ s.used⟩ := by
  obtain ⟨artifacts, hfound, hretained, hgeneration, rfl, rfl⟩ := commitQuotationBatch_ok h
  obtain ⟨htracked, hchannels⟩ := hs.tracked id task run .waiting htask hphase
  have hcontinues := htracked.continues artifacts hretained hgeneration
  have hpending := pending_receive hresults
  have hhead : (batch, Except.ok completed) ∈ run.results := by rw [hresults]; exact List.mem_cons_self
  obtain ⟨-, hbatch, hextract⟩ := hchannels.extracted batch completed hhead
  have hlength : completed.length = batch.length := by rw [← hbatch, List.length_map]
  have htexts := nodup_pending hpending hcontinues.texts
  have hids := nodup_pending hpending hcontinues.ids
  have hbound : artifacts.checkpoint.progress.checkedTexts + batch.length +
      (pending { run with results := rest }).length ≤ artifacts.checkpoint.progress.totalTexts := by
    have hall := hcontinues.bound
    rw [← hpending.length_eq, List.length_append] at hall
    omega
  have hsound := (hs.sound _ artifacts hretained).commit hbatch hextract
    (List.Nodup.of_append_left (by rwa [← List.map_append])) (List.Nodup.of_append_left (by rwa [← List.map_append]))
    (Nat.le_of_add_right_le hbound) (fun d hd => htracked.drawn d (hpending.mem_iff.mp (List.mem_append_left _ hd)))
  rw [if_pos hcontinues.checkpointId]
  refine hs.update (kept_set hs htask (by rw [hphase]; rfl) hfound hsound ?_) ⟨?_, ?_, ?_, ?_⟩
  · intro other found run' position' hid hother hrun' hanalysis
    refine ⟨artifacts, hretained, fun text htext => ?_, fun hcurrent => ?_⟩
    · rw [insertDocuments, List.map_append]
      exact List.mem_append_left _ htext
    · rw [insertDocuments] at hcurrent
      have hsame : run.work.checkpoint.generation = run'.work.checkpoint.generation := by rw [← hgeneration]; exact hcurrent
      exact absurd (hs.distinct id other task found run run' _ position' htask hother hphase hrun' hsame).symm hid
  · rintro run' position' hrun'
    obtain ⟨rfl, rfl⟩ := Phase.running.inj hrun'
    refine ⟨⟨fun art hart text htext => ?_, fun art hart hcurrent => ⟨?_, ?_, ?_, ?_⟩, ?_, fun d hd => ?_⟩, ?_⟩
    · rw [retained_setArtifacts hfound, if_pos rfl] at hart
      obtain rfl := Option.some.inj hart
      rw [insertDocuments, hbatch, List.map_append, List.mem_append]
      rcases htracked.covers artifacts hretained text htext with hold | hnew
      · exact .inl (.inl hold)
      · rw [← (hpending.map Prod.snd).mem_iff, List.map_append, List.mem_append] at hnew
        exact hnew.imp_left .inr
    · rw [retained_setArtifacts hfound, if_pos rfl] at hart
      obtain rfl := Option.some.inj hart
      rwa [insertDocuments, hbatch]
    · rw [retained_setArtifacts hfound, if_pos rfl] at hart
      obtain rfl := Option.some.inj hart
      rwa [insertDocuments, hbatch]
    · rw [retained_setArtifacts hfound, if_pos rfl] at hart
      obtain rfl := Option.some.inj hart
      rw [insertDocuments]
      exact hcontinues.checkpointId
    · rw [retained_setArtifacts hfound, if_pos rfl] at hart
      obtain rfl := Option.some.inj hart
      rw [insertDocuments, hlength]
      exact hbound
    · rw [insertDocuments]
      change artifacts.checkpoint.generation ∈ s.used
      rw [hgeneration]
      exact htracked.generation
    · exact htracked.drawn d (hpending.mem_iff.mp (List.mem_append_right _ hd))
    · exact hchannels.receive hresults hactive hsound.bound
  · rintro run' position' hrun' other found run'' position'' hid hother hrun'' hsame
    obtain ⟨rfl, rfl⟩ := Phase.running.inj hrun'
    rw [insertDocuments] at hsame
    change run''.work.checkpoint.generation = artifacts.checkpoint.generation at hsame
    exact hid (hs.distinct other id found task run'' run position'' _ hother htask hrun'' hphase (hsame.trans hgeneration))
  · intro a _ hawaits
    rcases hawaits with h | h <;> cases h
  · rintro a ha
    obtain rfl := Option.some.inj ha
    have hanalysis : task.phase.analysis = some run.analysis := by rw [hphase]; rfl
    refine ⟨hs.known id task _ htask hanalysis, fun other found hid hother hresume hawaits => ?_⟩
    exact hid ((hs.awaits other found _ hother hresume hawaits).2 id task htask hanalysis).symm

theorem perm_unfetched {work : Work} (h : work.offset = 0) : (unfetched work).Perm work.todo := by
  rw [unfetched, h, List.drop_zero]
  exact List.perm_insertionSort _ _

/-- The start of a run. -/
theorem move_started (hs : Invariant extract s) (htask : s.tasks.get? id = some task) {analysis : Uuid}
    (hphase : task.phase = .verified analysis) {checkpointId generation : Uuid} {uuid : Nat → Uuid} {work : Work}
    (available : Nat)
    (h : startQuotation s.database modelSha256 analysis task.request task.resume checkpointId generation uuid = .ok (db', work))
    (hnodup : (checkpointId :: generation :: work.todo.map Prod.fst).Nodup)
    (hfresh : ∀ u ∈ checkpointId :: generation :: work.todo.map Prod.fst, u ∉ s.used) :
    Invariant extract ⟨db', s.tasks.insert id (task.enter (.running ⟨analysis, work, workerCount available
      (work.checkpoint.progress.totalTexts - work.checkpoint.progress.checkedTexts), [], [], 0⟩ (fill (workerCount available
        (work.checkpoint.progress.totalTexts - work.checkpoint.progress.checkedTexts))))),
      checkpointId :: generation :: work.todo.map Prod.fst ++ s.used⟩ := by
  obtain ⟨docs, artifacts, -, hfound, hcase, hcheckpointId, hgeneration, hdocs, htodo, hoffset, hprogress, rfl⟩ :=
    startQuotation_ok h
  have hanalysis : task.phase.analysis = some analysis := by rw [hphase]; rfl
  have hsound : Sound extract (checkpointId :: generation :: work.todo.map Prod.fst ++ s.used) artifacts := by
    rcases hcase with ⟨-, hretained⟩ | ⟨-, -, rfl⟩
    · exact (hs.sound _ _ hretained).mono
    · exact sound_fresh
  have hold : ∀ d ∈ artifacts.documents, d.1 ∈ s.used := by
    rcases hcase with ⟨-, hretained⟩ | ⟨-, -, rfl⟩
    · exact (hs.sound _ _ hretained).drawn
    · intro d hd
      cases hd
  have htexts : work.todo.map Prod.snd = work.docs.filter fun text => !artifacts.checked text := by
    rw [htodo, pendingDocuments_texts]
  have hpending : ∀ {workers}, (pending (⟨analysis, work, workers, [], [], 0⟩ : Running Quote)).Perm work.todo := by
    intro workers
    simp only [pending, List.flatten_nil, List.map_nil, List.append_nil]
    exact perm_unfetched hoffset
  have hnew : ∀ u, u = generation ∨ u ∈ work.todo.map Prod.fst →
      u ∈ checkpointId :: generation :: work.todo.map Prod.fst := by
    rintro u (rfl | hu)
    · simp
    · simp [hu]
  refine hs.update (kept_set hs htask hanalysis hfound (hsound.restart hprogress) ?_) ⟨?_, ?_, ?_, ?_⟩
  · intro other found run' position' hid hother hrun' ha
    rcases hcase with ⟨-, hretained⟩ | ⟨hresume, -, -⟩
    · refine ⟨artifacts, hretained, fun text htext => htext, fun hcurrent => ?_⟩
      change work.checkpoint.generation = _ at hcurrent
      rw [hgeneration] at hcurrent
      have hused := (hs.tracked other found run' position' hother hrun').1.generation
      rw [← hcurrent] at hused
      exact absurd hused (hfresh generation (hnew _ (.inl rfl)))
    · have honly := (hs.awaits id task analysis htask hresume (.inr hphase)).2 other found hother (by rw [hrun', ← ha]; rfl)
      exact absurd honly hid
  · rintro run' position' hrun'
    obtain ⟨rfl, rfl⟩ := Phase.running.inj hrun'
    refine ⟨⟨fun art hart text htext => ?_, fun art hart _ => ⟨?_, ?_, ?_, ?_⟩, ?_, fun d hd => ?_⟩,
      channels_start (by rw [hprogress])⟩
    · rw [retained_setArtifacts hfound, if_pos rfl] at hart
      obtain rfl := Option.some.inj hart
      rw [(hpending.map Prod.snd).mem_iff, htexts, List.mem_filter]
      by_cases hchecked : artifacts.checked text = true
      · exact .inl (checked_iff.mp hchecked)
      · exact .inr ⟨htext, by simpa using hchecked⟩
    · rw [retained_setArtifacts hfound, if_pos rfl] at hart
      obtain rfl := Option.some.inj hart
      rw [((hpending.append_left _).map Prod.snd).nodup_iff, List.map_append, htexts]
      refine hsound.texts.append (by rw [hdocs]; exact nodup_distinctDocuments.filter _) fun text hdoc htext => ?_
      simpa [checked_iff.mpr hdoc] using (List.mem_filter.mp htext).2
    · rw [retained_setArtifacts hfound, if_pos rfl] at hart
      obtain rfl := Option.some.inj hart
      rw [((hpending.append_left _).map Prod.fst).nodup_iff, List.map_append]
      have htodoIds : (work.todo.map Prod.fst).Nodup := (List.nodup_cons.mp (List.nodup_cons.mp hnodup).2).2
      refine hsound.ids.append htodoIds fun u hdoc hu => ?_
      obtain ⟨d, hd, rfl⟩ := List.mem_map.mp hdoc
      exact hfresh d.1 (hnew _ (.inr hu)) (hold d hd)
    · rw [retained_setArtifacts hfound, if_pos rfl] at hart
      obtain rfl := Option.some.inj hart
      exact hcheckpointId.symm
    · rw [retained_setArtifacts hfound, if_pos rfl] at hart
      obtain rfl := Option.some.inj hart
      rw [hpending.length_eq]
      change work.checkpoint.progress.checkedTexts + _ ≤ work.checkpoint.progress.totalTexts
      rw [hprogress]
    · exact List.mem_append_left _ (by rw [hgeneration]; exact hnew _ (.inl rfl))
    · exact List.mem_append_left _ (hnew _ (.inr (List.mem_map_of_mem (hpending.mem_iff.mp hd))))
  · rintro run' position' hrun' other found run'' position'' hid hother hrun'' hsame
    obtain ⟨rfl, rfl⟩ := Phase.running.inj hrun'
    have hused := (hs.tracked other found run'' position'' hother hrun'').1.generation
    rw [hsame, hgeneration] at hused
    exact hfresh generation (hnew _ (.inl rfl)) hused
  · intro a _ hawaits
    rcases hawaits with h | h <;> cases h
  · rintro a ha
    obtain rfl := Option.some.inj ha
    refine ⟨List.mem_append_right _ (hs.known id task _ htask hanalysis), fun other found hid hother hresume hawaits => ?_⟩
    exact hid ((hs.awaits other found _ hother hresume hawaits).2 id task htask hanalysis).symm

theorem Invariant.move (hs : Invariant extract s) (htask : s.tasks.get? id = some task)
    (h : Move extract s.database task task.phase db' phase fresh) (hnodup : fresh.Nodup) (hfresh : ∀ u ∈ fresh, u ∉ s.used) :
    Invariant extract ⟨db', s.tasks.insert id (task.enter phase), fresh ++ s.used⟩ := by
  have hquiet : Kept extract s id s.database [] := kept_same hs (fun _ => rfl) fun _ h => h
  have hclaimed : ∀ {a}, task.phase.analysis = some a → a ∈ s.used ∧ ∀ other task', other ≠ id →
      s.tasks.get? other = some task' → task'.resume = false → ¬task'.phase.Awaits a := fun ha =>
    ⟨hs.known id task _ htask ha, fun other found hid hother hresume hawaits =>
      hid ((hs.awaits other found _ hother hresume hawaits).2 id task htask ha).symm⟩
  generalize hphase : task.phase = before at h
  cases h with
  | begun analysis hresume hretained hfound =>
      have hnew : analysis ∉ s.used := hfresh analysis (List.mem_singleton_self _)
      refine hs.update (kept_dropped hs hretained fun a ha => by rw [hfound a ha]; simp) ⟨?_, ?_, ?_, ?_⟩
      · intro run position h
        cases h
      · intro run position h
        cases h
      · intro a _ hawaits
        refine ⟨hretained a, fun other found hid hother ha => ?_⟩
        obtain rfl := Option.some.inj hawaits.analysis
        exact hnew (hs.known other found _ hother ha)
      · intro a ha
        obtain rfl := Option.some.inj ha
        exact ⟨by simp, fun other found hid hother _ hawaits => hnew (hs.known other found _ hother hawaits.analysis)⟩
  | resumed analysis hresume hretained =>
      refine hs.update hquiet ⟨?_, ?_, ?_, ?_⟩
      · intro run position h
        cases h
      · intro run position h
        cases h
      · intro a hnew
        rw [hresume] at hnew
        cases hnew
      · intro a ha
        obtain rfl := Option.some.inj ha
        have hfound : (findAnalysis s.database analysis).isSome := by
          obtain ⟨artifacts, hartifacts⟩ := Option.isSome_iff_exists.mp hretained
          obtain ⟨found, hfound, -⟩ := Option.bind_eq_some_iff.mp hartifacts
          rw [hfound]
          rfl
        refine ⟨hs.current analysis hfound, fun other found hid hother hnew hawaits => ?_⟩
        rw [(hs.awaits other found analysis hother hnew hawaits).1] at hretained
        cases hretained
  | verified analysis =>
      refine hs.update hquiet ⟨?_, ?_, ?_, ?_⟩
      · intro run position h
        cases h
      · intro run position h
        cases h
      · intro a hnew hawaits
        obtain rfl := Option.some.inj hawaits.analysis
        obtain ⟨hnone, honly⟩ := hs.awaits id task _ htask hnew (.inl hphase)
        exact ⟨hnone, fun other found hid hother ha => hid (honly other found hother ha)⟩
      · intro a ha
        exact hclaimed (by rw [hphase]; exact ha)
  | started analysis available hstart => exact move_started hs htask hphase available hstart hnodup hfresh
  | moved hsame hchannels =>
      rename_i run run' position position'
      obtain ⟨htracked, hold⟩ := hs.tracked id task run position htask hphase
      refine hs.update hquiet ⟨?_, ?_, ?_, ?_⟩
      · rintro _ _ h
        obtain ⟨rfl, rfl⟩ := Phase.running.inj h
        exact ⟨htracked.same hsame, hchannels hold⟩
      · rintro _ _ h other found run'' position'' hid hother hrun'' heq
        obtain ⟨rfl, rfl⟩ := Phase.running.inj h
        rw [hsame.checkpoint] at heq
        exact hid (hs.distinct other id found task run'' run position'' position hother htask hrun'' hphase heq)
      · intro a _ hawaits
        rcases hawaits with h | h <;> cases h
      · intro a ha
        refine hclaimed ?_
        rw [hphase, ← ha]
        exact congrArg some hsame.analysis.symm
  | committed hactive hresults hcommit => exact move_committed hs htask hphase hactive hresults hcommit
  | published hretained hfound =>
      rename_i run
      obtain ⟨htracked, hold⟩ := hs.tracked id task run _ htask hphase
      refine hs.update (kept_same hs hretained hfound) ⟨?_, ?_, ?_, ?_⟩
      · rintro _ _ h
        obtain ⟨rfl, rfl⟩ := Phase.running.inj h
        exact ⟨htracked.kept (hretained _), { hold with position := hold.position }⟩
      · rintro _ _ h other found run'' position'' hid hother hrun'' heq
        obtain ⟨rfl, rfl⟩ := Phase.running.inj h
        exact hid (hs.distinct other id found task run'' run position'' _ hother htask hrun'' hphase heq)
      · intro a _ hawaits
        rcases hawaits with h | h <;> cases h
      · intro a ha
        exact hclaimed (by rw [hphase]; exact ha)

/-- A step of a task fails, and leaves the database, or moves the task. -/
theorem step_task {event : TaskEvent} {t : State Quote} (h : step modelSha256 extract s (.task id event) = some t) :
    ∃ task, s.tasks.get? id = some task ∧
      ((∃ error, t = { s with tasks := s.tasks.insert id (task.enter (.failed error)) }) ∨
        ∃ db' phase, taskStep modelSha256 extract s.database task event task.phase = some (.ok (db', phase)) ∧
          (drawn event phase).Nodup ∧ (∀ u ∈ drawn event phase, u ∉ s.used) ∧
          t = ⟨db', s.tasks.insert id (task.enter phase), drawn event phase ++ s.used⟩) := by
  obtain ⟨task, htask, h⟩ := Option.bind_eq_some_iff.mp h
  obtain ⟨result, hresult, h⟩ := Option.bind_eq_some_iff.mp h
  refine ⟨task, htask, ?_⟩
  cases result with
  | error error => exact .inl ⟨error, (Option.some.inj h).symm⟩
  | ok result =>
      obtain ⟨db', phase⟩ := result
      obtain ⟨⟨hnodup, hfresh⟩, h⟩ := Option.ite_none_right_eq_some.mp h
      exact .inr ⟨db', phase, hresult, hnodup, hfresh, (Option.some.inj h).symm⟩

theorem own_idle (phase : Phase Quote) (hphase : phase.analysis = none) : Own extract s id task db' phase fresh := by
  refine ⟨fun run position h => ?_, fun run position h => ?_, fun a _ h => ?_, fun a h => ?_⟩
  · rw [h] at hphase
    cases hphase
  · rw [h] at hphase
    cases hphase
  · rw [h.analysis] at hphase
    cases hphase
  · rw [hphase] at h
    cases h

/-- Another database for the same tasks. -/
theorem Invariant.database (hs : Invariant extract s) (hkept : ∀ id, Kept extract s id db' []) :
    Invariant extract { s with database := db' } := by
  have hne : ∀ other : Uuid, other ≠ other + 1 := fun other => (Nat.succ_ne_self other).symm
  refine ⟨(hkept 0).sound, fun other found run position hfound hrun => ?_, hs.distinct,
    fun other found a hfound hresume hawaits => ?_, hs.known, (hkept 0).current⟩
  · exact ⟨(hkept _).others other found run position (hne other) hfound hrun,
      (hs.tracked other found run position hfound hrun).2⟩
  · exact ⟨(hkept _).awaits other found a (hne other) hfound hresume hawaits,
      (hs.awaits other found a hfound hresume hawaits).2⟩

theorem Invariant.step {event : Event} {t : State Quote} (hs : Invariant extract s)
    (h : step modelSha256 extract s event = some t) : Invariant extract t := by
  cases event with
  | submit id request resume =>
      obtain ⟨hfresh, h⟩ := Option.ite_none_left_eq_some.mp h
      obtain rfl := Option.some.inj h
      have hown : Own extract s id ⟨request, resume, .submitted⟩ s.database .submitted [id] := own_idle .submitted rfl
      exact hs.update (kept_same hs (fun _ => rfl) fun _ h => h) hown
  | task id event =>
      obtain ⟨task, htask, ⟨error, rfl⟩ | ⟨db', phase, hstep, hnodup, hfresh, rfl⟩⟩ := step_task h
      · have hown : Own extract s id task s.database (.failed error) [] := own_idle (.failed error) rfl
        exact hs.update (kept_same hs (fun _ => rfl) fun _ h => h) hown
      · exact hs.move htask (taskStep_move hstep) hnodup hfresh
  | edit source =>
      obtain rfl := Option.some.inj h
      exact hs.database fun _ => kept_same hs (fun _ => rfl) fun _ h => h
  | rename request =>
      obtain rfl := Option.some.inj h
      have hfind : ∀ a, findAnalysis { s.database with tab := s.database.tab.map fun tab =>
          { tab with analysis := tab.analysis.map fun a => { a with request := request } } } a =
          (findAnalysis s.database a).map fun a => { a with request := request } := by
        intro a
        simp only [findAnalysis]
        cases s.database.tab with
        | none => rfl
        | some tab =>
            simp only [Option.map_some, Option.bind_some]
            cases tab.analysis with
            | none => rfl
            | some found => by_cases hfound : found.id = a <;> simp [Option.filter, hfound]
      refine hs.database fun _ => kept_same hs (fun a => ?_) fun a ha => ?_
      · simp only [retained, hfind]
        cases findAnalysis s.database a <;> rfl
      · rwa [hfind, Option.isSome_map] at ha
  | clear =>
      simp only [Quotation.step] at h
      split at h
      · rename_i hclear
        obtain rfl := Option.some.inj h
        obtain ⟨hretained, hfound⟩ := clearAnalysisTab_ok hclear
        exact hs.database fun _ => kept_dropped hs hretained fun a ha => hs.current a (hfound a ha)
      · obtain rfl := Option.some.inj h
        exact hs
  | delete =>
      obtain rfl := Option.some.inj h
      exact hs.database fun _ => kept_dropped hs (fun _ => rfl) fun a ha => by cases ha
  | crash =>
      obtain rfl := Option.some.inj h
      refine ⟨hs.sound, ?_, ?_, ?_, ?_, hs.current⟩
      · intro id task run position h
        cases h
      · intro id other task task' run run' position position' h
        cases h
      · intro id task a h
        cases h
      · intro id task a h
        cases h

/-- A tab without analysis, with its sources. -/
def start (kind : String) (source : DocumentInput → Except Error CapturedDocuments) : State Quote :=
  ⟨⟨some ⟨kind, none⟩, source⟩, .empty, []⟩

theorem invariant_start {kind : String} {source : DocumentInput → Except Error CapturedDocuments} :
    Invariant extract (start kind source) := by
  refine ⟨?_, ?_, ?_, ?_, ?_, ?_⟩
  · intro a artifacts h
    cases h
  · intro id task run position h
    cases h
  · intro id other task task' run run' position position' h
    cases h
  · intro id task a h
    cases h
  · intro id task a h
    cases h
  · intro a h
    cases h

theorem run_invariant {kind : String} {source : DocumentInput → Except Error CapturedDocuments} {es : List Event}
    (h : exec (step modelSha256 extract) (start kind source) es = some s) : Invariant extract s :=
  exec_invariant (fun hI hstep => hI.step hstep) invariant_start h

end Invariants

section Runs

variable {s : State Quote} {id : Uuid}

/-- The events that take the artifacts of the tab away. -/
def Event.removes : Event → Bool
  | .clear | .delete | .task _ (.begin _) => true
  | _ => false

theorem step_retained {event : Event} {t : State Quote} {a : Uuid} (h : step modelSha256 extract s event = some t)
    (hevent : event.removes = false) (hs : (retained s.database a).isSome) : (retained t.database a).isSome := by
  have hset : ∀ {analysis artifacts}, (findAnalysis s.database analysis).isSome →
      (retained (setArtifacts s.database analysis (some artifacts)) a).isSome := by
    intro analysis artifacts hfound
    rw [retained_setArtifacts hfound]
    split
    · rfl
    · exact hs
  cases event with
  | submit id request resume =>
      obtain ⟨-, h⟩ := Option.ite_none_left_eq_some.mp h
      obtain rfl := Option.some.inj h
      exact hs
  | task id event =>
      obtain ⟨task, htask, ⟨error, rfl⟩ | ⟨db', phase, hstep, hnodup, hfresh, rfl⟩⟩ := step_task h
      · exact hs
      have hmove := taskStep_move hstep
      generalize hbefore : task.phase = before at hstep hmove
      generalize drawn event phase = fresh at hmove
      cases hmove with
      | begun analysis hresume =>
          cases event with
          | begin => cases hevent
          | resume =>
              obtain ⟨htrue, -⟩ := Option.ite_none_right_eq_some.mp hstep
              rw [hresume] at htrue
              cases htrue
          | _ => cases hstep
      | resumed | verified | moved => exact hs
      | started analysis available hstart =>
          obtain ⟨docs, artifacts, -, hfound, -, -, -, -, -, -, -, rfl⟩ := startQuotation_ok hstart
          exact hset hfound
      | committed hactive hresults hcommit =>
          obtain ⟨artifacts, hfound, -, -, -, rfl⟩ := commitQuotationBatch_ok hcommit
          exact hset hfound
      | published hretained hfound => rwa [hretained]
  | edit source =>
      obtain rfl := Option.some.inj h
      exact hs
  | rename request =>
      obtain rfl := Option.some.inj h
      simp only [retained, findAnalysis] at hs ⊢
      cases htab : s.database.tab with
      | none =>
          rw [htab] at hs
          exact hs
      | some tab =>
          rw [htab] at hs
          simp only [Option.map_some, Option.bind_some] at hs ⊢
          cases hanalysis : tab.analysis with
          | none =>
              rw [hanalysis] at hs
              exact hs
          | some found =>
              rw [hanalysis] at hs
              by_cases hfound : found.id = a
              · simpa [Option.filter, hfound] using hs
              · simp [Option.filter, hfound] at hs
  | clear | delete => cases hevent
  | crash =>
      obtain rfl := Option.some.inj h
      exact hs

/-- A task that has started, as the run goes on: it works on the texts of its
start, or has failed. -/
structure Follows (id : Uuid) (docs : List String) (analysis : Uuid) (s : State Quote) : Prop where
  used : id ∈ s.used
  task : ∀ task, s.tasks.get? id = some task → (∃ error, task.phase = .failed error) ∨
    ∃ run position, task.phase = .running run position ∧ run.work.docs = docs ∧ run.analysis = analysis

theorem step_follows {event : Event} {t : State Quote} {docs : List String} {analysis : Uuid}
    (h : step modelSha256 extract s event = some t) (hs : Follows id docs analysis s) : Follows id docs analysis t := by
  cases event with
  | submit other request resume =>
      obtain ⟨hfresh, h⟩ := Option.ite_none_left_eq_some.mp h
      obtain rfl := Option.some.inj h
      refine ⟨List.mem_cons_of_mem _ hs.used, fun task htask => hs.task task ?_⟩
      have hne : id ≠ other := by
        rintro rfl
        exact hfresh hs.used
      rwa [Map.get?_insert_of_ne hne] at htask
  | task other event =>
      obtain ⟨task, htask, ⟨error, rfl⟩ | ⟨db', phase, hstep, hnodup, hfresh, rfl⟩⟩ := step_task h
      · refine ⟨hs.used, fun found hfound => ?_⟩
        by_cases hid : id = other
        · rw [hid, Map.get?_insert_self] at hfound
          exact .inl ⟨error, by rw [← Option.some.inj hfound]; rfl⟩
        · rw [Map.get?_insert_of_ne hid] at hfound
          exact hs.task found hfound
      · refine ⟨List.mem_append_right _ hs.used, fun found hfound => ?_⟩
        by_cases hid : id = other
        · rw [hid, Map.get?_insert_self] at hfound
          obtain rfl := Option.some.inj hfound
          have hmove := taskStep_move hstep
          generalize drawn event phase = fresh at hmove
          rcases hs.task task (hid ▸ htask) with ⟨error, hfailed⟩ | ⟨run, position, hrun, hdocs, hanalysis⟩
          · rw [hfailed] at hmove
            cases hmove
          · rw [hrun] at hmove
            right
            cases hmove with
            | moved hsame => exact ⟨_, _, rfl, hsame.docs.trans hdocs, hsame.analysis.trans hanalysis⟩
            | committed hactive hresults hcommit =>
                obtain ⟨artifacts, -, -, -, rfl, -⟩ := commitQuotationBatch_ok hcommit
                exact ⟨_, _, rfl, hdocs, hanalysis⟩
            | published => exact ⟨_, _, rfl, hdocs, hanalysis⟩
        · rw [Map.get?_insert_of_ne hid] at hfound
          exact hs.task found hfound
  | edit source | rename request | delete =>
      obtain rfl := Option.some.inj h
      exact ⟨hs.used, hs.task⟩
  | clear =>
      simp only [step] at h
      split at h <;> (obtain rfl := Option.some.inj h; exact ⟨hs.used, hs.task⟩)
  | crash =>
      obtain rfl := Option.some.inj h
      exact ⟨hs.used, fun task htask => by cases htask⟩

theorem start_follows {available : Nat} {checkpointId generation : Uuid} {uuid : Nat → Uuid} {t : State Quote}
    {run : Running Quote} {position : Position} {task : Task Quote} (hused : ∀ id task, s.tasks.get? id = some task → id ∈ s.used)
    (h : step modelSha256 extract s (.task id (.start available checkpointId generation uuid)) = some t)
    (htask : t.tasks.get? id = some task) (hrun : task.phase = .running run position) :
    ∃ before docs, s.tasks.get? id = some before ∧ s.database.source before.request = .ok docs ∧
      Follows id (distinctDocuments docs.texts) run.analysis t ∧ (retained t.database run.analysis).isSome := by
  obtain ⟨before, hbefore, ⟨error, rfl⟩ | ⟨db', phase, hstep, hnodup, hfresh, rfl⟩⟩ := step_task h
  · rw [Map.get?_insert_self] at htask
    obtain rfl := Option.some.inj htask
    cases hrun
  · rw [Map.get?_insert_self] at htask
    obtain rfl := Option.some.inj htask
    obtain rfl : phase = .running run position := hrun
    cases hphase : before.phase with
    | verified analysis =>
        rw [hphase] at hstep
        obtain ⟨⟨_, work⟩, hstart, hstep⟩ := bind_eq_ok.mp (Option.some.inj hstep)
        obtain ⟨rfl, hrunning⟩ := Prod.mk.inj (Except.ok.inj hstep)
        obtain ⟨rfl, -⟩ := Phase.running.inj hrunning
        obtain ⟨docs, artifacts, hdocs, hfound, -, -, -, hwork, -, -, -, rfl⟩ := startQuotation_ok hstart
        refine ⟨before, docs, hbefore, hdocs, ⟨List.mem_append_right _ (hused id before hbefore), fun found hfound => ?_⟩, ?_⟩
        · rw [Map.get?_insert_self] at hfound
          obtain rfl := Option.some.inj hfound
          exact .inr ⟨_, _, rfl, hwork, rfl⟩
        · change (retained (setArtifacts s.database analysis _) analysis).isSome
          rw [retained_setArtifacts hfound, if_pos rfl]
          rfl
    | _ =>
        rw [hphase] at hstep
        cases hstep

theorem step_used {event : Event} {t : State Quote} (h : step modelSha256 extract s event = some t)
    (hs : ∀ id task, s.tasks.get? id = some task → id ∈ s.used) : ∀ id task, t.tasks.get? id = some task → id ∈ t.used := by
  cases event with
  | submit other request resume =>
      obtain ⟨-, h⟩ := Option.ite_none_left_eq_some.mp h
      obtain rfl := Option.some.inj h
      intro id task htask
      by_cases hid : id = other
      · exact hid ▸ List.mem_cons_self
      · rw [Map.get?_insert_of_ne hid] at htask
        exact List.mem_cons_of_mem _ (hs id task htask)
  | task other event =>
      obtain ⟨found, hfound, ⟨error, rfl⟩ | ⟨db', phase, -, -, -, rfl⟩⟩ := step_task h
      · intro id task htask
        by_cases hid : id = other
        · exact hs id found (hid ▸ hfound)
        · rw [Map.get?_insert_of_ne hid] at htask
          exact hs id task htask
      · intro id task htask
        refine List.mem_append_right _ ?_
        by_cases hid : id = other
        · exact hs id found (hid ▸ hfound)
        · rw [Map.get?_insert_of_ne hid] at htask
          exact hs id task htask
  | edit source | rename request | delete =>
      obtain rfl := Option.some.inj h
      exact hs
  | clear =>
      simp only [step] at h
      split at h <;> (obtain rfl := Option.some.inj h; exact hs)
  | crash =>
      obtain rfl := Option.some.inj h
      intro id task htask
      cases htask

/-- A step of a task that fails leaves the database. -/
theorem failed_unchanged {event : TaskEvent} {t : State Quote} {task : Task Quote} {error : Error}
    (h : step modelSha256 extract s (.task id event) = some t) (htask : t.tasks.get? id = some task)
    (hfailed : task.phase = .failed error) : t.database = s.database := by
  obtain ⟨⟨_, _, before⟩, -, ⟨_, rfl⟩ | ⟨db', phase, hstep, -, -, rfl⟩⟩ := step_task h
  · rfl
  · rw [Map.get?_insert_self] at htask
    obtain rfl := Option.some.inj htask
    obtain rfl : phase = .failed error := hfailed
    have hmove := taskStep_move hstep
    generalize drawn event (.failed error) = fresh at hmove
    cases hmove

/-- A batch that failed, and one of a superseded generation, ends its run. -/
theorem receive_refused {t : State Quote} {task : Task Quote} {run : Running Quote} (htask : s.tasks.get? id = some task)
    (hrun : task.phase = .running run .waiting) (h : step modelSha256 extract s (.task id .receive) = some t)
    (hrefused : (∃ batch error rest, run.results = (batch, .error error) :: rest) ∨
      ∀ artifacts, retained s.database run.analysis = some artifacts →
        artifacts.checkpoint.generation ≠ run.work.checkpoint.generation) :
    t.database = s.database ∧ ∃ task' error, t.tasks.get? id = some task' ∧ task'.phase = .failed error := by
  obtain ⟨found, hfound, ⟨error, rfl⟩ | ⟨db', phase, hstep, -, -, rfl⟩⟩ := step_task h
  · exact ⟨rfl, _, error, Map.get?_insert_self, rfl⟩
  · rw [htask] at hfound
    obtain rfl := Option.some.inj hfound
    have hmove := taskStep_move hstep
    rw [hrun] at hstep
    obtain ⟨-, hstep⟩ := Option.ite_none_left_eq_some.mp hstep
    split at hstep
    · cases hstep
    · cases Option.some.inj hstep
    · rename_i hresults
      rcases hrefused with ⟨batch, error, rest, hfailed⟩ | hsuperseded
      · rw [hfailed] at hresults
        cases hresults
      · obtain ⟨error, hrefused⟩ := commitQuotationBatch_superseded hsuperseded
        obtain ⟨⟨_, _⟩, hcommit, -⟩ := bind_eq_ok.mp (Option.some.inj hstep)
        rw [hrefused] at hcommit
        cases hcommit

/-- What a run that has finished has checked, seen from its start. -/
theorem finished_checked {kind : String} {source : DocumentInput → Except Error CapturedDocuments}
    {before after : List Event} {u : State Quote} {available : Nat} {checkpointId generation : Uuid} {uuid : Nat → Uuid}
    (hu : exec (step modelSha256 extract) (start kind source) before = some u)
    (h : exec (step modelSha256 extract) u
      (.task id (.start available checkpointId generation uuid) :: after) = some s)
    {task : Task Quote} {run : Running Quote} (htask : s.tasks.get? id = some task)
    (hrun : task.phase = .running run .finished) :
    ∃ started docs, u.tasks.get? id = some started ∧ u.database.source started.request = .ok docs ∧
      (∀ artifacts, retained s.database run.analysis = some artifacts → ∀ text, some text ∈ docs.texts →
        (artifacts.documents.map Prod.snd).count text = 1) ∧
      ((∀ e ∈ after, e.removes = false) → (retained s.database run.analysis).isSome) := by
  obtain ⟨v, hv, hafter⟩ := exec_cons.mp h
  have hused := exec_invariant (I := fun u => ∀ id task, u.tasks.get? id = some task → id ∈ u.used)
    (fun hI hstep => step_used hstep hI) (fun _ _ h => by cases h) hu
  have hs : Invariant extract s := exec_invariant (fun hI hstep => hI.step hstep) ((run_invariant hu).step hv) hafter
  have hfollows : ∀ {docs analysis}, Follows id docs analysis v → run.work.docs = docs ∧ run.analysis = analysis := by
    intro docs analysis hv
    have hend : Follows id docs analysis s := exec_invariant (fun hI hstep => step_follows hstep hI) hv hafter
    rcases hend.task task htask with ⟨error, hfailed⟩ | ⟨run', position', hrun', hdocs, hanalysis⟩
    · rw [hrun] at hfailed
      cases hfailed
    · rw [hrun] at hrun'
      obtain ⟨rfl, -⟩ := Phase.running.inj hrun'
      exact ⟨hdocs, hanalysis⟩
  obtain ⟨found, hfound, ⟨error, rfl⟩ | ⟨db', phase, hstep, -, -, rfl⟩⟩ := step_task hv
  · -- a start that fails is not the start of a run that finishes
    have hfailed : Follows id [] (run.analysis + 1)
        { u with tasks := u.tasks.insert id (found.enter (.failed error)) } := by
      refine ⟨hused id found hfound, fun task' htask' => ?_⟩
      rw [Map.get?_insert_self] at htask'
      exact .inl ⟨error, by rw [← Option.some.inj htask']; rfl⟩
    exact absurd (hfollows hfailed).2 (Nat.succ_ne_self _).symm
  · have hmove := taskStep_move hstep
    cases hphase : found.phase with
    | verified analysis =>
        rw [hphase] at hmove
        generalize hdrawn : drawn _ phase = fresh at hmove hv hfollows hafter
        cases hmove with
        | started _ _ _ =>
            obtain ⟨started, docs, hstarted, hdocs, hv', hkept⟩ := start_follows hused hv Map.get?_insert_self rfl
            obtain ⟨hrundocs, hanalysis⟩ := hfollows hv'
            refine ⟨started, docs, hstarted, hdocs, fun artifacts hartifacts text htext => ?_, fun hafter' => ?_⟩
            · obtain ⟨htracked, hchannels⟩ := hs.tracked id task run _ htask hrun
              have hnone : pending run = [] := hchannels.position
              have hmem := htracked.covers artifacts hartifacts text (by rw [hrundocs]; exact mem_distinctDocuments.mpr htext)
              rw [hnone, List.map_nil] at hmem
              exact List.count_eq_one_of_mem (hs.sound _ _ hartifacts).texts (hmem.resolve_right List.not_mem_nil)
            · rw [hanalysis]
              exact exec_preserves (I := fun w => (retained w.database _).isSome) (G := fun e => e.removes = false)
                (fun hI hG hstep => step_retained hstep hG hI) hkept hafter' hafter
    | _ =>
        rw [hphase] at hstep
        cases hstep

/-- Extraction stopped and resumed at will loses, doubles and mixes no text. -/
theorem quotation_checked {kind : String} {source : DocumentInput → Except Error CapturedDocuments} {es : List Event}
    (h : exec (step modelSha256 extract) (start kind source) es = some s) :
    (∀ a artifacts, retained s.database a = some artifacts →
      (artifacts.documents.map Prod.snd).Nodup ∧
      (∀ d ∈ artifacts.documents, extract d.1 d.2 = .ok (quotesOf artifacts.matched d.1)) ∧
      (∀ m ∈ artifacts.matched, m.1 ∈ artifacts.documents.map Prod.fst) ∧
      artifacts.checkpoint.progress.checkedTexts = artifacts.documents.length ∧
      artifacts.checkpoint.progress.checkedTexts ≤ artifacts.checkpoint.progress.totalTexts) ∧
    (∀ id task run position, s.tasks.get? id = some task → task.phase = .running run position →
      run.work.checkpoint.progress.checkedTexts ≤ run.work.checkpoint.progress.totalTexts) ∧
    (∀ id event t task error, step modelSha256 extract s (.task id event) = some t → t.tasks.get? id = some task →
      task.phase = .failed error → t.database = s.database) ∧
    (∀ id t task run, s.tasks.get? id = some task → task.phase = .running run .waiting →
      step modelSha256 extract s (.task id .receive) = some t →
      ((∃ batch error rest, run.results = (batch, .error error) :: rest) ∨
        ∀ artifacts, retained s.database run.analysis = some artifacts →
          artifacts.checkpoint.generation ≠ run.work.checkpoint.generation) →
      t.database = s.database ∧ ∃ task' error, t.tasks.get? id = some task' ∧ task'.phase = .failed error) ∧
    ∀ id available checkpointId generation uuid before after u task run,
      es = before ++ .task id (.start available checkpointId generation uuid) :: after →
      exec (step modelSha256 extract) (start kind source) before = some u →
      s.tasks.get? id = some task → task.phase = .running run .finished →
      ∃ started docs, u.tasks.get? id = some started ∧ u.database.source started.request = .ok docs ∧
        (∀ artifacts, retained s.database run.analysis = some artifacts → ∀ text, some text ∈ docs.texts →
          (artifacts.documents.map Prod.snd).count text = 1) ∧
        ((∀ e ∈ after, e.removes = false) → (retained s.database run.analysis).isSome) := by
  have hs : Invariant extract s := run_invariant h
  refine ⟨fun a artifacts ha => ?_, fun id task run position htask hrun => ?_,
    fun id event t task error hstep htask hfailed => failed_unchanged hstep htask hfailed,
    fun id t task run htask hrun hstep hrefused => receive_refused htask hrun hstep hrefused, ?_⟩
  · have hsound := hs.sound a artifacts ha
    exact ⟨hsound.texts, hsound.quotes, hsound.owned, hsound.checked, hsound.bound⟩
  · exact (hs.tracked id task run position htask hrun).2.progress
  · rintro id available checkpointId generation uuid before after u task run rfl hu htask hrun
    obtain ⟨u', hu', hrest⟩ := exec_append.mp h
    rw [hu] at hu'
    obtain rfl := Option.some.inj hu'
    exact finished_checked hu hrest htask hrun

end Runs

/-- A source by its rows. -/
def rowsOf (rows : List (Option String)) (_ : DocumentInput) : Except Error CapturedDocuments := .ok ⟨"text", rows⟩

def firstRows : List (Option String) :=
  [some "a", some "b", none, some "a", some "c", some "d", some "e", some "f", some "g", some "h", some "i"]

def textInput : DocumentInput := ⟨⟨none, "docs"⟩, "text"⟩

/-- A run that a crash stops after its first batch, with the other at work. -/
def stopped : List Event :=
  [.submit 1 textInput false] ++ ([.begin 100, .verify, .start 2 101 102 (200 + ·), .fetch, .fetch, .extract 1 false,
    .extract 0 false, .receive].map (.task 1)) ++ [.crash]

/-- The run that takes it up again, over an edited source. -/
def resumed : List Event :=
  [.edit (rowsOf [some "j", some "b", some "c", none]), .submit 2 textInput true] ++
    ([.resume, .verify, .start 4 103 104 (300 + ·), .fetch, .extract 0 false, .receive, .fetch, .leave, .manifest,
      .publish].map (.task 2))

/-- One quote for each text, of the text itself. -/
def quoteAll (_ : Uuid) (text : String) : Except Error (List String) := .ok [text]

def stored (s : State String) : Option (List (Uuid × String) × List (Uuid × String) × Nat × Nat) :=
  (retained s.database 100).map fun artifacts => (artifacts.documents, artifacts.matched,
    artifacts.checkpoint.progress.checkedTexts, artifacts.checkpoint.progress.totalTexts)

theorem resumed_checked : ∃ s artifacts, exec (step "model" quoteAll) (start "quotation" (rowsOf firstRows)) (stopped ++ resumed) =
    some s ∧ retained s.database 100 = some artifacts ∧
    stored s = some ([(208, "i"), (300, "j"), (301, "b"), (302, "c")], [(208, "i"), (300, "j"), (301, "b"), (302, "c")], 4, 4) ∧
    (artifacts.documents.map Prod.snd).Nodup ∧
    (∀ d ∈ artifacts.documents, quoteAll d.1 d.2 = .ok (quotesOf artifacts.matched d.1)) ∧
    artifacts.checkpoint.progress.checkedTexts = artifacts.documents.length := by
  have hstored : (exec (step "model" quoteAll) (start "quotation" (rowsOf firstRows)) (stopped ++ resumed)).bind stored =
      some ([(208, "i"), (300, "j"), (301, "b"), (302, "c")], [(208, "i"), (300, "j"), (301, "b"), (302, "c")], 4, 4) := by
    decide +kernel
  obtain ⟨s, hrun, hs⟩ := Option.bind_eq_some_iff.mp hstored
  obtain ⟨artifacts, hartifacts, -⟩ := Option.map_eq_some_iff.mp hs
  obtain ⟨htexts, hquotes, -, hchecked, -⟩ := (quotation_checked hrun).1 100 artifacts hartifacts
  exact ⟨s, artifacts, hrun, hartifacts, hs, htexts, hquotes, hchecked⟩

end Wordflow.Quotation
