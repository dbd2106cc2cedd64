import Mathlib.Data.List.Nodup
import Wordflow.Tasks.Board

namespace Wordflow.Tasks

open Library.Run Objects

/-- The moves of a task's state. -/
inductive Moves : TaskState → TaskState → Prop
  | stay (s : TaskState) : Moves s s
  | start : Moves .queued .running
  | cancel {s : TaskState} (h : s = .queued ∨ s = .running) : Moves s .cancelling
  | finish {s t : TaskState} (hs : s.isFinished = false) (ht : t.isFinished = true) : Moves s t

theorem Moves.of_finished {s t : TaskState} (h : Moves s t) (hs : s.isFinished = true) : t = s := by
  cases h with
  | stay => rfl
  | start => cases hs
  | cancel h => rcases h with rfl | rfl <;> cases hs
  | finish hopen => rw [hs] at hopen; cases hopen

def ids (b : Board) : List Id := b.entries.map fun e => e.summary.id

section Publish

variable {b c : Board} {raw : List Entry}

theorem retain_sublist (entries : List Entry) : ∀ n, (retain n entries).Sublist entries := by
  induction entries with
  | nil => exact fun _ => .slnil
  | cons e rest ih =>
      intro n
      simp only [retain]
      generalize (if e.summary.state.isFinished = true then n + 1 else n) = m
      split
      · exact (ih _).cons_cons e
      · exact (ih _).cons e

theorem publish_sublist (b : Board) : (publish b).entries.Sublist (b.entries.insertionSort Entry.before) :=
  retain_sublist _ 0

theorem mem_publish {e : Entry} (h : e ∈ (publish b).entries) : e ∈ b.entries :=
  (List.perm_insertionSort Entry.before b.entries).subset ((publish_sublist b).subset h)

theorem publish_nodup (h : (ids b).Nodup) : (ids (publish b)).Nodup := by
  have hperm := (List.perm_insertionSort Entry.before b.entries).map fun e => e.summary.id
  exact (hperm.nodup_iff.mpr h).sublist ((publish_sublist b).map _)

theorem mem_ids_publish {id : Id} (h : id ∈ ids (publish b)) : id ∈ ids b := by
  obtain ⟨e, he, rfl⟩ := List.mem_map.mp h
  exact List.mem_map_of_mem (mem_publish he)

@[simp] theorem publish_changes (b : Board) :
    (publish b).changes = ⟨b.changes.revision + 1, (publish b).entries.map Entry.summary⟩ := rfl

@[simp] theorem publish_executions (b : Board) : (publish b).executions = b.executions := rfl

@[simp] theorem phase?_publish (b : Board) (id : Id) : phase? (publish b) id = phase? b id := rfl

end Publish

@[simp] theorem queuedTask_id (id : Id) (label : String) (tabId : Option Id) (now : Nat) :
    (queuedTask id label tabId now).id = id := rfl

@[simp] theorem queuedTask_tabId (id : Id) (label : String) (tabId : Option Id) (now : Nat) :
    (queuedTask id label tabId now).tabId = tabId := rfl

@[simp] theorem queuedTask_state (id : Id) (label : String) (tabId : Option Id) (now : Nat) :
    (queuedTask id label tabId now).state = .queued := rfl

/-- What an entry keeps while its task is not completed. -/
structure Kept (e f : Entry) : Prop where
  id : f.summary.id = e.summary.id
  tabId : f.summary.tabId = e.summary.tabId
  moves : Moves e.summary.state f.summary.state
  finished : f.summary.state.isFinished = e.summary.state.isFinished
  finishedAt : f.summary.finishedAt = e.summary.finishedAt

theorem Kept.refl (e : Entry) : Kept e e := ⟨rfl, rfl, .stay _, rfl, rfl⟩

/-- Entries that all come from entries of the board, in its order. -/
structure KeptFrom (b : Board) (raw : List Entry) : Prop where
  ids : (raw.map fun e => e.summary.id).Sublist (ids b)
  entries : ∀ f ∈ raw, ∃ e ∈ b.entries, Kept e f

section Kept

variable {b : Board} {id : Id} {change : TaskSummary → TaskSummary}

theorem keptFrom_filter (p : Entry → Bool) : KeptFrom b (b.entries.filter p) :=
  ⟨List.filter_sublist.map _, fun f hf => ⟨f, (List.mem_filter.mp hf).1, .refl f⟩⟩

theorem keptFrom_map {g : Entry → Entry} (h : ∀ e ∈ b.entries, Kept e (g e)) : KeptFrom b (b.entries.map g) where
  ids := by
    have hids : (b.entries.map g).map (fun e => e.summary.id) = ids b := by
      rw [List.map_map]
      apply List.map_congr_left
      intro e he
      exact (h e he).id
    rw [hids]
  entries f hf := by
    obtain ⟨e, he, rfl⟩ := List.mem_map.mp hf
    exact ⟨e, he, h e he⟩

/-- Ids are distinct, so that an update changes the one entry with its id. -/
theorem modifyEntry_eq_map {entries : List Entry} (h : (entries.map fun e => e.summary.id).Nodup) :
    modifyEntry id change entries =
      entries.map fun e => if e.summary.id = id then { e with summary := change e.summary } else e := by
  induction entries with
  | nil => rfl
  | cons e rest ih =>
      rw [List.map_cons, List.nodup_cons] at h
      rw [modifyEntry, List.map_cons, ← ih h.2]
      split
      · rename_i hid
        have hrest : modifyEntry id change rest = rest.map fun e => e := by
          rw [ih h.2]
          apply List.map_congr_left
          intro f hf
          refine if_neg fun hfid => h.1 ?_
          rw [hid, ← hfid]
          exact List.mem_map_of_mem hf
        rw [hrest, List.map_id']
      · rfl

theorem keptFrom_modify (hdistinct : (ids b).Nodup)
    (h : ∀ e ∈ b.entries, e.summary.id = id → Kept e { e with summary := change e.summary }) :
    KeptFrom b (modifyEntry id change b.entries) := by
  rw [modifyEntry_eq_map hdistinct]
  refine keptFrom_map fun e he => ?_
  split
  · rename_i hid
    exact h e he hid
  · exact .refl e

end Kept

/-- What holds of the board at every moment. -/
structure Invariant (b : Board) : Prop where
  distinct : (ids b).Nodup
  executed : ∀ e ∈ b.entries, ∃ phase, phase? b e.summary.id = some phase ∧
    (e.summary.state.isFinished = true ↔ phase = .completed)
  exclusive : ∀ e ∈ b.entries, ∀ f ∈ b.entries, e.summary.tabId.isSome → e.summary.tabId = f.summary.tabId →
    e.summary.state.isFinished = false → f.summary.state.isFinished = false → e = f
  finishedAt : ∀ e ∈ b.entries, e.summary.finishedAt.isSome = e.summary.state.isFinished
  published : b.changes.tasks = b.entries.map Entry.summary

theorem invariant_new : Invariant new := by
  constructor <;> simp [new, ids]

/-- What one step does to the board. -/
structure Advances (b c : Board) : Prop where
  moves : ∀ e ∈ b.entries, ∀ f ∈ c.entries, f.summary.id = e.summary.id → Moves e.summary.state f.summary.state
  accepted : ∀ id, (phase? b id).isSome → (phase? c id).isSome
  gone : ∀ id, (phase? b id).isSome → id ∈ ids c → id ∈ ids b
  revision : c.changes = b.changes ∨ c.changes.revision = b.changes.revision + 1

section Step

variable {b c : Board} {raw : List Entry}

theorem Invariant.unique (hb : Invariant b) {e f : Entry} (he : e ∈ b.entries) (hf : f ∈ b.entries)
    (hid : e.summary.id = f.summary.id) : e = f :=
  List.inj_on_of_nodup_map hb.distinct he hf hid

theorem Advances.refl (hb : Invariant b) (hphase : ∀ id, (phase? b id).isSome → (phase? c id).isSome)
    (hentries : c.entries = b.entries) (hchanges : c.changes = b.changes) : Advances b c where
  moves e he f hf hid := by
    rw [hentries] at hf
    obtain rfl := hb.unique hf he hid
    exact .stay _
  accepted := hphase
  gone id _ hid := by
    rwa [ids, hentries] at hid
  revision := .inl hchanges

/-- How an entry after a step comes from one before it. -/
structure Origin (c : Board) (e f : Entry) : Prop where
  id : f.summary.id = e.summary.id
  tabId : f.summary.tabId = e.summary.tabId
  moves : Moves e.summary.state f.summary.state
  executed : ∃ phase, phase? c f.summary.id = some phase ∧ (f.summary.state.isFinished = true ↔ phase = .completed)
  open_of_open : f.summary.state.isFinished = false → e.summary.state.isFinished = false
  finishedAt : f.summary.finishedAt.isSome = f.summary.state.isFinished

/-- Publishing entries that come from the board is a step. -/
theorem Invariant.publish_origin (hb : Invariant b)
    (hids : (c.entries.map fun e => e.summary.id).Sublist (ids b))
    (horigin : ∀ f ∈ c.entries, ∃ e ∈ b.entries, Origin c e f)
    (hrevision : c.changes.revision = b.changes.revision)
    (haccepted : ∀ id, (phase? b id).isSome → (phase? c id).isSome) :
    Invariant (publish c) ∧ Advances b (publish c) := by
  have hnodup : (ids (publish c)).Nodup := publish_nodup (hb.distinct.sublist hids)
  refine ⟨⟨hnodup, fun f hf => ?_, fun e he f hf htab hsame heopen hfopen => ?_, fun f hf => ?_, rfl⟩,
    fun e he f hf hid => ?_, haccepted, fun id _ hid => ?_, .inr ?_⟩
  · obtain ⟨e, -, hfrom⟩ := horigin f (mem_publish hf)
    exact hfrom.executed
  · obtain ⟨e₀, he₀, hfrome⟩ := horigin e (mem_publish he)
    obtain ⟨f₀, hf₀, hfromf⟩ := horigin f (mem_publish hf)
    rw [hfrome.tabId] at htab hsame
    rw [hfromf.tabId] at hsame
    obtain rfl := hb.exclusive e₀ he₀ f₀ hf₀ htab hsame (hfrome.open_of_open heopen) (hfromf.open_of_open hfopen)
    exact List.inj_on_of_nodup_map hnodup he hf (hfrome.id.trans hfromf.id.symm)
  · obtain ⟨e, -, hfrom⟩ := horigin f (mem_publish hf)
    exact hfrom.finishedAt
  · obtain ⟨e₀, he₀, hfrom⟩ := horigin f (mem_publish hf)
    obtain rfl := hb.unique he₀ he (hfrom.id.symm.trans hid)
    exact hfrom.moves
  · exact hids.subset (mem_ids_publish hid)
  · rw [publish_changes, hrevision]

/-- Publishing entries kept from the board is a step. -/
theorem Invariant.publish_kept (hb : Invariant b) (hraw : KeptFrom b c.entries)
    (hrevision : c.changes.revision = b.changes.revision)
    (hphase : ∀ id phase, phase? b id = some phase →
      ∃ phase', phase? c id = some phase' ∧ (phase' = .completed ↔ phase = .completed)) :
    Invariant (publish c) ∧ Advances b (publish c) := by
  refine hb.publish_origin hraw.ids (fun f hf => ?_) hrevision fun id hid => ?_
  · obtain ⟨e, he, hkept⟩ := hraw.entries f hf
    obtain ⟨phase, hp, hfinished⟩ := hb.executed e he
    obtain ⟨phase', hp', hcompleted⟩ := hphase _ _ hp
    refine ⟨e, he, hkept.id, hkept.tabId, hkept.moves, ⟨phase', ?_, ?_⟩, fun h => hkept.finished.symm.trans h, ?_⟩
    · rw [hkept.id, hp']
    · rw [hkept.finished, hfinished, hcompleted]
    · rw [hkept.finishedAt, hkept.finished]
      exact hb.finishedAt e he
  · obtain ⟨phase, hp⟩ := Option.isSome_iff_exists.mp hid
    obtain ⟨phase', hp', -⟩ := hphase id phase hp
    rw [hp']
    rfl

theorem phase?_setPhase (b : Board) (id id' : Id) (phase : Phase) :
    phase? (setPhase b id phase) id' = if id' = id then (phase? b id').map fun _ => phase else phase? b id' := by
  have hfind : ∀ xs : List Execution, (xs.map fun x => if x.id = id then { x with phase := phase } else x).find?
      (fun x => x.id = id') = (xs.find? fun x => x.id = id').map fun x =>
        if x.id = id then { x with phase := phase } else x := by
    intro xs
    induction xs with
    | nil => rfl
    | cons x xs ih =>
        have hid : (if x.id = id then { x with phase := phase } else x).id = x.id := by split <;> rfl
        by_cases hx : x.id = id'
        · rw [List.map_cons, List.find?_cons_of_pos (by simpa [hid] using hx), List.find?_cons_of_pos (by simpa using hx)]
          rfl
        · rw [List.map_cons, List.find?_cons_of_neg (by simpa [hid] using hx), List.find?_cons_of_neg (by simpa using hx),
            ih]
  simp only [phase?, setPhase, hfind]
  cases hx : b.executions.find? fun x => x.id = id' with
  | none => simp
  | some x =>
      have hid : x.id = id' := by simpa using List.find?_some hx
      by_cases heq : id' = id
      · simp [hid, heq]
      · simp [hid, heq]

theorem findEntry_some {id : Id} {e : Entry} (h : findEntry b id = some e) : e ∈ b.entries ∧ e.summary.id = id :=
  ⟨List.mem_of_find?_eq_some h, by simpa using List.find?_some h⟩

/-- A step that leaves the entries alone publishes nothing. -/
theorem Invariant.unpublished (hb : Invariant b) (hentries : c.entries = b.entries) (hchanges : c.changes = b.changes)
    (hphase : ∀ id phase, phase? b id = some phase →
      ∃ phase', phase? c id = some phase' ∧ (phase' = .completed ↔ phase = .completed)) :
    Invariant c ∧ Advances b c := by
  have hsome : ∀ id, (phase? b id).isSome → (phase? c id).isSome := by
    intro id hid
    obtain ⟨phase, hp⟩ := Option.isSome_iff_exists.mp hid
    obtain ⟨phase', hp', -⟩ := hphase id phase hp
    rw [hp']
    rfl
  refine ⟨⟨?_, fun e he => ?_, ?_, ?_, ?_⟩, .refl hb hsome hentries hchanges⟩
  · rw [ids, hentries]
    exact hb.distinct
  · rw [hentries] at he
    obtain ⟨phase, hp, hfinished⟩ := hb.executed e he
    obtain ⟨phase', hp', hcompleted⟩ := hphase _ _ hp
    exact ⟨phase', hp', hfinished.trans hcompleted.symm⟩
  · rw [hentries]
    exact hb.exclusive
  · rw [hentries]
    exact hb.finishedAt
  · rw [hentries, hchanges]
    exact hb.published

/-- An update that keeps the entry is a step. -/
theorem Invariant.update (hb : Invariant b) {id : Id} {change : TaskSummary → TaskSummary}
    (hentries : c.entries = b.entries) (hchanges : c.changes = b.changes)
    (hphase : ∀ id phase, phase? b id = some phase →
      ∃ phase', phase? c id = some phase' ∧ (phase' = .completed ↔ phase = .completed))
    (hkept : ∀ e ∈ b.entries, e.summary.id = id → Kept e { e with summary := change e.summary }) :
    Invariant (update c id change) ∧ Advances b (update c id change) := by
  simp only [Tasks.update]
  split
  · refine hb.publish_kept ?_ (by rw [hchanges]) hphase
    rw [hentries]
    exact keptFrom_modify hb.distinct hkept
  · exact hb.unpublished hentries hchanges hphase

theorem Invariant.keeps (hb : Invariant b) : Invariant b ∧ Advances b b :=
  ⟨hb, .refl hb (fun _ h => h) rfl rfl⟩

theorem findEntry_id {id : Id} {e f : Entry} (hb : Invariant b) (h : findEntry b id = some e) (hf : f ∈ b.entries)
    (hid : f.summary.id = id) : f = e := by
  obtain ⟨he, hid'⟩ := findEntry_some h
  exact hb.unique hf he (hid.trans hid'.symm)

theorem moves_cancelling {s : TaskState} (h : s.isFinished = false) : Moves s .cancelling := by
  cases s with
  | queued => exact .cancel (.inl rfl)
  | running => exact .cancel (.inr rfl)
  | cancelling => exact .stay _
  | succeeded | failed | cancelled => cases h

theorem kept_cancelling {e : Entry} (h : e.summary.state.isFinished = false) :
    Kept e { e with summary := cancelling e.summary } :=
  ⟨rfl, rfl, moves_cancelling h, h.symm, rfl⟩

/-- Accepting a task puts one unfinished entry on the board. -/
theorem Invariant.submitOwned (hb : Invariant b) {id cancellation : Id} {label : String} {tabId : Option Id} {now : Nat}
    (hfresh : phase? b id = none) (h : submitOwned b id cancellation label tabId now = .ok c) :
    Invariant c ∧ Advances b c := by
  simp only [Tasks.submitOwned] at h
  split at h
  · cases h
  split at h
  · cases h
  rename_i hfree
  obtain rfl := Except.ok.inj h
  have hnew : id ∉ ids b := by
    intro hmem
    obtain ⟨e, he, hid⟩ := List.mem_map.mp hmem
    obtain ⟨phase, hp, -⟩ := hb.executed e he
    rw [hid, hfresh] at hp
    cases hp
  have hphase : ∀ id', phase? (publish { b with
      entries := b.entries ++ [⟨queuedTask id label tabId now, cancellation⟩]
      executions := b.executions ++ [⟨id, cancellation, .spawned⟩] }) id' =
        (phase? b id').or (if id = id' then some .spawned else none) := by
    intro id'
    simp only [phase?, publish_executions, List.find?_append]
    cases b.executions.find? fun x => x.id = id' with
    | some x => rfl
    | none =>
        by_cases hid : id = id'
        · simp [hid]
        · simp [hid]
  have horigin : ∀ {f}, f ∈ b.entries ++ [(⟨queuedTask id label tabId now, cancellation⟩ : Entry)] → f ∈ b.entries ∨
        f = ⟨queuedTask id label tabId now, cancellation⟩ := by
    intro f hf
    simpa using hf
  have hbusy : ∀ e ∈ b.entries, tabId.isSome → e.summary.tabId = tabId → e.summary.state.isFinished ≠ false := by
    intro e he htab hsame hopen
    obtain ⟨tab, rfl⟩ := Option.isSome_iff_exists.mp htab
    refine hfree (List.any_eq_true.mpr ⟨e, he, ?_⟩)
    simp [hsame, hopen]
  refine ⟨⟨?_, fun f hf => ?_, fun e he f hf htab hsame heopen hfopen => ?_, fun f hf => ?_, rfl⟩,
    fun e he f hf hid => ?_, fun id' hid => ?_, fun id' hid hmem => ?_, .inr rfl⟩
  · apply publish_nodup
    rw [ids, List.map_append, List.nodup_append]
    refine ⟨hb.distinct, by simp, ?_⟩
    rintro id₁ hid₁ id₂ hid₂ rfl
    rw [List.map_singleton, List.mem_singleton, queuedTask_id] at hid₂
    subst hid₂
    exact hnew hid₁
  · rw [hphase]
    rcases horigin (mem_publish hf) with hf | rfl
    · obtain ⟨phase, hp, hfinished⟩ := hb.executed f hf
      exact ⟨phase, by rw [hp, Option.some_or], hfinished⟩
    · exact ⟨.spawned, by simp [hfresh], by simp [TaskState.isFinished]⟩
  · rcases horigin (mem_publish he) with he | rfl
    · rcases horigin (mem_publish hf) with hf | rfl
      · exact hb.exclusive e he f hf htab hsame heopen hfopen
      · rw [queuedTask_tabId] at hsame
        exact absurd heopen (hbusy e he (hsame ▸ htab) hsame)
    · rcases horigin (mem_publish hf) with hf | rfl
      · exact absurd hfopen (hbusy f hf htab hsame.symm)
      · rfl
  · rcases horigin (mem_publish hf) with hf | rfl
    · exact hb.finishedAt f hf
    · rfl
  · rcases horigin (mem_publish hf) with hf | rfl
    · obtain rfl := hb.unique hf he hid
      exact .stay _
    · exact absurd (List.mem_map.mpr ⟨e, he, hid.symm⟩) hnew
  · rw [hphase]
    obtain ⟨phase, hp⟩ := Option.isSome_iff_exists.mp hid
    rw [hp]
    rfl
  · obtain ⟨f, hf, rfl⟩ := List.mem_map.mp hmem
    rcases horigin (mem_publish hf) with hf | rfl
    · exact List.mem_map_of_mem hf
    · rw [queuedTask_id, hfresh] at hid
      cases hid

theorem completeTask_finished (now : Nat) (outcome : Except Error Unit) (task : TaskSummary) :
    (completeTask now outcome task).id = task.id ∧ (completeTask now outcome task).tabId = task.tabId ∧
      (completeTask now outcome task).state.isFinished = true ∧
        (completeTask now outcome task).finishedAt.isSome = true := by
  cases outcome with
  | ok _ => exact ⟨rfl, rfl, rfl, rfl⟩
  | error e =>
      simp only [completeTask]
      split <;> exact ⟨rfl, rfl, rfl, rfl⟩

/-- Completing a task moves its entry, if it is still there, to a finished
state, and nothing else. -/
theorem Invariant.complete (hb : Invariant b) {id : Id} {outcome : Except Error Unit} {now : Nat} {phase : Phase}
    (hphase : phase? b id = some phase) (hopen : phase ≠ .completed) :
    Invariant (Tasks.update (setPhase b id .completed) id (completeTask now outcome)) ∧
      Advances b (Tasks.update (setPhase b id .completed) id (completeTask now outcome)) := by
  have hset : ∀ id', phase? (setPhase b id .completed) id' =
      if id' = id then some .completed else phase? b id' := by
    intro id'
    rw [phase?_setPhase]
    by_cases heq : id' = id
    · rw [if_pos heq, if_pos heq, heq, hphase]
      rfl
    · rw [if_neg heq, if_neg heq]
  have haccepted : ∀ id', (phase? b id').isSome → (phase? (setPhase b id .completed) id').isSome := by
    intro id' hid
    rw [hset]
    split
    · rfl
    · exact hid
  have hunfinished : ∀ e ∈ b.entries, e.summary.id = id → e.summary.state.isFinished = false := by
    intro e he hid
    obtain ⟨phase', hp, hfinished⟩ := hb.executed e he
    rw [hid, hphase] at hp
    obtain rfl := Option.some.inj hp
    exact Bool.eq_false_iff.mpr fun h => hopen (hfinished.mp h)
  have hother : ∀ e ∈ b.entries, e.summary.id ≠ id → Origin (setPhase b id .completed) e e := by
    intro e he hid
    refine ⟨rfl, rfl, .stay _, ?_, fun h => h, hb.finishedAt e he⟩
    rw [hset, if_neg hid]
    exact hb.executed e he
  simp only [Tasks.update]
  split
  · refine hb.publish_origin ?_ (fun f hf => ?_) rfl haccepted
    · change ((modifyEntry id _ b.entries).map fun e => e.summary.id).Sublist (ids b)
      have hsame : (modifyEntry id (completeTask now outcome) b.entries).map (fun e => e.summary.id) = ids b := by
        rw [modifyEntry_eq_map hb.distinct, List.map_map]
        apply List.map_congr_left
        intro e _
        simp only [Function.comp_apply]
        split
        · exact (completeTask_finished now outcome e.summary).1
        · rfl
      rw [hsame]
    · change f ∈ modifyEntry id (completeTask now outcome) b.entries at hf
      rw [modifyEntry_eq_map hb.distinct] at hf
      obtain ⟨e, he, rfl⟩ := List.mem_map.mp hf
      refine ⟨e, he, ?_⟩
      split
      · rename_i hid
        obtain ⟨hid', htab, hfinished, hat⟩ := completeTask_finished now outcome e.summary
        refine ⟨hid', htab, .finish (hunfinished e he hid) hfinished, ⟨.completed, ?_, by simp [hfinished]⟩,
          fun _ => hunfinished e he hid, hat.trans hfinished.symm⟩
        exact (hset _).trans (if_pos (hid'.trans hid))
      · rename_i hid
        have ho := hother e he hid
        exact ⟨ho.id, ho.tabId, ho.moves, ho.executed, ho.open_of_open, ho.finishedAt⟩
  · rename_i hnone
    have hgone : ∀ e ∈ b.entries, e.summary.id ≠ id := by
      intro e he hid
      have := List.find?_eq_none.mp hnone e he
      simp [hid] at this
    refine ⟨⟨hb.distinct, fun e he => (hother e he (hgone e he)).executed, hb.exclusive, hb.finishedAt, hb.published⟩,
      .refl hb haccepted rfl rfl⟩

theorem phase?_setPhase_open {id id' : Id} {phase phase' : Phase} (hphase : phase ≠ .completed)
    (hbefore : ∀ p, phase? b id = some p → p ≠ .completed) (h : phase? b id' = some phase') :
    ∃ phase'', phase? (setPhase b id phase) id' = some phase'' ∧ (phase'' = .completed ↔ phase' = .completed) := by
  rw [phase?_setPhase]
  by_cases heq : id' = id
  · rw [if_pos heq, h]
    exact ⟨phase, rfl, fun hc => absurd hc hphase, fun hc => absurd hc (hbefore phase' (heq ▸ h))⟩
  · rw [if_neg heq]
    exact ⟨phase', h, .rfl⟩

theorem kept_startTask (now : Nat) (e : Entry) : Kept e { e with summary := startTask now e.summary } := by
  refine ⟨rfl, rfl, ?_, ?_, rfl⟩
  · by_cases h : e.summary.state = .queued
    · simp only [startTask, h, if_true]
      exact .start
    · simp only [startTask, h, if_false]
      exact .stay _
  · by_cases h : e.summary.state = .queued
    · simp only [startTask, h, if_true]
      rfl
    · simp only [startTask, h, if_false]

theorem kept_reportProgress (message : String) (fraction : Option Fraction) (e : Entry) :
    Kept e { e with summary := reportProgress message fraction e.summary } := by
  simp only [reportProgress]
  split
  · exact .refl e
  · exact ⟨rfl, rfl, .stay _, rfl, rfl⟩

theorem same_phases (id : Id) (phase : Phase) (h : phase? b id = some phase) :
    ∃ phase', phase? b id = some phase' ∧ (phase' = .completed ↔ phase = .completed) := ⟨phase, h, .rfl⟩

theorem Invariant.cancel (hb : Invariant b) {id : Id} (h : cancel b id = .ok c) : Invariant c ∧ Advances b c := by
  simp only [Tasks.cancel] at h
  split at h
  · cases h
  rename_i e hfound
  split at h
  · obtain rfl := Except.ok.inj h
    exact hb.keeps
  rename_i hopen
  obtain rfl := Except.ok.inj h
  refine hb.publish_kept ?_ rfl same_phases
  refine keptFrom_modify hb.distinct fun f hf hid => ?_
  rw [findEntry_id hb hfound hf hid]
  exact kept_cancelling (Bool.eq_false_iff.mpr hopen)

theorem Invariant.dismiss (hb : Invariant b) {id : Id} (h : dismiss b id = .ok c) : Invariant c ∧ Advances b c := by
  simp only [Tasks.dismiss] at h
  split at h
  · cases h
  · obtain rfl := Except.ok.inj h
    exact hb.publish_kept (keptFrom_filter _) rfl same_phases

theorem orKeep_advances {result : Except Error Board} (hb : Invariant b)
    (h : ∀ c, result = .ok c → Invariant c ∧ Advances b c) :
    Invariant (orKeep b result) ∧ Advances b (orKeep b result) := by
  cases result with
  | error _ => exact hb.keeps
  | ok c => exact h c rfl

/-- Every step keeps the invariant and takes the board forward. -/
theorem step_advances (hb : Invariant b) {e : Event} (h : step b e = some c) : Invariant c ∧ Advances b c := by
  cases e with
  | submitOwned id cancellation label tabId now =>
      obtain ⟨hfresh, h⟩ := Option.ite_none_right_eq_some.mp h
      obtain rfl := Option.some.inj h
      exact orKeep_advances hb fun d hd => hb.submitOwned hfresh hd
  | check id =>
      obtain ⟨⟨hphase, -⟩, h⟩ := Option.ite_none_right_eq_some.mp h
      obtain rfl := Option.some.inj h
      refine hb.unpublished rfl rfl fun id' phase' => phase?_setPhase_open (by decide) fun p hp => ?_
      rw [hphase] at hp
      cases hp
      decide
  | start id now =>
      obtain ⟨hphase, h⟩ := Option.ite_none_right_eq_some.mp h
      obtain rfl := Option.some.inj h
      refine hb.update rfl rfl (fun id' phase' => ?_) fun e _ _ => kept_startTask now e
      refine phase?_setPhase_open (by decide) fun p hp => ?_
      rw [hphase] at hp
      cases hp
      decide
  | progress id message fraction =>
      obtain ⟨-, h⟩ := Option.ite_none_right_eq_some.mp h
      obtain rfl := Option.some.inj h
      exact hb.update rfl rfl same_phases fun e _ _ => kept_reportProgress message fraction e
  | notice id message =>
      obtain ⟨-, h⟩ := Option.ite_none_right_eq_some.mp h
      obtain rfl := Option.some.inj h
      exact hb.update rfl rfl same_phases fun e _ _ => ⟨rfl, rfl, .stay _, rfl, rfl⟩
  | complete id outcome now =>
      obtain ⟨⟨hsome, hopen⟩, h⟩ := Option.ite_none_right_eq_some.mp h
      obtain rfl := Option.some.inj h
      obtain ⟨phase, hphase⟩ := Option.isSome_iff_exists.mp hsome
      exact hb.complete hphase fun hc => hopen (hc ▸ hphase)
  | cancel id =>
      obtain rfl := Option.some.inj h
      exact orKeep_advances hb fun d hd => hb.cancel hd
  | cancelAll =>
      obtain rfl := Option.some.inj h
      refine hb.publish_kept (keptFrom_map fun e _ => ?_) rfl same_phases
      split
      · exact .refl e
      · rename_i hopen
        exact kept_cancelling (Bool.eq_false_iff.mpr hopen)
  | purgeAnalysis tabId =>
      obtain rfl := Option.some.inj h
      exact hb.publish_kept (keptFrom_filter _) rfl same_phases
  | renameAnalysis tabId name =>
      obtain rfl := Option.some.inj h
      refine hb.publish_kept (keptFrom_map fun e _ => ?_) rfl same_phases
      split
      · exact ⟨rfl, rfl, .stay _, rfl, rfl⟩
      · exact .refl e
  | dismiss id =>
      obtain rfl := Option.some.inj h
      exact orKeep_advances hb fun d hd => hb.dismiss hd
  | close =>
      obtain rfl := Option.some.inj h
      exact hb.publish_kept ⟨List.nil_sublist _, fun f hf => absurd hf List.not_mem_nil⟩ rfl same_phases

/-- What a run does to the board: no id it has accepted comes back, and what it
publishes is newer. -/
structure Newer (b c : Board) : Prop where
  accepted : ∀ id, (phase? b id).isSome → (phase? c id).isSome
  gone : ∀ id, (phase? b id).isSome → id ∈ ids c → id ∈ ids b
  revision : c.changes = b.changes ∨ b.changes.revision < c.changes.revision

theorem Newer.refl (b : Board) : Newer b b := ⟨fun _ h => h, fun _ _ h => h, .inl rfl⟩

theorem Newer.trans {d : Board} (hbc : Newer b c) (hcd : Newer c d) : Newer b d where
  accepted id h := hcd.accepted id (hbc.accepted id h)
  gone id h hd := hbc.gone id h (hcd.gone id (hbc.accepted id h) hd)
  revision := by
    rcases hbc.revision with hb | hb
    · rw [← hb]
      exact hcd.revision
    · rcases hcd.revision with hc | hc
      · rw [hc]
        exact .inr hb
      · exact .inr (hb.trans hc)

theorem Advances.newer (h : Advances b c) : Newer b c :=
  ⟨h.accepted, h.gone, h.revision.imp_right fun hr => by rw [hr]; exact Nat.lt_succ_self _⟩

theorem run_newer {es : List Event} (hb : Invariant b) (h : exec step b es = some c) : Newer b c :=
  exec_relates Newer.refl (fun hst htu => hst.trans htu) (fun hI hs => (step_advances hI hs).1)
    (fun hI hs => (step_advances hI hs).2.newer) hb h

theorem invariant_run {es : List Event} (h : exec step new es = some b) : Invariant b :=
  exec_invariant (fun hI hs => (step_advances hI hs).1) invariant_new h

end Step

/-- The board over every interleaving of calls and executions: how a state
moves, that a removed entry stays away, that a tab has one unfinished task, when
an entry has its end time, and what is published. -/
theorem board_monotone {es : List Event} {b : Board} (h : exec step new es = some b) :
    (∀ event c, step b event = some c →
      (∀ e ∈ b.entries, ∀ f ∈ c.entries, f.summary.id = e.summary.id →
        Moves e.summary.state f.summary.state ∧
          (e.summary.state.isFinished = true → f.summary.state = e.summary.state)) ∧
      (c.changes = b.changes ∨ b.changes.revision < c.changes.revision) ∧
      ∀ id ∈ ids b, id ∉ ids c → ∀ later d, exec step c later = some d → id ∉ ids d) ∧
    (∀ e ∈ b.entries, ∀ f ∈ b.entries, e.summary.tabId.isSome → e.summary.tabId = f.summary.tabId →
      e.summary.state.isFinished = false → f.summary.state.isFinished = false → e = f) ∧
    (∀ e ∈ b.entries, e.summary.finishedAt.isSome = e.summary.state.isFinished) ∧
    b.changes.tasks = b.entries.map Entry.summary := by
  have hb := invariant_run h
  refine ⟨fun event c hstep => ?_, hb.exclusive, hb.finishedAt, hb.published⟩
  obtain ⟨hc, hadvances⟩ := step_advances hb hstep
  refine ⟨fun e he f hf hid => ⟨hadvances.moves e he f hf hid, fun hfinished => ?_⟩, hadvances.newer.revision,
    fun id hid hgone later d hlater hback => ?_⟩
  · exact (hadvances.moves e he f hf hid).of_finished hfinished
  · obtain ⟨e, he, rfl⟩ := List.mem_map.mp hid
    obtain ⟨phase, hphase, -⟩ := hb.executed e he
    have haccepted : (phase? c e.summary.id).isSome := hadvances.accepted _ (by rw [hphase]; rfl)
    exact hgone ((run_newer hc hlater).gone _ haccepted hback)

/-- One task is purged with its tab while it runs and completes late, another
one succeeds. -/
def lateCompletion : List Event :=
  [.submitOwned 1 2 "Frequency" (some 3) 10, .submitOwned 4 5 "Topics" (some 6) 11, .check 1, .check 4, .start 1 12,
    .start 4 12, .purgeAnalysis 3, .complete 4 (.ok ()) 13,
    .complete 1 (.error ⟨"interrupted", "Task was cancelled"⟩) 14]

theorem late_completion_is_ignored : ∃ b, exec step new lateCompletion = some b ∧ ids b = [4] ∧
    ∀ e ∈ b.entries, e.summary.finishedAt.isSome = e.summary.state.isFinished := by
  obtain ⟨b, hrun⟩ : ∃ b, exec step new lateCompletion = some b :=
    Option.isSome_iff_exists.mp (by decide)
  have hids : (exec step new lateCompletion).map ids = some [4] := by decide
  rw [hrun] at hids
  exact ⟨b, hrun, Option.some.inj hids, (board_monotone hrun).2.2.1⟩

end Wordflow.Tasks
