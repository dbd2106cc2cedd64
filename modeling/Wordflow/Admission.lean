import Wordflow.Library.Run
import Wordflow.Objects

namespace Wordflow.Admission

open Library.Run Objects

/-- A cancellation token and its ancestors, its own identity first. A child is
cancelled with any of its ancestors, never the other way round. -/
abbrev Token := List Nat

def child (t : Token) (n : Nat) : Token := n :: t

def isCancelled (cancelled : List Token) (t : Token) : Bool := cancelled.any fun c => c.isSuffixOf t

abbrev Outcome := Except Error Unit

/-- The detached worker of `close`: the stages between the recorded close and
the outcome handed to the callers. -/
inductive Worker
  | idle
  | started
  | interrupted
  | drained
  | discarded
  | stopped (outcome : Outcome)
  | published
  deriving DecidableEq

/-- The part of `Shared` that admission reads and writes. `tracked` are the
operations whose tracker token is out, `tasks` the cancellation tokens of the
tasks accepted so far, `nextId` the source of fresh identities. -/
structure Shared where
  shutdown : Bool
  available : Option Token
  close : Option (Option Outcome)
  active : List (Nat × Token)
  tracked : List Nat
  trackerClosed : Bool
  tasks : List Token
  attempts : List (Nat × Token)
  cancelled : List Token
  project : Bool
  worker : Worker
  nextId : Nat
  deriving DecidableEq

def new : Shared where
  shutdown := false
  available := some [0]
  close := none
  active := []
  tracked := []
  trackerClosed := false
  tasks := []
  attempts := []
  cancelled := []
  project := false
  worker := .idle
  nextId := 1

def check (s : Shared) (acceptedTask : Bool) : Except Error Unit :=
  if s.shutdown then .error ⟨"stopping", "Backend is stopping"⟩
  else if s.close.isSome then .error ⟨"project_closed", "Project is closed"⟩
  else if !acceptedTask && s.available.isNone then .error ⟨"project_busy", "Project is closing"⟩
  else .ok ()

/-- `ProjectRuntime::operation`, called plainly or inside the task whose
cancellation token is `scope`. The admitted operation has id `nextId`. -/
def operation (s : Shared) (scope : Option Token) : Except Error Shared :=
  if scope.any (isCancelled s.cancelled) then .error ⟨"interrupted", "Task cancelled"⟩
  else match check s scope.isSome, scope.or s.available with
    | .error error, _ => .error error
    | .ok (), none => .error ⟨"project_busy", "Project is closing"⟩
    | .ok (), some parent =>
        if isCancelled s.cancelled (child parent s.nextId) then
          .error ⟨"interrupted", "Operation interrupted"⟩
        else
          .ok { s with
            active := (s.nextId, child parent s.nextId) :: s.active
            tracked := s.nextId :: s.tracked
            nextId := s.nextId + 1 }

def dropOperation (s : Shared) (id : Nat) : Shared :=
  { s with
    active := s.active.filter fun e => e.1 != id
    tracked := s.tracked.filter fun e => e != id }

def beginClose (s : Shared) : Except Error Shared :=
  match check s false, s.available with
  | .error error, _ => .error error
  | .ok (), none => .error ⟨"project_busy", "Project is closing"⟩
  | .ok (), some admission =>
      .ok { s with
        available := none
        attempts := (s.nextId, admission) :: s.attempts
        nextId := s.nextId + 1 }

/-- What `interrupt_and_wait` does before it waits. Unfinished tasks hold their
operation, so cancelling the active work cancels them too. -/
def interrupt (s : Shared) : Shared :=
  { s with cancelled := s.active.map Prod.snd ++ s.cancelled, trackerClosed := true }

def interruptAttempt (s : Shared) (admission : Token) : Shared :=
  interrupt { s with cancelled := admission :: s.cancelled }

def waitReturns (s : Shared) : Bool := s.trackerClosed && s.tracked.isEmpty

def dropAttempt (s : Shared) (id : Nat) (admission : Token) : Shared :=
  let s := { s with attempts := s.attempts.filter fun a => a.1 != id }
  if s.close.isNone then
    if isCancelled s.cancelled admission then
      { s with available := some [s.nextId], nextId := s.nextId + 1, trackerClosed := false }
    else { s with available := some admission, trackerClosed := false }
  else s

def closeProject (s : Shared) : Shared :=
  if s.close.isSome then s
  else
    { s with
      close := some none
      available := none
      cancelled := s.available.toList ++ s.cancelled
      worker := .started }

/-- `submit` makes an active operation the owner of a task, `cancel` cancels the
work of an operation or task, `install` is a project opened by an active
operation, `observe` is a call of `close` that returns. -/
inductive Event
  | operation (scope : Option Token)
  | dropOperation (id : Nat)
  | submit (id : Nat)
  | cancel (token : Token)
  | install (id : Nat)
  | beginClose
  | interruptAttempt (id : Nat)
  | waitAttempt (id : Nat)
  | dropAttempt (id : Nat)
  | close
  | workerInterrupt
  | workerWait
  | workerDiscard
  | workerTake (outcome : Outcome)
  | workerFail (error : Error)
  | workerPublish
  | observe (outcome : Outcome)
  | shutdown
  deriving DecidableEq

def lookup (entries : List (Nat × Token)) (id : Nat) : Option Token :=
  (entries.find? fun e => e.1 == id).map Prod.snd

/-- A refused call leaves the state alone; an event whose owner does not exist
is not possible. -/
def step (s : Shared) : Event → Option Shared
  | .operation scope =>
      if ∀ task ∈ scope, task ∈ s.tasks then
        some (match operation s scope with
          | .ok t => t
          | .error _ => s)
      else none
  | .dropOperation id => (lookup s.active id).map fun _ => dropOperation s id
  | .submit id => (lookup s.active id).map fun token => { s with tasks := token :: s.tasks }
  | .cancel token =>
      if token ∈ s.tasks ∨ token ∈ s.active.map Prod.snd then
        some { s with cancelled := token :: s.cancelled }
      else none
  | .install id => (lookup s.active id).map fun _ => { s with project := true }
  | .beginClose =>
      some (match beginClose s with
        | .ok t => t
        | .error _ => s)
  | .interruptAttempt id => (lookup s.attempts id).map (interruptAttempt s)
  | .waitAttempt id => (lookup s.attempts id).bind fun _ => if waitReturns s then some s else none
  | .dropAttempt id => (lookup s.attempts id).map (dropAttempt s id)
  | .close => some (closeProject s)
  | .workerInterrupt =>
      if s.worker = .started then some { interrupt s with worker := .interrupted } else none
  | .workerWait =>
      if s.worker = .interrupted ∧ waitReturns s then some { s with worker := .drained } else none
  | .workerDiscard => if s.worker = .drained then some { s with worker := .discarded } else none
  | .workerTake outcome =>
      if s.worker = .discarded then some { s with project := false, worker := .stopped outcome }
      else none
  | .workerFail error =>
      match s.worker with
      | .started | .interrupted | .drained | .discarded =>
          some { s with worker := .stopped (.error error) }
      | _ => none
  | .workerPublish =>
      match s.worker with
      | .stopped outcome => some { s with close := some (some outcome), worker := .published }
      | _ => none
  | .observe outcome => if s.close = some (some outcome) then some s else none
  | .shutdown => some { s with shutdown := true }

theorem check_ok {s : Shared} {acceptedTask : Bool} (h : check s acceptedTask = .ok ()) :
    s.close = none := by
  simp only [check] at h
  split at h
  · contradiction
  · split at h
    · contradiction
    · rename_i hclose
      simpa using hclose

/-- An admitted operation is a fresh child of the accepted, uncancelled task it
runs in, or of the available token. -/
theorem operation_ok {s t : Shared} {scope : Option Token} (h : operation s scope = .ok t) :
    s.close = none ∧ ∃ parent,
      (scope = some parent ∧ isCancelled s.cancelled parent = false ∨
        scope = none ∧ s.available = some parent) ∧
      t = { s with
        active := (s.nextId, child parent s.nextId) :: s.active
        tracked := s.nextId :: s.tracked
        nextId := s.nextId + 1 } := by
  simp only [operation] at h
  split at h
  · contradiction
  · rename_i hscope
    split at h
    · contradiction
    · contradiction
    · rename_i parent hcheck hparent
      split at h
      · contradiction
      · refine ⟨check_ok hcheck, parent, ?_, (Except.ok.inj h).symm⟩
        cases scope with
        | none => exact .inr ⟨rfl, by simpa using hparent⟩
        | some task =>
            obtain rfl : task = parent := by simpa using hparent
            exact .inl ⟨rfl, by simpa using hscope⟩

theorem beginClose_ok {s t : Shared} (h : beginClose s = .ok t) :
    s.close = none ∧ ∃ admission, s.available = some admission ∧
      t = { s with
        available := none
        attempts := (s.nextId, admission) :: s.attempts
        nextId := s.nextId + 1 } := by
  simp only [beginClose] at h
  split at h
  · contradiction
  · contradiction
  · rename_i admission hcheck havailable
    exact ⟨check_ok hcheck, admission, havailable, (Except.ok.inj h).symm⟩

def Root (n : Nat) (t : Token) : Prop := ∃ m, m < n ∧ t = [m]

def Child (n : Nat) (t : Token) : Prop := 2 ≤ t.length ∧ ∀ m ∈ t, m < n

theorem Root.mono {n k : Nat} {t : Token} (h : Root n t) (hk : n ≤ k) : Root k t := by
  obtain ⟨m, hm, ht⟩ := h
  exact ⟨m, Nat.lt_of_lt_of_le hm hk, ht⟩

theorem Child.mono {n k : Nat} {t : Token} (h : Child n t) (hk : n ≤ k) : Child k t :=
  ⟨h.1, fun m hm => Nat.lt_of_lt_of_le (h.2 m hm) hk⟩

theorem Root.child {n : Nat} {t : Token} (h : Root n t) : Child (n + 1) (child t n) := by
  obtain ⟨m, hm, rfl⟩ := h
  simp only [Child, Admission.child, List.length_cons, List.mem_cons, List.not_mem_nil, or_false,
    forall_eq_or_imp, forall_eq]
  omega

theorem Child.child {n : Nat} {t : Token} (h : Child n t) : Child (n + 1) (child t n) := by
  refine ⟨Nat.le_succ_of_le h.1, ?_⟩
  intro m hm
  rcases List.mem_cons.mp hm with rfl | hm
  · exact Nat.lt_succ_self _
  · exact Nat.lt_succ_of_lt (h.2 m hm)

/-- Tokens of close attempts and of admission are roots, tokens of work are
proper children, and no cancelled token is the available one. -/
structure Tokens (s : Shared) : Prop where
  available : ∀ t, s.available = some t → Root s.nextId t
  attempts : ∀ a ∈ s.attempts, Root s.nextId a.2
  active : ∀ e ∈ s.active, Child s.nextId e.2
  tasks : ∀ t ∈ s.tasks, Child s.nextId t
  minted : ∀ t ∈ s.cancelled, Root s.nextId t ∨ Child s.nextId t
  fresh : ∀ t, s.available = some t → t ∉ s.cancelled

def WorkerMatches (s : Shared) : Prop :=
  match s.worker with
  | .idle => s.close = none
  | .started | .interrupted => s.close = some none
  | .drained | .discarded => s.close = some none ∧ s.active = []
  | .stopped outcome => s.close = some none ∧ (outcome = .ok () → s.active = [] ∧ s.project = false)
  | .published => ∃ outcome, s.close = some (some outcome) ∧
      (outcome = .ok () → s.active = [] ∧ s.project = false)

structure Closing (s : Shared) : Prop where
  tracked : s.tracked = s.active.map Prod.fst
  single : s.attempts.length ≤ 1
  available_iff : s.available.isSome = true ↔ s.attempts = [] ∧ s.close = none
  worker : WorkerMatches s

theorem isCancelled_root {s : Shared} (hs : Tokens s) {n : Nat} :
    isCancelled s.cancelled [n] = true ↔ [n] ∈ s.cancelled := by
  simp only [isCancelled, List.any_eq_true, List.isSuffixOf_iff_suffix]
  constructor
  · rintro ⟨c, hc, hsuffix⟩
    have hlen := hsuffix.length_le
    rcases hs.minted c hc with ⟨m, -, rfl⟩ | ⟨hl, -⟩
    · exact hsuffix.eq_of_length rfl ▸ hc
    · simp only [List.length_cons, List.length_nil] at hlen
      omega
  · exact fun h => ⟨_, h, List.suffix_refl _⟩

theorem tokens_new : Tokens new := by
  refine ⟨?_, ?_, ?_, ?_, ?_, ?_⟩ <;> simp [new, Root]

theorem closing_new : Closing new := by
  refine ⟨rfl, ?_, ?_, rfl⟩ <;> simp [new]

theorem mem_of_lookup {entries : List (Nat × Token)} {id : Nat} {t : Token}
    (h : lookup entries id = some t) : (id, t) ∈ entries := by
  obtain ⟨⟨key, value⟩, hfind, rfl⟩ := Option.map_eq_some_iff.mp h
  have hkey : key = id := by simpa using List.find?_some hfind
  exact hkey ▸ List.mem_of_find?_eq_some hfind

theorem Root.ne_child {n k : Nat} {t u : Token} (ht : Root n t) (hu : Child k u) : t ≠ u := by
  obtain ⟨m, -, rfl⟩ := ht
  rintro rfl
  exact absurd hu.1 (by simp)

structure Invariant (s : Shared) : Prop where
  tokens : Tokens s
  closing : Closing s

theorem Invariant.attempts_nil {s : Shared} (hs : Invariant s) {t : Token}
    (h : s.available = some t) : s.attempts = [] ∧ s.close = none :=
  hs.closing.available_iff.mp (by simp [h])

theorem Invariant.available_none {s : Shared} (hs : Invariant s)
    (h : s.attempts ≠ [] ∨ s.close ≠ none) : s.available = none := by
  rw [← Option.not_isSome_iff_eq_none, hs.closing.available_iff]
  tauto

theorem WorkerMatches.idle {s : Shared} (h : WorkerMatches s) (hc : s.close = none) :
    s.worker = .idle := by
  cases hw : s.worker <;> simp_all [WorkerMatches]

theorem WorkerMatches.mono {s t : Shared} (h : WorkerMatches s) (hw : t.worker = s.worker)
    (hc : t.close = s.close) (hp : t.project = s.project) (ha : s.active = [] → t.active = []) :
    WorkerMatches t := by
  cases hworker : s.worker <;> simp only [WorkerMatches, hworker, hw, hc, hp] at h ⊢
  case idle | started | interrupted => exact h
  case drained | discarded => exact ⟨h.1, ha h.2⟩
  case stopped outcome => exact ⟨h.1, fun ho => ⟨ha (h.2 ho).1, (h.2 ho).2⟩⟩
  case published =>
      obtain ⟨outcome, hclose, hdone⟩ := h
      exact ⟨outcome, hclose, fun ho => ⟨ha (hdone ho).1, (hdone ho).2⟩⟩

theorem Invariant.admit {s : Shared} (hs : Invariant s) {parent : Token} (hc : s.close = none)
    (hp : Child (s.nextId + 1) (child parent s.nextId)) :
    Invariant { s with
      active := (s.nextId, child parent s.nextId) :: s.active
      tracked := s.nextId :: s.tracked
      nextId := s.nextId + 1 } := by
  have hle : s.nextId ≤ s.nextId + 1 := Nat.le_succ _
  refine ⟨⟨?_, ?_, ?_, ?_, ?_, hs.tokens.fresh⟩, ⟨?_, hs.closing.single, hs.closing.available_iff, ?_⟩⟩
  · exact fun t ht => (hs.tokens.available t ht).mono hle
  · exact fun a ha => (hs.tokens.attempts a ha).mono hle
  · intro e he
    rcases List.mem_cons.mp he with rfl | he
    · exact hp
    · exact (hs.tokens.active e he).mono hle
  · exact fun t ht => (hs.tokens.tasks t ht).mono hle
  · exact fun t ht => (hs.tokens.minted t ht).imp (·.mono hle) (·.mono hle)
  · simp [hs.closing.tracked]
  · simp [WorkerMatches, hs.closing.worker.idle hc, hc]

theorem Invariant.operation {s t : Shared} (hs : Invariant s) {scope : Option Token}
    (hscope : ∀ task ∈ scope, task ∈ s.tasks) (h : operation s scope = .ok t) : Invariant t := by
  obtain ⟨hc, parent, hparent, rfl⟩ := operation_ok h
  refine hs.admit hc ?_
  rcases hparent with ⟨rfl, -⟩ | ⟨-, ha⟩
  · exact (hs.tokens.tasks parent (hscope parent rfl)).child
  · exact (hs.tokens.available parent ha).child

theorem Invariant.dropOperation {s : Shared} (hs : Invariant s) (id : Nat) :
    Invariant (dropOperation s id) := by
  refine ⟨{ hs.tokens with active := ?_ }, ⟨?_, hs.closing.single, hs.closing.available_iff, ?_⟩⟩
  · exact fun e he => hs.tokens.active e (List.mem_of_mem_filter he)
  · simp [Admission.dropOperation, hs.closing.tracked, List.filter_map, Function.comp_def]
  · exact hs.closing.worker.mono rfl rfl rfl (fun h => by simp [Admission.dropOperation, h])

theorem Invariant.submit {s : Shared} (hs : Invariant s) {id : Nat} {token : Token}
    (h : (id, token) ∈ s.active) : Invariant { s with tasks := token :: s.tasks } := by
  refine ⟨{ hs.tokens with tasks := ?_ }, { hs.closing with }⟩
  intro t ht
  rcases List.mem_cons.mp ht with rfl | ht
  · exact hs.tokens.active _ h
  · exact hs.tokens.tasks t ht

/-- Cancelling work leaves the available token alone, since work is below it. -/
theorem Invariant.cancelWork {s : Shared} (hs : Invariant s) {work : List Token}
    (hwork : ∀ t ∈ work, Child s.nextId t) : Invariant { s with cancelled := work ++ s.cancelled } := by
  refine ⟨{ hs.tokens with minted := ?_, fresh := ?_ }, { hs.closing with }⟩
  · intro t ht
    rcases List.mem_append.mp ht with ht | ht
    · exact .inr (hwork t ht)
    · exact hs.tokens.minted t ht
  · intro t hav ht
    rcases List.mem_append.mp ht with ht | ht
    · exact (hs.tokens.available t hav).ne_child (hwork t ht) rfl
    · exact hs.tokens.fresh t hav ht

theorem Invariant.interrupt {s : Shared} (hs : Invariant s) : Invariant (interrupt s) := by
  have hwork : ∀ t ∈ s.active.map Prod.snd, Child s.nextId t := by
    intro t ht
    obtain ⟨e, he, rfl⟩ := List.mem_map.mp ht
    exact hs.tokens.active e he
  have hc := hs.cancelWork hwork
  exact ⟨{ hc.tokens with }, { hc.closing with }⟩

theorem Invariant.interruptAttempt {s : Shared} (hs : Invariant s) {id : Nat} {admission : Token}
    (h : (id, admission) ∈ s.attempts) : Invariant (interruptAttempt s admission) := by
  have hnone : s.available = none := hs.available_none (.inl (List.ne_nil_of_mem h))
  refine Invariant.interrupt ⟨{ hs.tokens with minted := ?_, fresh := ?_ }, { hs.closing with }⟩
  · intro t ht
    rcases List.mem_cons.mp ht with rfl | ht
    · exact .inl (hs.tokens.attempts _ h)
    · exact hs.tokens.minted t ht
  · intro t ht
    simp [hnone] at ht

theorem Invariant.beginClose {s t : Shared} (hs : Invariant s) (h : beginClose s = .ok t) :
    Invariant t := by
  obtain ⟨hc, admission, ha, rfl⟩ := beginClose_ok h
  have hle : s.nextId ≤ s.nextId + 1 := Nat.le_succ _
  have hnil := (hs.attempts_nil ha).1
  refine ⟨⟨by simp, ?_, ?_, ?_, ?_, by simp⟩, ⟨hs.closing.tracked, ?_, ?_, hs.closing.worker⟩⟩
  · intro a hmem
    rcases List.mem_cons.mp hmem with rfl | hmem
    · exact (hs.tokens.available admission ha).mono hle
    · exact (hs.tokens.attempts a hmem).mono hle
  · exact fun e he => (hs.tokens.active e he).mono hle
  · exact fun t ht => (hs.tokens.tasks t ht).mono hle
  · exact fun t ht => (hs.tokens.minted t ht).imp (·.mono hle) (·.mono hle)
  · simp [hnil]
  · simp

theorem filter_attempts_nil {s : Shared} (hs : Invariant s) {id : Nat} {admission : Token}
    (h : (id, admission) ∈ s.attempts) : s.attempts.filter (fun a => a.1 != id) = [] := by
  have hsingle := hs.closing.single
  match hatt : s.attempts, h with
  | [a], h =>
      obtain rfl := List.mem_singleton.mp h
      simp
  | a :: b :: rest, _ => simp [hatt] at hsingle

theorem Invariant.dropAttempt {s : Shared} (hs : Invariant s) {id : Nat} {admission : Token}
    (h : (id, admission) ∈ s.attempts) : Invariant (dropAttempt s id admission) := by
  have hnil := filter_attempts_nil hs h
  have hnone : s.available = none := hs.available_none (.inl (List.ne_nil_of_mem h))
  have hroot := hs.tokens.attempts _ h
  simp only [Admission.dropAttempt, hnil]
  split
  · rename_i hclose
    have hc : s.close = none := by simpa using hclose
    split
    · have hle : s.nextId ≤ s.nextId + 1 := Nat.le_succ _
      refine ⟨⟨?_, by simp, ?_, ?_, ?_, ?_⟩, ⟨hs.closing.tracked, by simp, by simp [hc], hs.closing.worker⟩⟩
      · simp [Root]
      · exact fun e he => (hs.tokens.active e he).mono hle
      · exact fun t ht => (hs.tokens.tasks t ht).mono hle
      · exact fun t ht => (hs.tokens.minted t ht).imp (·.mono hle) (·.mono hle)
      · rintro t ht hmem
        obtain rfl : [s.nextId] = t := by simpa using ht
        rcases hs.tokens.minted _ hmem with ⟨m, hm, heq⟩ | ⟨hl, -⟩
        · obtain rfl : s.nextId = m := by simpa using heq
          exact Nat.lt_irrefl _ hm
        · simp at hl
    · rename_i hlive
      refine ⟨{ hs.tokens with available := ?_, attempts := by simp, fresh := ?_ },
        ⟨hs.closing.tracked, by simp, by simp [hc], hs.closing.worker⟩⟩
      · rintro t ht
        obtain rfl : admission = t := by simpa using ht
        exact hroot
      · rintro t ht hmem
        obtain rfl : admission = t := by simpa using ht
        obtain ⟨m, -, rfl⟩ := hroot
        exact hlive ((isCancelled_root hs.tokens).mpr hmem)
  · rename_i hclose
    have hc : s.close ≠ none := by simpa using hclose
    refine ⟨{ hs.tokens with attempts := by simp }, ⟨hs.closing.tracked, by simp, ?_, hs.closing.worker⟩⟩
    simp [hnone, hc]

theorem Invariant.closeProject {s : Shared} (hs : Invariant s) : Invariant (closeProject s) := by
  simp only [Admission.closeProject]
  split
  · exact hs
  · refine ⟨{ hs.tokens with available := by simp, minted := ?_, fresh := by simp },
      ⟨hs.closing.tracked, hs.closing.single, by simp, rfl⟩⟩
    intro t ht
    rcases List.mem_append.mp ht with ht | ht
    · exact .inl (hs.tokens.available t (Option.mem_toList.mp ht))
    · exact hs.tokens.minted t ht

/-- A stage of the close worker touches neither tokens nor attempts. -/
theorem Invariant.stage {s t : Shared} (hs : Invariant s) (hw : WorkerMatches t)
    (ht : t = { s with worker := t.worker, project := t.project, close := t.close })
    (hclose : s.close ≠ none) (hclose' : t.close ≠ none) : Invariant t := by
  have hnone := hs.available_none (.inr hclose)
  rw [ht] at hw ⊢
  exact ⟨{ hs.tokens with }, ⟨hs.closing.tracked, hs.closing.single, by simp [hnone, hclose'], hw⟩⟩

theorem Invariant.install {s : Shared} (hs : Invariant s) {id : Nat} {token : Token}
    (h : (id, token) ∈ s.active) : Invariant { s with project := true } := by
  refine ⟨{ hs.tokens with }, { hs.closing with worker := ?_ }⟩
  have hactive : s.active ≠ [] := List.ne_nil_of_mem h
  have hw := hs.closing.worker
  cases hworker : s.worker <;> simp_all [WorkerMatches]

theorem waitReturns_active {s : Shared} (hs : Invariant s) (h : waitReturns s = true) :
    s.active = [] := by
  have htracked : s.tracked = [] := by simpa [waitReturns] using (Bool.and_eq_true_iff.mp h).2
  simpa [hs.closing.tracked] using htracked

theorem invariant_worker {s t : Shared} {e : Event} (hs : Invariant s)
    (he : e = .workerInterrupt ∨ e = .workerWait ∨ e = .workerDiscard ∨
      (∃ outcome, e = .workerTake outcome) ∨ (∃ error, e = .workerFail error) ∨ e = .workerPublish)
    (h : step s e = some t) : Invariant t := by
  have hw := hs.closing.worker
  rcases he with rfl | rfl | rfl | ⟨outcome, rfl⟩ | ⟨error, rfl⟩ | rfl
  · simp only [step, Option.ite_none_right_eq_some, Option.some.injEq] at h
    obtain ⟨hstage, rfl⟩ := h
    simp only [WorkerMatches, hstage] at hw
    exact hs.interrupt.stage hw rfl (by simp [interrupt, hw]) (by simp [interrupt, hw])
  · simp only [step, Option.ite_none_right_eq_some, Option.some.injEq] at h
    obtain ⟨⟨hstage, hwait⟩, rfl⟩ := h
    simp only [WorkerMatches, hstage] at hw
    have hactive : s.active = [] := waitReturns_active hs hwait
    exact hs.stage ⟨hw, hactive⟩ rfl (by simp [hw]) (by simp [hw])
  · simp only [step, Option.ite_none_right_eq_some, Option.some.injEq] at h
    obtain ⟨hstage, rfl⟩ := h
    simp only [WorkerMatches, hstage] at hw
    exact hs.stage hw rfl (by simp [hw]) (by simp [hw])
  · simp only [step, Option.ite_none_right_eq_some, Option.some.injEq] at h
    obtain ⟨hstage, rfl⟩ := h
    simp only [WorkerMatches, hstage] at hw
    exact hs.stage ⟨hw.1, fun _ => ⟨hw.2, rfl⟩⟩ rfl (by simp [hw]) (by simp [hw])
  · cases hstage : s.worker <;> simp only [step, hstage, reduceCtorEq, Option.some.injEq] at h <;>
      simp only [WorkerMatches, hstage] at hw
    case started | interrupted =>
        exact h ▸ hs.stage ⟨hw, by simp⟩ rfl (by simp [hw]) (by simp [hw])
    case drained | discarded =>
        exact h ▸ hs.stage ⟨hw.1, by simp⟩ rfl (by simp [hw]) (by simp [hw])
  · cases hstage : s.worker <;> simp only [step, hstage, reduceCtorEq, Option.some.injEq] at h
    simp only [WorkerMatches, hstage] at hw
    exact h ▸ hs.stage ⟨_, rfl, hw.2⟩ rfl (by simp [hw]) (by simp)

theorem invariant_step {s t : Shared} {e : Event} (hs : Invariant s) (h : step s e = some t) :
    Invariant t := by
  cases e with
  | operation scope =>
      simp only [step, Option.ite_none_right_eq_some, Option.some.injEq] at h
      obtain ⟨hscope, rfl⟩ := h
      split
      · rename_i ho
        exact hs.operation hscope ho
      · exact hs
  | dropOperation id =>
      obtain ⟨token, -, rfl⟩ := Option.map_eq_some_iff.mp h
      exact hs.dropOperation id
  | submit id =>
      obtain ⟨token, ha, rfl⟩ := Option.map_eq_some_iff.mp h
      exact hs.submit (mem_of_lookup ha)
  | cancel token =>
      simp only [step, Option.ite_none_right_eq_some, Option.some.injEq] at h
      obtain ⟨hwork, rfl⟩ := h
      refine @Invariant.cancelWork s hs [token] fun t ht => ?_
      obtain rfl := List.mem_singleton.mp ht
      rcases hwork with hwork | hwork
      · exact hs.tokens.tasks _ hwork
      · obtain ⟨e, he, rfl⟩ := List.mem_map.mp hwork
        exact hs.tokens.active e he
  | install id =>
      obtain ⟨token, ha, rfl⟩ := Option.map_eq_some_iff.mp h
      exact hs.install (mem_of_lookup ha)
  | beginClose =>
      simp only [step, Option.some.injEq] at h
      subst h
      split
      · rename_i hb
        exact hs.beginClose hb
      · exact hs
  | interruptAttempt id =>
      obtain ⟨admission, ha, rfl⟩ := Option.map_eq_some_iff.mp h
      exact hs.interruptAttempt (mem_of_lookup ha)
  | waitAttempt id =>
      obtain ⟨admission, -, hw⟩ := Option.bind_eq_some_iff.mp h
      simp only [Option.ite_none_right_eq_some, Option.some.injEq] at hw
      exact hw.2 ▸ hs
  | dropAttempt id =>
      obtain ⟨admission, ha, rfl⟩ := Option.map_eq_some_iff.mp h
      exact hs.dropAttempt (mem_of_lookup ha)
  | close => exact Option.some.inj h ▸ hs.closeProject
  | workerInterrupt | workerWait | workerDiscard | workerTake | workerFail | workerPublish =>
      exact invariant_worker hs (by simp) h
  | observe outcome =>
      simp only [step, Option.ite_none_right_eq_some, Option.some.injEq] at h
      exact h.2 ▸ hs
  | shutdown => exact Option.some.inj h ▸ ⟨{ hs.tokens with }, { hs.closing with }⟩

theorem invariant_exec {s : Shared} {es : List Event} (h : exec step new es = some s) : Invariant s :=
  exec_invariant (fun hs h => invariant_step hs h) ⟨tokens_new, closing_new⟩ h

/-- The close record is never taken back, and an outcome in it never changes. -/
def Records (s t : Shared) : Prop :=
  (s.close.isSome = true → t.close.isSome = true) ∧
    ∀ outcome, s.close = some (some outcome) → t.close = some (some outcome)

theorem Records.of_close_eq {s t : Shared} (h : t.close = s.close) : Records s t := by
  simp [Records, h]

theorem records_step {s t : Shared} {e : Event} (hs : Invariant s) (h : step s e = some t) :
    Records s t := by
  have hw := hs.closing.worker
  cases e with
  | operation scope =>
      simp only [step, Option.ite_none_right_eq_some, Option.some.injEq] at h
      obtain ⟨-, rfl⟩ := h
      split
      · rename_i ho
        obtain ⟨-, parent, -, rfl⟩ := operation_ok ho
        exact .of_close_eq rfl
      · exact .of_close_eq rfl
  | beginClose =>
      simp only [step, Option.some.injEq] at h
      subst h
      split
      · rename_i hb
        obtain ⟨-, admission, -, rfl⟩ := beginClose_ok hb
        exact .of_close_eq rfl
      · exact .of_close_eq rfl
  | dropAttempt id =>
      obtain ⟨admission, -, rfl⟩ := Option.map_eq_some_iff.mp h
      refine .of_close_eq ?_
      simp only [dropAttempt]
      split <;> try split
      all_goals rfl
  | close =>
      obtain rfl := Option.some.inj h
      by_cases hc : s.close.isSome = true <;> simp_all [Records, closeProject]
  | workerPublish =>
      cases hstage : s.worker <;> simp only [step, hstage, reduceCtorEq, Option.some.injEq] at h
      simp only [WorkerMatches, hstage] at hw
      subst h
      simp [Records, hw.1]
  | waitAttempt id =>
      obtain ⟨admission, -, hw⟩ := Option.bind_eq_some_iff.mp h
      simp only [Option.ite_none_right_eq_some, Option.some.injEq] at hw
      exact .of_close_eq (hw.2 ▸ rfl)
  | dropOperation | submit | install | interruptAttempt =>
      obtain ⟨token, -, rfl⟩ := Option.map_eq_some_iff.mp h
      exact .of_close_eq rfl
  | cancel | workerInterrupt | workerWait | workerDiscard | workerTake | observe =>
      simp only [step, Option.ite_none_right_eq_some, Option.some.injEq] at h
      exact .of_close_eq (h.2 ▸ rfl)
  | workerFail error =>
      cases hstage : s.worker <;> simp only [step, hstage, reduceCtorEq, Option.some.injEq] at h
      all_goals exact .of_close_eq (h ▸ rfl)
  | shutdown => exact .of_close_eq (Option.some.inj h ▸ rfl)

theorem records_exec {s t : Shared} {es : List Event} (hs : Invariant s)
    (h : exec step s es = some t) : Records s t :=
  exec_relates (fun _ => .of_close_eq rfl)
    (fun h₁ h₂ => ⟨fun hc => h₂.1 (h₁.1 hc), fun o ho => h₂.2 o (h₁.2 o ho)⟩)
    (fun hs h => invariant_step hs h) (fun hs h => records_step hs h) hs h

theorem operation_closed {s : Shared} (h : s.close.isSome = true) (scope : Option Token) :
    ∃ error, operation s scope = .error error := by
  cases ho : operation s scope with
  | error error => exact ⟨error, rfl⟩
  | ok t => simp [(operation_ok ho).1] at h

theorem observe_recorded {s : Shared} {es : List Event} (h : exec step new es = some s)
    {outcome : Outcome} (ho : .observe outcome ∈ es) : s.close = some (some outcome) := by
  obtain ⟨es₁, es₂, rfl⟩ := List.append_of_mem ho
  obtain ⟨u, hu, hrest⟩ := exec_append.mp h
  obtain ⟨v, hv, ht⟩ := exec_cons.mp hrest
  simp only [step, Option.ite_none_right_eq_some, Option.some.injEq] at hv
  obtain ⟨hclose, rfl⟩ := hv
  exact (records_exec (invariant_exec hu) ht).2 outcome hclose

theorem closed_outcome {s : Shared} (hs : Invariant s) (h : s.close = some (some (.ok ()))) :
    s.active = [] ∧ s.project = false := by
  have hw := hs.closing.worker
  cases hstage : s.worker <;> simp_all [WorkerMatches]

/-- Closing is final, a dropped attempt restores admission, and every caller of
`close` sees one outcome, in every interleaving. -/
theorem close_is_final {s : Shared} {es : List Event} (h : exec step new es = some s) :
    s.attempts.length ≤ 1 ∧
    (s.available.isSome = true ↔ s.attempts = [] ∧ s.close = none) ∧
    (∀ t, s.available = some t → isCancelled s.cancelled t = false) ∧
    (s.close.isSome = true → ∀ es' t, exec step s es' = some t →
      t.close.isSome = true ∧ t.available = none ∧ ∀ scope, ∃ error, operation t scope = .error error) ∧
    (s.attempts ≠ [] → ∀ scope t, step s (.operation scope) = some t → t ≠ s →
      ∃ task ∈ s.tasks, scope = some task ∧ isCancelled s.cancelled task = false) ∧
    (∀ t, step s (.observe (.ok ())) = some t → s.active = [] ∧ s.project = false) ∧
    (∀ o₁ o₂, .observe o₁ ∈ es → .observe o₂ ∈ es → o₁ = o₂) := by
  have hs := invariant_exec h
  refine ⟨hs.closing.single, hs.closing.available_iff, ?_, ?_, ?_, ?_, ?_⟩
  · intro t ht
    obtain ⟨m, -, rfl⟩ := hs.tokens.available t ht
    rw [← Bool.not_eq_true, isCancelled_root hs.tokens]
    exact hs.tokens.fresh _ ht
  · intro hclose es' t ht
    have hc := (records_exec hs ht).1 hclose
    have hInv : Invariant t := exec_invariant (fun hs h => invariant_step hs h) hs ht
    exact ⟨hc, hInv.available_none (.inr (Option.isSome_iff_ne_none.mp hc)), operation_closed hc⟩
  · intro hattempts scope t ht hne
    simp only [step, Option.ite_none_right_eq_some, Option.some.injEq] at ht
    obtain ⟨hscope, rfl⟩ := ht
    cases ho : operation s scope with
    | error error => simp [ho] at hne
    | ok u =>
        obtain ⟨-, parent, hparent, -⟩ := operation_ok ho
        rcases hparent with ⟨rfl, hlive⟩ | ⟨-, ha⟩
        · exact ⟨parent, hscope parent rfl, rfl, hlive⟩
        · exact absurd (hs.attempts_nil ha).1 hattempts
  · intro t ht
    simp only [step, Option.ite_none_right_eq_some] at ht
    exact closed_outcome hs ht.1
  · intro o₁ o₂ h₁ h₂
    have hsame := (observe_recorded h h₁).symm.trans (observe_recorded h h₂)
    exact Option.some.inj (Option.some.inj hsame)

/-- A task stage admitted while a prompt is open, then a close that overtakes
the prompt and a late drop of it. -/
def overtaken : List Event :=
  [.operation none, .submit 1, .install 1, .beginClose, .operation none, .operation (some [1, 0]),
    .interruptAttempt 2, .close, .workerInterrupt, .dropOperation 3, .dropOperation 1, .dropAttempt 2,
    .workerWait, .workerDiscard, .workerTake (.ok ()), .workerPublish, .observe (.ok ()),
    .operation (some [1, 0]), .beginClose, .observe (.ok ())]

def overtakenEnd : Shared where
  shutdown := false
  available := none
  close := some (some (.ok ()))
  active := []
  tracked := []
  trackerClosed := true
  tasks := [[1, 0]]
  attempts := []
  cancelled := [[3, 1, 0], [1, 0], [3, 1, 0], [1, 0], [0]]
  project := false
  worker := .published
  nextId := 4

theorem overtaken_is_final :
    exec step new overtaken = some overtakenEnd ∧ overtakenEnd.active = [] ∧
      overtakenEnd.project = false := by
  have hrun : exec step new overtaken = some overtakenEnd := by decide
  exact ⟨hrun, (close_is_final hrun).2.2.2.2.2.1 overtakenEnd (by decide)⟩

end Wordflow.Admission
