import Wordflow.Library.Sorted
import Wordflow.Tasks.Monotone

namespace Wordflow.Tasks

open Library Library.Run Objects

/-- A task as it is asked for and as it ends. -/
structure Job where
  id : Id
  tabId : Option Id
  succeeded : Bool
  deriving DecidableEq

/-- All work of a run, whatever the board keeps of it: the unfinished tasks,
and the finished ones that are not dismissed or purged, from the last back. -/
structure Work where
  unfinished : List Job
  finished : List Job
  latest : Nat

def noWork : Work := ⟨[], [], 0⟩

section Work

variable (w : Work)

def Work.keep (p : Job → Bool) : Work := { w with unfinished := w.unfinished.filter p, finished := w.finished.filter p }

def Work.busy (tabId : Option Id) : Bool := tabId.isSome && w.unfinished.any fun job => job.tabId = tabId

def Work.next : Event → Work
  | .submitOwned id _ label tabId _ =>
      if Text.trim label = "" ∨ w.busy tabId = true then w else { w with unfinished := ⟨id, tabId, false⟩ :: w.unfinished }
  | .complete id outcome now =>
      match w.unfinished.find? fun job => job.id = id with
      | none => w
      | some job =>
          { unfinished := w.unfinished.filter fun job => job.id ≠ id
            finished := { job with succeeded := outcome.isOk } :: w.finished
            latest := now }
  | .dismiss id =>
      if (w.unfinished.any fun job => job.id = id) = true then w
      else { w with finished := w.finished.filter fun job => job.id ≠ id }
  | .purgeAnalysis tabId => w.keep fun job => job.tabId ≠ some tabId
  | .close => w.keep fun _ => false
  | _ => w

/-- The work of a run. -/
def work (es : List Event) : Work := es.foldl Work.next noWork

end Work

/-- A step of the board beside the work it stands for. -/
def follow (s : Board × Work) (e : Event) : Option (Board × Work) := (step s.1 e).map fun b => (b, s.2.next e)

/-- Tasks do not finish earlier than those before them. -/
def Timely (s : Board × Work) : Event → Prop
  | .complete _ _ now => s.2.latest ≤ now
  | _ => True

/-- The times at which tasks finish in a run. -/
def finishTimes (es : List Event) : List Nat :=
  es.filterMap fun
    | .complete _ _ now => some now
    | _ => none

/-- A removal takes none of the last 100 finished tasks, or all before them. -/
def KeepsLast (w : Work) (p : Job → Bool) : Prop :=
  (∀ job ∈ w.finished.take 100, p job = true) ∨ ∀ job ∈ w.finished.drop 100, p job = false

/-- Where 100 finished tasks are listed and another one finishes, the first of
them succeeded, or neither any of them nor the other did. -/
def Orderly (s : Board × Work) : Event → Prop
  | .complete id outcome _ =>
      (∃ job ∈ s.2.unfinished, job.id = id) → 100 ≤ s.2.finished.length →
        (∃ job, s.2.finished[99]? = some job ∧ job.succeeded = true) ∨
          outcome.isOk = false ∧ ∀ job ∈ s.2.finished.take 100, job.succeeded = false
  | .dismiss id => KeepsLast s.2 fun job => job.id ≠ id
  | .purgeAnalysis tabId => KeepsLast s.2 fun job => job.tabId ≠ some tabId
  | _ => True

def TaskSummary.job (task : TaskSummary) : Job := ⟨task.id, task.tabId, task.state = .succeeded⟩

def Entry.job (e : Entry) : Job := e.summary.job

@[simp] theorem job_id (e : Entry) : e.job.id = e.summary.id := rfl

@[simp] theorem job_tabId (e : Entry) : e.job.tabId = e.summary.tabId := rfl

def Entry.unfinished (e : Entry) : Bool := group e.summary.state = 0

def Entry.failed (e : Entry) : Bool := group e.summary.state = 1

def Entry.succeeded (e : Entry) : Bool := group e.summary.state = 2

section Entries

variable {e f : Entry}

theorem unfinished_eq (e : Entry) : e.unfinished = !e.summary.state.isFinished := by
  rw [Entry.unfinished]
  cases e.summary.state <;> rfl

theorem job_succeeded (e : Entry) : e.job.succeeded = e.succeeded := by
  rw [Entry.job, TaskSummary.job, Entry.succeeded]
  cases e.summary.state <;> rfl

theorem succeeded_of_finished (h : e.unfinished = false) : e.succeeded = !e.failed := by
  rw [Entry.unfinished] at h
  rw [Entry.failed, Entry.succeeded]
  cases hstate : e.summary.state <;> simp_all [group]

theorem before_trans {g : Entry} (hef : e.before f) (hfg : f.before g) : e.before g := by
  simp only [Entry.before] at *
  omega

theorem before_total (e f : Entry) : e.before f ∨ f.before e := by
  simp only [Entry.before]
  omega

instance : Std.Total Entry.before := ⟨before_total⟩

instance : IsTrans Entry Entry.before := ⟨fun _ _ _ => before_trans⟩

/-- The list is the unfinished entries, the failed and cancelled ones, and the others. -/
theorem split_groups {entries : List Entry} (h : entries.Pairwise Entry.before) :
    entries = entries.filter Entry.unfinished ++ (entries.filter Entry.failed ++ entries.filter Entry.succeeded) := by
  have hunfinished : entries.Pairwise fun a b => b.unfinished = true → a.unfinished = true := by
    apply h.imp
    intro a b hab hb
    simp only [Entry.before, Entry.unfinished, decide_eq_true_eq] at *
    omega
  have hrest : (entries.filter fun e => !e.unfinished).Pairwise fun a b => b.failed = true → a.failed = true := by
    apply (h.filter _).imp_of_mem
    intro a b ha _ hab hb
    have hfinished := (List.mem_filter.mp ha).2
    simp only [Entry.before, Entry.unfinished, Entry.failed, Bool.not_eq_true', decide_eq_true_eq,
      decide_eq_false_iff_not] at *
    omega
  have hfailed : (entries.filter fun e => !e.unfinished).filter Entry.failed = entries.filter Entry.failed := by
    rw [List.filter_filter]
    apply List.filter_congr
    intro e _
    rw [Entry.failed, Entry.unfinished]
    cases e.summary.state <;> rfl
  have hsucceeded : ((entries.filter fun e => !e.unfinished).filter fun e => !e.failed) = entries.filter Entry.succeeded := by
    rw [List.filter_filter]
    apply List.filter_congr
    intro e _
    rw [Entry.failed, Entry.unfinished, Entry.succeeded]
    cases e.summary.state <;> rfl
  calc
    entries = entries.filter Entry.unfinished ++ entries.filter fun e => !e.unfinished :=
      (filter_append_filter_not hunfinished).symm
    _ = _ := by rw [← filter_append_filter_not hrest, hfailed, hsucceeded]

theorem retain_unfinished {entries : List Entry} (h : ∀ e ∈ entries, e.unfinished = true) (n : Nat) (rest : List Entry) :
    retain n (entries ++ rest) = entries ++ retain n rest := by
  induction entries with
  | nil => rfl
  | cons e entries ih =>
      obtain ⟨he, hentries⟩ := List.forall_mem_cons.mp h
      rw [unfinished_eq, Bool.not_eq_true'] at he
      rw [List.cons_append, retain]
      simp only [he, Bool.false_eq_true, if_false, or_true, if_true]
      rw [ih hentries, List.cons_append]

theorem retain_finished {entries : List Entry} (h : ∀ e ∈ entries, e.unfinished = false) (n : Nat) :
    retain n entries = entries.take (100 - n) := by
  induction entries generalizing n with
  | nil => rw [List.take_nil, retain]
  | cons e entries ih =>
      obtain ⟨he, hentries⟩ := List.forall_mem_cons.mp h
      rw [unfinished_eq, Bool.not_eq_false'] at he
      rw [retain]
      simp only [he, if_true, Bool.true_eq_false, or_false]
      split
      · rename_i hroom
        have hsucc : 100 - n = 100 - (n + 1) + 1 := by omega
        rw [ih hentries, hsucc, List.take_succ_cons]
      · rename_i hfull
        have hzero : 100 - n = 0 := by omega
        have hzero' : 100 - (n + 1) = 0 := by omega
        rw [ih hentries, hzero, hzero', List.take_zero, List.take_zero]

theorem mem_finished {entries : List Entry} (h : e ∈ entries.filter Entry.failed ++ entries.filter Entry.succeeded) :
    e ∈ entries ∧ e.unfinished = false := by
  rw [List.mem_append, List.mem_filter, List.mem_filter] at h
  rcases h with ⟨hmem, he⟩ | ⟨hmem, he⟩
  · rw [Entry.failed, decide_eq_true_eq] at he
    rw [Entry.unfinished, he]
    exact ⟨hmem, rfl⟩
  · rw [Entry.succeeded, decide_eq_true_eq] at he
    rw [Entry.unfinished, he]
    exact ⟨hmem, rfl⟩

/-- Publishing keeps the unfinished entries and the first 100 of the others. -/
theorem publish_split {b : Board} (hfailed : (b.entries.filter Entry.failed).Pairwise Entry.before)
    (hsucceeded : (b.entries.filter Entry.succeeded).Pairwise Entry.before) :
    ∃ unfinished : List Entry, unfinished.Perm (b.entries.filter Entry.unfinished) ∧
      (publish b).entries = unfinished ++ (b.entries.filter Entry.failed ++ b.entries.filter Entry.succeeded).take 100 := by
  refine ⟨(b.entries.insertionSort Entry.before).filter Entry.unfinished,
    (List.perm_insertionSort _ _).filter _, ?_⟩
  have hsplit := split_groups (List.pairwise_insertionSort Entry.before b.entries)
  rw [filter_insertionSort hfailed, filter_insertionSort hsucceeded] at hsplit
  change retain 0 (b.entries.insertionSort Entry.before) = _
  rw [hsplit, retain_unfinished (fun e he => (List.mem_filter.mp he).2), retain_finished fun e he => (mem_finished he).2,
    ← hsplit]

end Entries

/-- Jobs as they are listed: the failed and cancelled ones first. -/
def listing (jobs : List Job) : List Job :=
  jobs.filter (fun job => !job.succeeded) ++ jobs.filter Job.succeeded

section Listing

variable {jobs : List Job} {last : Job}

theorem listing_perm (jobs : List Job) : (listing jobs).Perm jobs := by
  rw [listing]
  exact List.perm_append_comm.trans (List.filter_append_perm _ _)

theorem length_listing (jobs : List Job) : (listing jobs).length = jobs.length := (listing_perm jobs).length_eq

theorem filter_listing (jobs : List Job) : (listing jobs).filter Job.succeeded = jobs.filter Job.succeeded := by
  rw [listing, List.filter_append, List.filter_filter, List.filter_filter]
  simp

theorem filter_not_listing (jobs : List Job) :
    (listing jobs).filter (fun job => !job.succeeded) = jobs.filter fun job => !job.succeeded := by
  rw [listing, List.filter_append, List.filter_filter, List.filter_filter]
  simp

theorem listing_filter (p : Job → Bool) (jobs : List Job) : listing (jobs.filter p) = (listing jobs).filter p := by
  rw [listing, listing, List.filter_append]
  simp only [List.filter_filter, Bool.and_comm]

/-- The last place is that of the job which finished first where that one succeeded, or where all failed. -/
theorem take_listing (hlength : jobs.length = 100)
    (h : last.succeeded = true ∨ ∀ job ∈ jobs ++ [last], job.succeeded = false) :
    (listing (jobs ++ [last])).take 100 = listing jobs := by
  rcases h with hlast | hall
  · have happend : listing (jobs ++ [last]) = listing jobs ++ [last] := by
      rw [listing, listing, List.filter_append, List.filter_append, List.append_assoc, List.append_assoc]
      simp [hlast]
    rw [happend, List.take_left' (by rw [length_listing, hlength])]
  · have hfailed : ∀ job ∈ jobs ++ [last], (!job.succeeded) = true := fun job hjob => by rw [hall job hjob]; rfl
    have hnone : ∀ part : List Job, (∀ job ∈ part, (!job.succeeded) = true) → listing part = part := by
      intro part hpart
      rw [listing, List.filter_eq_self.mpr hpart, List.filter_eq_nil_iff.mpr, List.append_nil]
      intro job hjob
      simpa using hpart job hjob
    rw [hnone _ hfailed, hnone jobs fun job hjob => hfailed job (List.mem_append_left _ hjob), List.take_left' hlength]

/-- The removal of jobs from the last 100 is that from all. -/
theorem take_filter {w : Work} {p : Job → Bool} (h : KeepsLast w p) :
    (w.finished.take 100).filter p = (w.finished.filter p).take 100 := by
  conv_rhs => rw [← List.take_append_drop 100 w.finished, List.filter_append]
  rcases h with hall | hnone
  · rw [List.filter_eq_self.mpr hall]
    rcases Nat.le_total 100 w.finished.length with hlong | hshort
    · rw [List.take_left' (by rw [List.length_take, Nat.min_eq_left hlong])]
    · rw [List.drop_eq_nil_of_le hshort, List.filter_nil, List.append_nil, List.take_take, Nat.min_self]
  · have hnil : (w.finished.drop 100).filter p = [] := by
      apply List.filter_eq_nil_iff.mpr
      intro job hjob
      rw [hnone job hjob]
      exact Bool.false_ne_true
    have hlength : ((w.finished.take 100).filter p).length ≤ 100 :=
      (List.length_filter_le _ _).trans (List.length_take_le _ _)
    rw [hnil, List.append_nil, List.take_of_length_le hlength]

/-- A job that finishes takes the place of the first of 100. -/
theorem take_finish {w : Work} {job : Job}
    (h : 100 ≤ w.finished.length → (∃ first, w.finished[99]? = some first ∧ first.succeeded = true) ∨
      job.succeeded = false ∧ ∀ other ∈ w.finished.take 100, other.succeeded = false) :
    (listing (job :: w.finished.take 100)).take 100 = listing ((job :: w.finished).take 100) := by
  rcases Nat.lt_or_ge w.finished.length 100 with hshort | hlong
  · have htake : w.finished.take 100 = w.finished := List.take_of_length_le hshort.le
    have hcons : (job :: w.finished).length ≤ 100 := hshort
    rw [htake, List.take_of_length_le hcons, List.take_of_length_le (by rwa [length_listing])]
  · have hat : 99 < w.finished.length := hlong
    have hsplit : w.finished.take 100 = w.finished.take 99 ++ [w.finished[99]] := List.take_succ_eq_append_getElem hat
    have hlength : (job :: w.finished.take 99).length = 100 := by
      rw [List.length_cons, List.length_take, Nat.min_eq_left hat.le]
    have hfirst : w.finished[99].succeeded = true ∨
        ∀ other ∈ job :: w.finished.take 99 ++ [w.finished[99]], other.succeeded = false := by
      rcases h hlong with ⟨first, hget, hfirst⟩ | ⟨hjob, hall⟩
      · rw [List.getElem?_eq_getElem hat, Option.some.injEq] at hget
        rw [hget]
        exact .inl hfirst
      · rw [hsplit] at hall
        exact .inr (List.forall_mem_cons.mpr ⟨hjob, hall⟩)
    rw [hsplit, List.take_succ_cons, ← List.cons_append]
    exact take_listing hlength hfirst

end Listing

/-- The board keeps all unfinished work and the last 100 finished tasks. -/
structure Agrees (b : Board) (w : Work) : Prop where
  board : Invariant b
  sorted : b.entries.Pairwise Entry.before
  unfinished : ((b.entries.filter Entry.unfinished).map Entry.job).Perm w.unfinished
  finished : (b.entries.filter Entry.failed ++ b.entries.filter Entry.succeeded).map Entry.job =
    listing (w.finished.take 100)
  latest : ∀ e ∈ b.entries, e.unfinished = false → e.time ≤ w.latest

section Agrees

variable {b c : Board} {w v : Work}

/-- The failed and the succeeded tasks are each listed from the last back. -/
theorem Agrees.parts (h : Agrees b w) :
    (b.entries.filter Entry.failed).map Entry.job = (w.finished.take 100).filter (fun job => !job.succeeded) ∧
      (b.entries.filter Entry.succeeded).map Entry.job = (w.finished.take 100).filter Job.succeeded := by
  have hfailed : ∀ job ∈ (b.entries.filter Entry.failed).map Entry.job, job.succeeded = false := by
    intro job hjob
    obtain ⟨e, he, rfl⟩ := List.mem_map.mp hjob
    have hgroup := (List.mem_filter.mp he).2
    rw [Entry.failed, decide_eq_true_eq] at hgroup
    rw [job_succeeded, Entry.succeeded, hgroup]
    rfl
  have hsucceeded : ∀ job ∈ (b.entries.filter Entry.succeeded).map Entry.job, job.succeeded = true := by
    intro job hjob
    obtain ⟨e, he, rfl⟩ := List.mem_map.mp hjob
    rw [job_succeeded]
    exact (List.mem_filter.mp he).2
  have hnotSucceeded : ((b.entries.filter Entry.succeeded).map Entry.job).filter (fun job => !job.succeeded) = [] :=
    List.filter_eq_nil_iff.mpr fun job hjob => by simp [hsucceeded job hjob]
  have hnotFailed : ((b.entries.filter Entry.failed).map Entry.job).filter Job.succeeded = [] :=
    List.filter_eq_nil_iff.mpr fun job hjob => by simp [hfailed job hjob]
  have hparts := h.finished
  rw [List.map_append] at hparts
  constructor
  · have hfilter := congrArg (List.filter fun job => !job.succeeded) hparts
    rwa [filter_not_listing, List.filter_append, hnotSucceeded, List.append_nil,
      List.filter_eq_self.mpr fun job hjob => by simp [hfailed job hjob]] at hfilter
  · have hfilter := congrArg (List.filter Job.succeeded) hparts
    rwa [filter_listing, List.filter_append, hnotFailed, List.nil_append, List.filter_eq_self.mpr hsucceeded] at hfilter

/-- What has to hold of entries for publishing them. -/
structure Publishes (entries : List Entry) (w : Work) : Prop where
  failed : (entries.filter Entry.failed).Pairwise Entry.before
  succeeded : (entries.filter Entry.succeeded).Pairwise Entry.before
  unfinished : ((entries.filter Entry.unfinished).map Entry.job).Perm w.unfinished
  finished : ((entries.filter Entry.failed ++ entries.filter Entry.succeeded).map Entry.job).take 100 =
    listing (w.finished.take 100)
  latest : ∀ e ∈ entries, e.unfinished = false → e.time ≤ w.latest

theorem Publishes.agrees (h : Publishes c.entries w) (hboard : Invariant (publish c)) : Agrees (publish c) w := by
  obtain ⟨unfinished, hperm, hentries⟩ := publish_split h.failed h.succeeded
  have hsorted : (publish c).entries.Pairwise Entry.before :=
    (List.pairwise_insertionSort Entry.before c.entries).sublist (publish_sublist c)
  have hopen : (publish c).entries.filter Entry.unfinished = unfinished := by
    have hall : ∀ e ∈ unfinished, e.unfinished = true := fun e he => (List.mem_filter.mp (hperm.subset he)).2
    have hnone : ((c.entries.filter Entry.failed ++ c.entries.filter Entry.succeeded).take 100).filter Entry.unfinished =
        [] := by
      apply List.filter_eq_nil_iff.mpr
      intro e he
      rw [(mem_finished (List.mem_of_mem_take he)).2]
      exact Bool.false_ne_true
    rw [hentries, List.filter_append, List.filter_eq_self.mpr hall, hnone, List.append_nil]
  have hfinished : (publish c).entries.filter Entry.failed ++ (publish c).entries.filter Entry.succeeded =
      (c.entries.filter Entry.failed ++ c.entries.filter Entry.succeeded).take 100 := by
    have hsplit := split_groups hsorted
    rw [hopen] at hsplit
    exact List.append_cancel_left (hsplit.symm.trans hentries)
  refine ⟨hboard, hsorted, ?_, ?_, fun e he => h.latest e (mem_publish he)⟩
  · rw [hopen]
    exact (hperm.map _).trans h.unfinished
  · rw [hfinished, List.map_take, h.finished]

/-- What publishing does not ask about an entry. -/
structure Same (e f : Entry) : Prop where
  job : f.job = e.job
  group : group f.summary.state = group e.summary.state
  time : e.unfinished = false → f.time = e.time

theorem Same.refl (e : Entry) : Same e e := ⟨rfl, rfl, fun _ => rfl⟩

theorem Agrees.publishes_map (h : Agrees b w) {g : Entry → Entry} (hg : ∀ e ∈ b.entries, Same e (g e)) :
    Publishes (b.entries.map g) w := by
  have hfilter : ∀ p : Entry → Bool, (∀ e ∈ b.entries, p (g e) = p e) →
      (b.entries.map g).filter p = (b.entries.filter p).map g := by
    intro p hp
    rw [List.filter_map]
    congr 1
    exact List.filter_congr hp
  have hjobs : ∀ p : Entry → Bool, ((b.entries.filter p).map g).map Entry.job = (b.entries.filter p).map Entry.job := by
    intro p
    rw [List.map_map]
    apply List.map_congr_left
    intro e he
    exact (hg e (List.mem_filter.mp he).1).job
  have hsorted : ∀ n, n ≠ 0 → (((b.entries.filter fun e => group e.summary.state = n)).map g).Pairwise Entry.before := by
    intro n hn
    rw [List.pairwise_map]
    apply (h.sorted.filter _).imp_of_mem
    intro e f he hf hef
    obtain ⟨he, hen⟩ := List.mem_filter.mp he
    obtain ⟨hf, hfn⟩ := List.mem_filter.mp hf
    have hte := (hg e he).time
    have htf := (hg f hf).time
    simp only [Entry.unfinished, decide_eq_true_eq, decide_eq_false_iff_not] at hen hfn hte htf
    rw [Entry.before, (hg e he).group, (hg f hf).group, hte (by omega), htf (by omega)]
    exact hef
  have hunfinished : (b.entries.map g).filter Entry.unfinished = (b.entries.filter Entry.unfinished).map g :=
    hfilter _ fun e he => by rw [Entry.unfinished, Entry.unfinished, (hg e he).group]
  have hfailed : (b.entries.map g).filter Entry.failed = (b.entries.filter Entry.failed).map g :=
    hfilter _ fun e he => by rw [Entry.failed, Entry.failed, (hg e he).group]
  have hsucceeded : (b.entries.map g).filter Entry.succeeded = (b.entries.filter Entry.succeeded).map g :=
    hfilter _ fun e he => by rw [Entry.succeeded, Entry.succeeded, (hg e he).group]
  refine ⟨?_, ?_, ?_, ?_, fun f hf hopen => ?_⟩
  · rw [hfailed]
    exact hsorted 1 (by decide)
  · rw [hsucceeded]
    exact hsorted 2 (by decide)
  · rw [hunfinished, hjobs]
    exact h.unfinished
  · rw [hfailed, hsucceeded, List.map_append, hjobs, hjobs, ← List.map_append, h.finished]
    exact List.take_of_length_le ((length_listing _).le.trans (List.length_take_le _ _))
  · obtain ⟨e, he, rfl⟩ := List.mem_map.mp hf
    have hclosed : e.unfinished = false := by
      rw [← hopen, Entry.unfinished, Entry.unfinished, (hg e he).group]
    rw [(hg e he).time hclosed]
    exact h.latest e he hclosed

theorem Agrees.take_finished (h : Agrees b w) :
    ((b.entries.filter Entry.failed ++ b.entries.filter Entry.succeeded).map Entry.job).take 100 =
      listing (w.finished.take 100) := by
  rw [h.finished]
  exact List.take_of_length_le ((length_listing _).le.trans (List.length_take_le _ _))

theorem Agrees.publishes_filter (h : Agrees b w) {p : Job → Bool} (hp : KeepsLast w p) :
    Publishes (b.entries.filter fun e => p e.job) (w.keep p) := by
  have hfilter : ∀ q : Entry → Bool, (b.entries.filter fun e => p e.job).filter q =
      (b.entries.filter q).filter fun e => p e.job := by
    intro q
    rw [List.filter_filter, List.filter_filter]
    simp only [Bool.and_comm]
  have hjobs : ∀ entries : List Entry, (entries.filter fun e => p e.job).map Entry.job =
      (entries.map Entry.job).filter p := by
    intro entries
    rw [List.filter_map]
    rfl
  refine ⟨?_, ?_, ?_, ?_, fun e he => h.latest e (List.mem_filter.mp he).1⟩
  · exact (h.sorted.filter _).filter _
  · exact (h.sorted.filter _).filter _
  · rw [hfilter, hjobs]
    exact h.unfinished.filter _
  · rw [hfilter, hfilter, ← List.filter_append, hjobs, h.finished, ← listing_filter, take_filter hp]
    exact List.take_of_length_le ((length_listing _).le.trans (List.length_take_le _ _))

theorem Agrees.publishes_submit (h : Agrees b w) {e : Entry} (he : e.unfinished = true) :
    Publishes (b.entries ++ [e]) { w with unfinished := e.job :: w.unfinished } := by
  have hgroup := he
  rw [Entry.unfinished, decide_eq_true_eq] at hgroup
  have hfailed : [e].filter Entry.failed = [] := List.filter_eq_nil_iff.mpr (by simp [Entry.failed, hgroup])
  have hsucceeded : [e].filter Entry.succeeded = [] := List.filter_eq_nil_iff.mpr (by simp [Entry.succeeded, hgroup])
  have hunfinished : [e].filter Entry.unfinished = [e] := List.filter_eq_self.mpr (by simpa using he)
  refine ⟨?_, ?_, ?_, ?_, fun f hf hopen => ?_⟩
  · rw [List.filter_append, hfailed, List.append_nil]
    exact h.sorted.filter _
  · rw [List.filter_append, hsucceeded, List.append_nil]
    exact h.sorted.filter _
  · rw [List.filter_append, hunfinished, List.map_append, List.map_singleton]
    exact (List.perm_append_singleton _ _).trans (h.unfinished.cons _)
  · rw [List.filter_append, List.filter_append, hfailed, hsucceeded, List.append_nil, List.append_nil]
    exact h.take_finished
  · rcases List.mem_append.mp hf with hf | hf
    · exact h.latest f hf hopen
    · rw [List.mem_singleton.mp hf, he] at hopen
      cases hopen

/-- The unfinished entries stand before the others. -/
theorem Agrees.before_unfinished (h : Agrees b w) {pre post : List Entry} {e : Entry}
    (hentries : b.entries = pre ++ e :: post) (he : e.unfinished = true) : ∀ f ∈ pre, f.unfinished = true := by
  intro f hf
  have hsorted := h.sorted
  rw [hentries, List.pairwise_append] at hsorted
  have hbefore := hsorted.2.2 f hf e List.mem_cons_self
  simp only [Entry.before, Entry.unfinished, decide_eq_true_eq] at *
  omega

/-- An entry that finishes comes first in its group, and takes the place of the first of 100. -/
theorem Agrees.publishes_complete (h : Agrees b w) {pre post : List Entry} {e f : Entry}
    (hentries : b.entries = pre ++ e :: post) (he : e.unfinished = true) (hf : f.unfinished = false)
    (hid : f.summary.id = e.summary.id) (htime : w.latest ≤ f.time)
    (hfirst : 100 ≤ w.finished.length → (∃ first, w.finished[99]? = some first ∧ first.succeeded = true) ∨
      f.job.succeeded = false ∧ ∀ other ∈ w.finished.take 100, other.succeeded = false) :
    Publishes (pre ++ f :: post)
      { unfinished := w.unfinished.filter fun job => job.id ≠ e.summary.id
        finished := f.job :: w.finished
        latest := f.time } := by
  have hpre := h.before_unfinished hentries he
  have hnone : ∀ n, n ≠ 0 → pre.filter (fun a => group a.summary.state = n) = [] := by
    intro n hn
    apply List.filter_eq_nil_iff.mpr
    intro a ha
    have hopen := hpre a ha
    simp only [Entry.unfinished, decide_eq_true_eq] at hopen ⊢
    omega
  have hfailed : ∀ g, (pre ++ g :: post).filter Entry.failed = (g :: post).filter Entry.failed := by
    intro g
    rw [List.filter_append]
    exact congrArg (· ++ _) (hnone 1 (by decide))
  have hsucceeded : ∀ g, (pre ++ g :: post).filter Entry.succeeded = (g :: post).filter Entry.succeeded := by
    intro g
    rw [List.filter_append]
    exact congrArg (· ++ _) (hnone 2 (by decide))
  have hskip : (e :: post).filter Entry.failed = post.filter Entry.failed ∧
      (e :: post).filter Entry.succeeded = post.filter Entry.succeeded := by
    have hgroup := he
    rw [Entry.unfinished, decide_eq_true_eq] at hgroup
    exact ⟨List.filter_cons_of_neg (by simp [Entry.failed, hgroup]),
      List.filter_cons_of_neg (by simp [Entry.succeeded, hgroup])⟩
  obtain ⟨hfailedJobs, hsucceededJobs⟩ := h.parts
  rw [hentries, hfailed, hskip.1] at hfailedJobs
  rw [hentries, hsucceeded, hskip.2] at hsucceededJobs
  have hsorted : ∀ n, (post.filter fun a => group a.summary.state = n).Pairwise Entry.before := by
    intro n
    have hpost := (List.pairwise_append.mp (hentries ▸ h.sorted)).2.1
    exact (List.pairwise_cons.mp hpost).2.filter _
  have hlatest : ∀ a ∈ post, a.unfinished = false → a.time ≤ f.time := by
    intro a ha hopen
    have hmem : a ∈ b.entries := hentries ▸ List.mem_append_right _ (List.mem_cons_of_mem _ ha)
    exact (h.latest a hmem hopen).trans htime
  have hahead : ∀ n, n ≠ 0 → group f.summary.state = n →
      (f :: post.filter fun a => group a.summary.state = n).Pairwise Entry.before := by
    intro n hn hgroup
    refine List.pairwise_cons.mpr ⟨fun a ha => ?_, hsorted n⟩
    obtain ⟨ha, han⟩ := List.mem_filter.mp ha
    rw [decide_eq_true_eq] at han
    refine .inr ⟨hgroup.trans han.symm, hlatest a ha ?_⟩
    rw [Entry.unfinished, han]
    simpa using hn
  have hothers : ∀ a, a ∈ pre ∨ a ∈ post → a.summary.id ≠ e.summary.id := by
    intro a ha
    have hdistinct := h.board.distinct
    rw [ids, hentries, List.map_append, List.map_cons, List.nodup_append, List.nodup_cons] at hdistinct
    rcases ha with ha | ha
    · exact hdistinct.2.2 _ (List.mem_map_of_mem ha) _ List.mem_cons_self
    · exact fun heq => hdistinct.2.1.1 (heq ▸ List.mem_map_of_mem ha)
  have hjobs : ((pre ++ f :: post).filter Entry.failed ++ (pre ++ f :: post).filter Entry.succeeded).map Entry.job =
      listing (f.job :: w.finished.take 100) := by
    rw [hfailed, hsucceeded, List.map_append, listing]
    cases hf' : f.succeeded with
    | true =>
        have hnot : f.failed = false := by
          have heither := succeeded_of_finished hf
          rw [hf'] at heither
          simpa using heither.symm
        rw [List.filter_cons_of_neg (by simp [hnot]), List.filter_cons_of_pos hf', hfailedJobs, List.map_cons,
          hsucceededJobs, List.filter_cons_of_neg (by simp [job_succeeded, hf']),
          List.filter_cons_of_pos (by simp [job_succeeded, hf'])]
    | false =>
        have hfailed : f.failed = true := by
          have heither := succeeded_of_finished hf
          rw [hf'] at heither
          simpa using heither.symm
        rw [List.filter_cons_of_pos hfailed, List.filter_cons_of_neg (by simp [hf']), hsucceededJobs, List.map_cons,
          hfailedJobs, List.filter_cons_of_pos (by simp [job_succeeded, hf']),
          List.filter_cons_of_neg (by simp [job_succeeded, hf'])]
  refine ⟨?_, ?_, ?_, ?_, fun a ha hopen => ?_⟩
  · rw [hfailed, List.filter_cons]
    split
    · rename_i hgroup
      exact hahead 1 (by decide) (of_decide_eq_true hgroup)
    · exact hsorted 1
  · rw [hsucceeded, List.filter_cons]
    split
    · rename_i hgroup
      exact hahead 2 (by decide) (of_decide_eq_true hgroup)
    · exact hsorted 2
  · have hkept : ((pre ++ e :: post.filter Entry.unfinished).map Entry.job).filter (fun job => job.id ≠ e.summary.id) =
        (pre ++ post.filter Entry.unfinished).map Entry.job := by
      have hpart : ∀ part : List Entry, (∀ a ∈ part, a ∈ pre ∨ a ∈ post) →
          (part.map Entry.job).filter (fun job => job.id ≠ e.summary.id) = part.map Entry.job := by
        intro part hpart
        apply List.filter_eq_self.mpr
        intro job hjob
        obtain ⟨a, ha, rfl⟩ := List.mem_map.mp hjob
        exact decide_eq_true (hothers a (hpart a ha))
      rw [List.map_append, List.map_cons, List.filter_append, hpart pre fun a ha => .inl ha,
        List.filter_cons_of_neg (by simp [Entry.job, TaskSummary.job]),
        hpart _ fun a ha => .inr (List.mem_filter.mp ha).1, List.map_append]
    have hperm := h.unfinished.filter fun job => job.id ≠ e.summary.id
    rw [hentries, List.filter_append, List.filter_eq_self.mpr hpre, List.filter_cons_of_pos he, hkept] at hperm
    rw [List.filter_append, List.filter_eq_self.mpr hpre, List.filter_cons_of_neg (by simp [hf])]
    exact hperm
  · rw [hjobs]
    exact take_finish hfirst
  · rcases List.mem_append.mp ha with ha | ha
    · rw [hpre a ha] at hopen
      cases hopen
    · rcases List.mem_cons.mp ha with rfl | ha
      · exact le_rfl
      · exact hlatest a ha hopen

/-- Where the entries are not touched, nothing changes. -/
theorem Agrees.of_entries (h : Agrees b w) (hboard : Invariant c) (hentries : c.entries = b.entries) : Agrees c w := by
  refine ⟨hboard, ?_, ?_, ?_, ?_⟩
  all_goals rw [hentries]
  exacts [h.sorted, h.unfinished, h.finished, h.latest]

theorem modifyEntry_split {id : Id} {change : TaskSummary → TaskSummary} {entries : List Entry} {e : Entry}
    (h : entries.find? (fun e => e.summary.id = id) = some e) :
    ∃ pre post, entries = pre ++ e :: post ∧
      modifyEntry id change entries = pre ++ { e with summary := change e.summary } :: post := by
  induction entries with
  | nil => cases h
  | cons a entries ih =>
      by_cases hid : a.summary.id = id
      · rw [List.find?_cons_of_pos (by simpa using hid)] at h
        obtain rfl := Option.some.inj h
        exact ⟨[], entries, rfl, if_pos hid⟩
      · rw [List.find?_cons_of_neg (by simpa using hid)] at h
        obtain ⟨pre, post, hentries, hmodify⟩ := ih h
        refine ⟨a :: pre, post, by rw [hentries, List.cons_append], ?_⟩
        rw [modifyEntry, if_neg hid, hmodify, List.cons_append]

/-- An update that does not finish the task. -/
theorem Agrees.update (h : Agrees b w) {id : Id} {change : TaskSummary → TaskSummary} (hentries : c.entries = b.entries)
    (hboard : Invariant (Tasks.update c id change))
    (hchange : ∀ e ∈ b.entries, Same e { e with summary := change e.summary }) : Agrees (Tasks.update c id change) w := by
  rw [Tasks.update] at hboard ⊢
  split at hboard
  · have hmap : modifyEntry id change c.entries =
        b.entries.map fun e => if e.summary.id = id then { e with summary := change e.summary } else e := by
      rw [hentries]
      exact modifyEntry_eq_map h.board.distinct
    refine Publishes.agrees (c := { c with entries := modifyEntry id change c.entries }) ?_ hboard
    change Publishes (modifyEntry id change c.entries) w
    rw [hmap]
    apply h.publishes_map
    intro e he
    split
    · exact hchange e he
    · exact .refl e
  · exact h.of_entries hboard hentries

theorem same_startTask (now : Nat) (e : Entry) : Same e { e with summary := startTask now e.summary } := by
  by_cases hqueued : e.summary.state = .queued
  · refine ⟨?_, ?_, fun _ => rfl⟩
    · simp [Entry.job, TaskSummary.job, startTask, hqueued]
    · simp [startTask, hqueued, group]
  · refine ⟨?_, ?_, fun _ => rfl⟩
    · simp [Entry.job, TaskSummary.job, startTask, hqueued]
    · simp [startTask, hqueued]

theorem same_reportProgress (message : String) (fraction : Option Fraction) (e : Entry) :
    Same e { e with summary := reportProgress message fraction e.summary } := by
  rw [reportProgress]
  split
  · exact .refl e
  · exact ⟨rfl, rfl, fun _ => rfl⟩

theorem same_cancelling {e : Entry} (h : e.summary.state.isFinished = false) :
    Same e { e with summary := cancelling e.summary } := by
  have hopen : e.unfinished = true := by rw [unfinished_eq, h]; rfl
  refine ⟨?_, ?_, fun hclosed => ?_⟩
  · have hjob := job_succeeded e
    rw [Entry.unfinished, decide_eq_true_eq] at hopen
    rw [Entry.succeeded, hopen] at hjob
    simp only [Entry.job, TaskSummary.job] at hjob ⊢
    rw [hjob]
    rfl
  · rw [Entry.unfinished, decide_eq_true_eq] at hopen
    rw [hopen]
    rfl
  · rw [hopen] at hclosed
    cases hclosed

theorem Agrees.mem_unfinished (h : Agrees b w) {e : Entry} (he : e ∈ b.entries) (hopen : e.unfinished = true) :
    e.job ∈ w.unfinished :=
  h.unfinished.subset (List.mem_map_of_mem (List.mem_filter.mpr ⟨he, hopen⟩))

theorem Agrees.exists_entry (h : Agrees b w) {job : Job} (hjob : job ∈ w.unfinished) :
    ∃ e ∈ b.entries, e.unfinished = true ∧ e.job = job := by
  obtain ⟨e, he, hjob⟩ := List.mem_map.mp (h.unfinished.symm.subset hjob)
  obtain ⟨he, hopen⟩ := List.mem_filter.mp he
  exact ⟨e, he, hopen, hjob⟩

theorem Agrees.busy (h : Agrees b w) (tabId : Option Id) : busy b tabId = w.busy tabId := by
  cases tabId with
  | none => rfl
  | some tab =>
      rw [Bool.eq_iff_iff, Tasks.busy, Work.busy]
      simp only [Option.isSome_some, Bool.true_and, List.any_eq_true, Bool.and_eq_true, decide_eq_true_eq]
      constructor
      · rintro ⟨e, he, htab, hopen⟩
        exact ⟨e.job, h.mem_unfinished he (by rw [unfinished_eq, hopen]), htab⟩
      · rintro ⟨job, hjob, htab⟩
        obtain ⟨e, he, hopen, rfl⟩ := h.exists_entry hjob
        exact ⟨e, he, htab, by rw [← unfinished_eq, hopen]⟩

theorem Agrees.submitOwned (h : Agrees b w) {id cancellation : Id} {label : String} {tabId : Option Id} {now : Nat}
    (hboard : Invariant (orKeep b (submitOwned b id cancellation label tabId now))) :
    Agrees (orKeep b (submitOwned b id cancellation label tabId now))
      (w.next (.submitOwned id cancellation label tabId now)) := by
  rw [Tasks.submitOwned, h.busy] at hboard ⊢
  rw [Work.next]
  by_cases hlabel : Text.trim label = ""
  · rw [if_pos hlabel, if_pos (.inl hlabel)]
    exact h
  · rw [if_neg hlabel] at hboard ⊢
    by_cases hbusy : w.busy tabId = true
    · rw [if_pos hbusy, if_pos (.inr hbusy)]
      exact h
    · rw [if_neg hbusy] at hboard ⊢
      rw [if_neg (not_or.mpr ⟨hlabel, hbusy⟩)]
      exact (h.publishes_submit (e := ⟨queuedTask id label tabId now, cancellation⟩) rfl).agrees hboard

theorem Agrees.dismiss (h : Agrees b w) {id : Id} (hkeep : KeepsLast w fun job => job.id ≠ id)
    (hboard : Invariant (orKeep b (dismiss b id))) : Agrees (orKeep b (dismiss b id)) (w.next (.dismiss id)) := by
  rw [Work.next]
  cases hfound : (findEntry b id).filter fun e => !e.summary.state.isFinished with
  | some e =>
      obtain ⟨hfind, hopen⟩ := Option.filter_eq_some_iff.mp hfound
      obtain ⟨he, hid⟩ := findEntry_some hfind
      have hany : (w.unfinished.any fun job => job.id = id) = true :=
        List.any_eq_true.mpr ⟨e.job, h.mem_unfinished he (by rw [unfinished_eq, hopen]), decide_eq_true hid⟩
      rw [Tasks.dismiss, hfound, if_pos hany]
      exact h
  | none =>
      have hothers : ∀ job ∈ w.unfinished, job.id ≠ id := by
        intro job hjob hid
        obtain ⟨e, he, hopen, rfl⟩ := h.exists_entry hjob
        have hfind : findEntry b id = some e := by
          cases hfind : findEntry b id with
          | none => exact absurd hid (by simpa using List.find?_eq_none.mp hfind e he)
          | some f => rw [findEntry_id h.board hfind he hid]
        rw [hfind, Option.filter_some, ← unfinished_eq, if_pos hopen] at hfound
        cases hfound
      have hany : ¬(w.unfinished.any fun job => job.id = id) = true := by
        rw [List.any_eq_true]
        rintro ⟨job, hjob, hid⟩
        exact hothers job hjob (of_decide_eq_true hid)
      have hself : w.unfinished.filter (fun job => job.id ≠ id) = w.unfinished :=
        List.filter_eq_self.mpr fun job hjob => decide_eq_true (hothers job hjob)
      have hpublishes := h.publishes_filter hkeep
      rw [Work.keep, hself] at hpublishes
      rw [Tasks.dismiss, hfound] at hboard ⊢
      rw [if_neg hany]
      exact hpublishes.agrees (c := { b with entries := b.entries.filter fun e => e.summary.id ≠ id }) hboard

theorem completeTask_job (now : Nat) (outcome : Except Error Unit) (task : TaskSummary) :
    (completeTask now outcome task).job = { task.job with succeeded := outcome.isOk } ∧
      (completeTask now outcome task).finishedAt = some now := by
  cases outcome with
  | ok _ => exact ⟨rfl, rfl⟩
  | error e =>
      rw [completeTask]
      split <;> exact ⟨rfl, rfl⟩

theorem Agrees.complete (h : Agrees b w) {id : Id} {outcome : Except Error Unit} {now : Nat} {phase : Phase}
    (hphase : phase? b id = some phase) (hopen : phase ≠ .completed) (htimely : Timely (b, w) (.complete id outcome now))
    (horderly : Orderly (b, w) (.complete id outcome now))
    (hboard : Invariant (Tasks.update (setPhase b id .completed) id (completeTask now outcome))) :
    Agrees (Tasks.update (setPhase b id .completed) id (completeTask now outcome)) (w.next (.complete id outcome now)) := by
  rw [Work.next]
  cases hfound : findEntry (setPhase b id .completed) id with
  | none =>
      have hnone : w.unfinished.find? (fun job => job.id = id) = none := by
        apply List.find?_eq_none.mpr
        intro job hjob hid
        obtain ⟨e, he, -, rfl⟩ := h.exists_entry hjob
        exact List.find?_eq_none.mp hfound e he hid
      rw [Tasks.update, hfound] at hboard ⊢
      rw [hnone]
      exact h.of_entries hboard rfl
  | some e =>
      obtain ⟨he, hid⟩ := findEntry_some hfound
      change e ∈ b.entries at he
      have hunfinished : e.unfinished = true := by
        obtain ⟨phase', hp, hfinished⟩ := h.board.executed e he
        rw [hid, hphase] at hp
        obtain rfl := Option.some.inj hp
        rw [unfinished_eq, Bool.not_eq_true']
        exact Bool.eq_false_iff.mpr fun hf => hopen (hfinished.mp hf)
      have hjob : w.unfinished.find? (fun job => job.id = id) = some e.job := by
        cases hfind : w.unfinished.find? fun job => job.id = id with
        | none => exact absurd (decide_eq_true hid) (List.find?_eq_none.mp hfind _ (h.mem_unfinished he hunfinished))
        | some job =>
            obtain ⟨f, hf, -, rfl⟩ := h.exists_entry (List.mem_of_find?_eq_some hfind)
            have hpass := List.find?_some hfind
            have hfid : f.summary.id = id := of_decide_eq_true hpass
            rw [h.board.unique hf he (hfid.trans hid.symm)]
      obtain ⟨pre, post, hentries, hmodify⟩ := @modifyEntry_split _ (completeTask now outcome) _ _ hfound
      obtain ⟨hcompleted, hat⟩ := completeTask_job now outcome e.summary
      obtain ⟨hsame, -, hfinished, -⟩ := completeTask_finished now outcome e.summary
      have htime : Entry.time { e with summary := completeTask now outcome e.summary } = now := by
        rw [Entry.time, hat]
        rfl
      have hclosed : Entry.unfinished { e with summary := completeTask now outcome e.summary } = false := by
        rw [unfinished_eq, hfinished]
        rfl
      have hfirst := horderly ⟨e.job, h.mem_unfinished he hunfinished, hid⟩
      have hpublishes := h.publishes_complete hentries hunfinished hclosed hsame (by rw [htime]; exact htimely) (by
        intro hlong
        refine (hfirst hlong).imp_right fun hlast => ⟨?_, hlast.2⟩
        rw [Entry.job, hcompleted]
        exact hlast.1)
      rw [htime, hid, Entry.job, hcompleted] at hpublishes
      rw [Tasks.update, hfound] at hboard ⊢
      rw [hjob]
      refine Publishes.agrees (c := { setPhase b id .completed with
        entries := modifyEntry id (completeTask now outcome) (setPhase b id .completed).entries }) ?_ hboard
      change Publishes (modifyEntry id (completeTask now outcome) (setPhase b id .completed).entries) _
      rw [hmodify]
      exact hpublishes

theorem Agrees.cancel (h : Agrees b w) {id : Id} (hboard : Invariant (orKeep b (cancel b id))) :
    Agrees (orKeep b (cancel b id)) w := by
  rw [Tasks.cancel] at hboard ⊢
  cases hfound : findEntry b id with
  | none => exact h
  | some e =>
      rw [hfound] at hboard
      by_cases hopen : e.summary.state.isFinished = true
      · simp only [if_pos hopen]
        exact h
      · simp only [if_neg hopen] at hboard ⊢
        refine Publishes.agrees (c := { b with
          entries := modifyEntry id cancelling b.entries
          cancelled := b.cancelled ++ [e.cancellation] }) ?_ hboard
        change Publishes (modifyEntry id cancelling b.entries) w
        rw [modifyEntry_eq_map h.board.distinct]
        apply h.publishes_map
        intro f hf
        split
        · rename_i hid
          rw [findEntry_id h.board hfound hf hid]
          exact same_cancelling (Bool.eq_false_iff.mpr hopen)
        · exact .refl f

/-- Every step that is orderly keeps what the board lists in agreement with the work. -/
theorem Agrees.step (h : Agrees b w) {e : Event} (htimely : Timely (b, w) e) (horderly : Orderly (b, w) e)
    (hstep : step b e = some c) : Agrees c (w.next e) := by
  have hboard : Invariant c := (step_advances h.board hstep).1
  cases e with
  | submitOwned id cancellation label tabId now =>
      obtain ⟨-, hstep⟩ := Option.ite_none_right_eq_some.mp hstep
      obtain rfl := Option.some.inj hstep
      exact h.submitOwned hboard
  | check id =>
      obtain ⟨-, hstep⟩ := Option.ite_none_right_eq_some.mp hstep
      obtain rfl := Option.some.inj hstep
      exact h.of_entries hboard rfl
  | start id now =>
      obtain ⟨-, hstep⟩ := Option.ite_none_right_eq_some.mp hstep
      obtain rfl := Option.some.inj hstep
      exact h.update (c := setPhase b id .started) rfl hboard fun e _ => same_startTask now e
  | progress id message fraction =>
      obtain ⟨-, hstep⟩ := Option.ite_none_right_eq_some.mp hstep
      obtain rfl := Option.some.inj hstep
      exact h.update rfl hboard fun e _ => same_reportProgress message fraction e
  | notice id message =>
      obtain ⟨-, hstep⟩ := Option.ite_none_right_eq_some.mp hstep
      obtain rfl := Option.some.inj hstep
      exact h.update rfl hboard fun e _ => ⟨rfl, rfl, fun _ => rfl⟩
  | complete id outcome now =>
      obtain ⟨⟨hsome, hopen⟩, hstep⟩ := Option.ite_none_right_eq_some.mp hstep
      obtain rfl := Option.some.inj hstep
      obtain ⟨phase, hphase⟩ := Option.isSome_iff_exists.mp hsome
      exact h.complete hphase (fun hc => hopen (hc ▸ hphase)) htimely horderly hboard
  | cancel id =>
      obtain rfl := Option.some.inj hstep
      exact h.cancel hboard
  | cancelAll =>
      obtain rfl := Option.some.inj hstep
      refine Publishes.agrees (h.publishes_map fun e _ => ?_) hboard
      split
      · exact .refl e
      · rename_i hopen
        exact same_cancelling (Bool.eq_false_iff.mpr hopen)
  | purgeAnalysis tabId =>
      obtain rfl := Option.some.inj hstep
      refine Publishes.agrees (c := { b with
        entries := b.entries.filter fun e => !ownedBy tabId e
        cancelled := b.cancelled ++ (b.entries.filter (ownedBy tabId)).map Entry.cancellation }) ?_ hboard
      have hpublishes := h.publishes_filter horderly
      have hfilter : (b.entries.filter fun e => !ownedBy tabId e) =
          b.entries.filter fun e => e.job.tabId ≠ some tabId := by
        apply List.filter_congr
        intro e _
        rw [ownedBy, decide_not]
        rfl
      change Publishes (b.entries.filter fun e => !ownedBy tabId e) _
      rw [hfilter]
      exact hpublishes
  | renameAnalysis tabId name =>
      obtain rfl := Option.some.inj hstep
      refine Publishes.agrees (h.publishes_map fun e _ => ?_) hboard
      split
      · exact ⟨rfl, rfl, fun _ => rfl⟩
      · exact .refl e
  | dismiss id =>
      obtain rfl := Option.some.inj hstep
      exact h.dismiss horderly hboard
  | close =>
      obtain rfl := Option.some.inj hstep
      have hpublishes := h.publishes_filter (p := fun _ => false) (.inr fun _ _ => rfl)
      rw [List.filter_false] at hpublishes
      exact hpublishes.agrees (c := { b with closed := true, entries := [] }) hboard

end Agrees

theorem agrees_new : Agrees new noWork := by
  refine ⟨invariant_new, .nil, .nil, rfl, fun e he => nomatch he⟩

/-- The work beside a run is what its events amount to. -/
theorem exec_follow {b c : Board} {w v : Work} {es : List Event} :
    exec follow (b, w) es = some (c, v) ↔ exec step b es = some c ∧ v = es.foldl Work.next w := by
  induction es generalizing b w with
  | nil =>
      rw [exec_nil, exec_nil, Option.some.injEq, Option.some.injEq, Prod.mk.injEq, List.foldl_nil, eq_comm (a := w)]
  | cons e es ih =>
      rw [exec_cons, exec_cons]
      constructor
      · rintro ⟨⟨d, u⟩, hstep, hrest⟩
        obtain ⟨d', hd, heq⟩ := Option.map_eq_some_iff.mp hstep
        obtain ⟨rfl, rfl⟩ := Prod.mk.inj heq
        obtain ⟨hrun, rfl⟩ := ih.mp hrest
        exact ⟨⟨d', hd, hrun⟩, rfl⟩
      · rintro ⟨⟨d, hstep, hrun⟩, rfl⟩
        exact ⟨(d, w.next e), by rw [follow, hstep]; rfl, ih.mpr ⟨hrun, rfl⟩⟩

theorem next_latest (w : Work) (e : Event) : (w.next e).latest = w.latest ∨ (w.next e).latest ∈ finishTimes [e] := by
  cases e with
  | complete id outcome now =>
      rw [Work.next]
      split
      · exact .inl rfl
      · exact .inr (List.mem_singleton_self now)
  | submitOwned id cancellation label tabId now | dismiss id =>
      rw [Work.next]
      split <;> exact .inl rfl
  | _ => exact .inl rfl

/-- Where the finish times do not decrease, each is no earlier than the last one. -/
theorem timely_run {es : List Event} {b : Board} {w : Work} (hafter : ∀ t ∈ finishTimes es, w.latest ≤ t)
    (htimes : (finishTimes es).Pairwise (· ≤ ·)) : Along follow Timely (b, w) es := by
  induction es generalizing b w with
  | nil => trivial
  | cons e es ih =>
      have hsplit : finishTimes (e :: es) = finishTimes [e] ++ finishTimes es := by
        rw [← List.singleton_append, finishTimes, List.filterMap_append]
        rfl
      rw [hsplit] at hafter htimes
      obtain ⟨-, hrest, hcross⟩ := List.pairwise_append.mp htimes
      constructor
      · cases e with
        | complete id outcome now => exact hafter now List.mem_cons_self
        | _ => trivial
      · intro t ht
        obtain ⟨c, -, rfl⟩ := Option.map_eq_some_iff.mp ht
        refine ih (fun time htime => ?_) hrest
        rcases next_latest w e with heq | hmem
        · rw [heq]
          exact hafter time (List.mem_append_right _ htime)
        · exact hcross _ hmem time htime

theorem agrees_run {es : List Event} {b : Board} (h : exec step new es = some b)
    (htimes : (finishTimes es).Pairwise (· ≤ ·)) (horderly : Along follow Orderly (new, noWork) es) :
    Agrees b (work es) := by
  have htimely : Along follow Timely (new, noWork) es := timely_run (fun _ _ => Nat.zero_le _) htimes
  have hfollow : exec follow (new, noWork) es = some (b, work es) := exec_follow.mpr ⟨h, rfl⟩
  refine exec_invariant_along (I := fun s => Agrees s.1 s.2) (P := fun s e => Timely s e ∧ Orderly s e) ?_ agrees_new
    hfollow (htimely.and horderly)
  intro s t e hs hconditions hstep
  obtain ⟨c, hc, rfl⟩ := Option.map_eq_some_iff.mp hstep
  exact hs.step hconditions.1 hconditions.2 hc

/-- A run that is orderly lists all unfinished tasks and the 100 that finished last. -/
theorem history_latest {es : List Event} {b : Board} (h : exec step new es = some b)
    (htimes : (finishTimes es).Pairwise (· ≤ ·)) (horderly : Along follow Orderly (new, noWork) es) :
    ((b.changes.tasks.filter fun task => !task.state.isFinished).map TaskSummary.job).Perm (work es).unfinished ∧
    ((b.changes.tasks.filter fun task => task.state.isFinished).map TaskSummary.job).Perm ((work es).finished.take 100) ∧
    ∀ job, (work es).finished.head? = some job → ∃ task ∈ b.changes.tasks, task.job = job := by
  have hagrees := agrees_run h htimes horderly
  have hfilter : ∀ p : TaskSummary → Bool, (b.changes.tasks.filter p).map TaskSummary.job =
      (b.entries.filter fun e => p e.summary).map Entry.job := by
    intro p
    rw [hagrees.board.published, List.filter_map, List.map_map]
    rfl
  have hunfinished : (b.entries.filter fun e => !e.summary.state.isFinished) = b.entries.filter Entry.unfinished :=
    List.filter_congr fun e _ => (unfinished_eq e).symm
  have hfinished : (b.entries.filter fun e => e.summary.state.isFinished) =
      b.entries.filter Entry.failed ++ b.entries.filter Entry.succeeded := by
    have hsplit := congrArg (List.filter fun e => !e.unfinished) (split_groups hagrees.sorted)
    have hnone : ((b.entries.filter Entry.unfinished).filter fun e => !e.unfinished) = [] :=
      List.filter_eq_nil_iff.mpr fun e he => by simp [(List.mem_filter.mp he).2]
    have hall : ∀ e ∈ b.entries.filter Entry.failed ++ b.entries.filter Entry.succeeded, (!e.unfinished) = true :=
      fun e he => by simp [(mem_finished he).2]
    rw [List.filter_append, hnone, List.nil_append, List.filter_eq_self.mpr hall] at hsplit
    rw [← hsplit]
    apply List.filter_congr
    intro e _
    rw [unfinished_eq, Bool.not_not]
  have hlisted : ((b.changes.tasks.filter fun task => task.state.isFinished).map TaskSummary.job).Perm
      ((work es).finished.take 100) := by
    rw [hfilter, hfinished, hagrees.finished]
    exact listing_perm _
  refine ⟨?_, hlisted, fun job hjob => ?_⟩
  · rw [hfilter, hunfinished]
    exact hagrees.unfinished
  · obtain ⟨rest, hrest⟩ := List.head?_eq_some_iff.mp hjob
    have hmem : job ∈ (work es).finished.take 100 := by
      rw [hrest, List.take_succ_cons]
      exact List.mem_cons_self
    obtain ⟨task, htask, rfl⟩ := List.mem_map.mp (hlisted.symm.subset hmem)
    exact ⟨task, (List.mem_filter.mp htask).1, rfl⟩

/-- Tasks that are cancelled before they start, one after the other. -/
def cancelledTasks : Nat → List Event
  | 0 => []
  | n + 1 => cancelledTasks n ++
      [.submitOwned n n "Topics" none n, .complete n (.error ⟨"interrupted", "Task cancelled"⟩) n]

def lateSuccess : List Event :=
  cancelledTasks 100 ++ [.submitOwned 100 100 "Topics" none 100, .complete 100 (.ok ()) 100]

theorem success_is_evicted : ∃ b, exec step new lateSuccess = some b ∧ (finishTimes lateSuccess).Pairwise (· ≤ ·) ∧
    (work lateSuccess).finished.head? = some ⟨100, none, true⟩ ∧ ∀ task ∈ b.changes.tasks, task.job ≠ ⟨100, none, true⟩ := by
  have htasks : ((exec step new lateSuccess).map fun b => b.changes.tasks.all fun task => task.job ≠ ⟨100, none, true⟩) =
      some true := by decide +kernel
  obtain ⟨b, hrun, hall⟩ := Option.map_eq_some_iff.mp htasks
  have hlast : (work lateSuccess).finished.head? = some ⟨100, none, true⟩ := by decide +kernel
  refine ⟨b, hrun, by decide +kernel, hlast, fun task htask => ?_⟩
  exact of_decide_eq_true (List.all_eq_true.mp hall task htask)

/-- Up to 100 finished tasks nothing is lost, in whatever way they end. -/
theorem orderly_of_short {s : Board × Work} {e : Event} (h : s.2.finished.length < 100) : Orderly s e := by
  have hdrop : s.2.finished.drop 100 = [] := List.drop_eq_nil_of_le h.le
  cases e with
  | complete id outcome now => exact fun _ hlong => absurd hlong (Nat.not_le.mpr h)
  | dismiss id | purgeAnalysis tabId =>
      refine .inr fun job hjob => ?_
      rw [hdrop] at hjob
      cases hjob
  | _ => trivial

def twoTasks : List Event :=
  [.submitOwned 1 2 "Frequency" none 10, .submitOwned 3 4 "Topics" none 11, .complete 3 (.ok ()) 12,
    .complete 1 (.error ⟨"interrupted", "Task cancelled"⟩) 12]

theorem both_tasks_are_listed : ∃ b, exec step new twoTasks = some b ∧
    ∀ job, (work twoTasks).finished.head? = some job → ∃ task ∈ b.changes.tasks, task.job = job := by
  obtain ⟨b, hrun⟩ : ∃ b, exec step new twoTasks = some b := Option.isSome_iff_exists.mp (by decide)
  have horderly : Along follow Orderly (new, noWork) twoTasks :=
    along_of_check (p := fun s _ => s.2.finished.length < 100) (fun _ _ h => orderly_of_short (of_decide_eq_true h))
      (by decide)
  exact ⟨b, hrun, (history_latest hrun (by decide) horderly).2.2⟩

end Wordflow.Tasks
