import Mathlib.Data.List.Sort
import Mathlib.Data.Rat.Defs
import Wordflow.Library.Run
import Wordflow.Library.Text
import Wordflow.Objects

namespace Wordflow.Tasks

open Objects

abbrev Id := Nat

inductive TaskState
  | queued
  | running
  | cancelling
  | succeeded
  | failed
  | cancelled
  deriving DecidableEq

def TaskState.isFinished : TaskState → Bool
  | .succeeded | .failed | .cancelled => true
  | _ => false

/-- A floating-point number. -/
inductive Fraction
  | finite (value : Rat)
  | notFinite
  deriving DecidableEq

def Fraction.inRange : Fraction → Bool
  | .finite value => 0 ≤ value && value ≤ 1
  | .notFinite => false

structure TaskProgress where
  message : String
  fraction : Option Fraction
  deriving DecidableEq

structure TaskSummary where
  id : Id
  label : String
  tabId : Option Id
  state : TaskState
  createdAt : Nat
  startedAt : Option Nat
  finishedAt : Option Nat
  progress : Option TaskProgress
  error : Option Error
  notice : Option String
  deriving DecidableEq

structure TaskSnapshot where
  revision : Nat
  tasks : List TaskSummary
  deriving DecidableEq

structure Entry where
  summary : TaskSummary
  cancellation : Id
  deriving DecidableEq

/-- Where the execution of an accepted task stands: accepted, past its first
check of the token, past its start update, past its completion. -/
inductive Phase
  | spawned
  | checked
  | started
  | completed
  deriving DecidableEq

structure Execution where
  id : Id
  cancellation : Id
  phase : Phase
  deriving DecidableEq

/-- The task board, and the executions that report to it; `cancelled` are the
tokens cancelled so far. -/
structure Board where
  entries : List Entry
  changes : TaskSnapshot
  closed : Bool
  cancelled : List Id
  executions : List Execution
  deriving DecidableEq

def new : Board where
  entries := []
  changes := ⟨0, []⟩
  closed := false
  cancelled := []
  executions := []

section Publish

def group : TaskState → Nat
  | .succeeded => 2
  | .failed | .cancelled => 1
  | _ => 0

def Entry.time (e : Entry) : Nat := e.summary.finishedAt.getD e.summary.createdAt

/-- The order of the list: by group, then the latest first. -/
def Entry.before (a b : Entry) : Prop :=
  group a.summary.state < group b.summary.state ∨ group a.summary.state = group b.summary.state ∧ b.time ≤ a.time

instance : DecidableRel Entry.before := fun a b => by
  unfold Entry.before
  infer_instance

/-- Keep all unfinished entries and the first 100 finished ones. -/
def retain : Nat → List Entry → List Entry
  | _, [] => []
  | finished, e :: rest =>
      let finished := if e.summary.state.isFinished then finished + 1 else finished
      if finished ≤ 100 ∨ e.summary.state.isFinished = false then e :: retain finished rest else retain finished rest

def publish (b : Board) : Board :=
  let entries := retain 0 (b.entries.insertionSort Entry.before)
  { b with entries := entries, changes := ⟨b.changes.revision + 1, entries.map Entry.summary⟩ }

end Publish

section Calls

/-- Change the first entry with an id. -/
def modifyEntry (id : Id) (change : TaskSummary → TaskSummary) : List Entry → List Entry
  | [] => []
  | e :: rest =>
      if e.summary.id = id then { e with summary := change e.summary } :: rest else e :: modifyEntry id change rest

def findEntry (b : Board) (id : Id) : Option Entry := b.entries.find? fun e => e.summary.id = id

def update (b : Board) (id : Id) (change : TaskSummary → TaskSummary) : Board :=
  match findEntry b id with
  | some _ => publish { b with entries := modifyEntry id change b.entries }
  | none => b

def busy (b : Board) (tabId : Option Id) : Bool :=
  match tabId with
  | none => false
  | some tab => b.entries.any fun e => e.summary.tabId = some tab && !e.summary.state.isFinished

def queuedTask (id : Id) (label : String) (tabId : Option Id) (now : Nat) : TaskSummary where
  id := id
  label := label
  tabId := tabId
  state := .queued
  createdAt := now
  startedAt := none
  finishedAt := none
  progress := none
  error := none
  notice := none

def submitOwned (b : Board) (id cancellation : Id) (label : String) (tabId : Option Id) (now : Nat) :
    Except Error Board :=
  if Library.Text.trim label = "" then .error (.invalid "Task label cannot be empty")
  else if busy b tabId then .error ⟨"analysis_busy", "This analysis already has a running task"⟩
  else
    .ok (publish { b with
      entries := b.entries ++ [⟨queuedTask id label tabId now, cancellation⟩]
      executions := b.executions ++ [⟨id, cancellation, .spawned⟩] })

/-- The update an execution begins with. -/
def startTask (now : Nat) (task : TaskSummary) : TaskSummary :=
  { task with
    state := if task.state = .queued then .running else task.state
    startedAt := some now }

def reportProgress (message : String) (fraction : Option Fraction) (task : TaskSummary) : TaskSummary :=
  if task.state.isFinished then task else { task with progress := some ⟨message, fraction.filter Fraction.inRange⟩ }

def reportNotice (message : String) (task : TaskSummary) : TaskSummary := { task with notice := some message }

/-- The update an execution ends with. -/
def completeTask (now : Nat) (outcome : Except Error Unit) (task : TaskSummary) : TaskSummary :=
  match outcome with
  | .ok _ => { task with finishedAt := some now, state := .succeeded }
  | .error e =>
      if e.code = "interrupted" then { task with finishedAt := some now, state := .cancelled }
      else { task with finishedAt := some now, state := .failed, error := some e }

def ownedBy (tabId : Id) (e : Entry) : Bool := e.summary.tabId = some tabId

def purgeAnalysis (b : Board) (tabId : Id) : Board :=
  publish { b with
    entries := b.entries.filter fun e => !ownedBy tabId e
    cancelled := b.cancelled ++ (b.entries.filter (ownedBy tabId)).map Entry.cancellation }

def renameAnalysis (b : Board) (tabId : Id) (name : String) : Board :=
  publish { b with
    entries := b.entries.map fun e =>
      if ownedBy tabId e then { e with summary := { e.summary with label := name } } else e }

def cancelling (task : TaskSummary) : TaskSummary := { task with state := .cancelling }

def cancel (b : Board) (id : Id) : Except Error Board :=
  match findEntry b id with
  | none => .error ⟨"task_not_found", "Task is no longer available"⟩
  | some e =>
      if e.summary.state.isFinished then .ok b
      else
        .ok (publish { b with
          entries := modifyEntry id cancelling b.entries
          cancelled := b.cancelled ++ [e.cancellation] })

def dismiss (b : Board) (id : Id) : Except Error Board :=
  match (findEntry b id).filter fun e => !e.summary.state.isFinished with
  | some _ => .error ⟨"task_active", "Finish or cancel the task before dismissing it"⟩
  | none => .ok (publish { b with entries := b.entries.filter fun e => e.summary.id ≠ id })

def cancelAll (b : Board) : Board :=
  publish { b with
    entries := b.entries.map fun e =>
      if e.summary.state.isFinished then e else { e with summary := cancelling e.summary }
    cancelled := b.cancelled ++ (b.entries.filter fun e => !e.summary.state.isFinished).map Entry.cancellation }

def close (b : Board) : Board := publish { b with closed := true, entries := [] }

end Calls

/-- One locked section of a call, or of the execution of an accepted task. -/
inductive Event
  | submitOwned (id cancellation : Id) (label : String) (tabId : Option Id) (now : Nat)
  | check (id : Id)
  | start (id : Id) (now : Nat)
  | progress (id : Id) (message : String) (fraction : Option Fraction)
  | notice (id : Id) (message : String)
  | complete (id : Id) (outcome : Except Error Unit) (now : Nat)
  | cancel (id : Id)
  | cancelAll
  | purgeAnalysis (tabId : Id)
  | renameAnalysis (tabId : Id) (name : String)
  | dismiss (id : Id)
  | close

/-- A call that fails leaves the board as it was. -/
def orKeep (b : Board) (result : Except Error Board) : Board :=
  match result with
  | .ok c => c
  | .error _ => b

def phase? (b : Board) (id : Id) : Option Phase := (b.executions.find? fun x => x.id = id).map Execution.phase

def setPhase (b : Board) (id : Id) (phase : Phase) : Board :=
  { b with executions := b.executions.map fun x => if x.id = id then { x with phase := phase } else x }

/-- The token of an accepted execution is still live. -/
def live (b : Board) (id : Id) : Bool := b.executions.any fun x => x.id = id && !b.cancelled.contains x.cancellation

/-- The steps of the calls and of the executions. An id is fresh; an execution
checks its token, starts, and completes at most once, also without starting
where the check fails or the worker breaks down; whoever holds the context of
an execution may report at any time. -/
def step (b : Board) : Event → Option Board
  | .submitOwned id cancellation label tabId now =>
      if phase? b id = none then some (orKeep b (submitOwned b id cancellation label tabId now)) else none
  | .check id => if phase? b id = some .spawned ∧ live b id = true then some (setPhase b id .checked) else none
  | .start id now =>
      if phase? b id = some .checked then some (update (setPhase b id .started) id (startTask now)) else none
  | .progress id message fraction =>
      if (phase? b id).isSome then some (update b id (reportProgress message fraction)) else none
  | .notice id message => if (phase? b id).isSome then some (update b id (reportNotice message)) else none
  | .complete id outcome now =>
      if (phase? b id).isSome ∧ phase? b id ≠ some .completed then
        some (update (setPhase b id .completed) id (completeTask now outcome))
      else none
  | .cancel id => some (orKeep b (cancel b id))
  | .cancelAll => some (cancelAll b)
  | .purgeAnalysis tabId => some (purgeAnalysis b tabId)
  | .renameAnalysis tabId name => some (renameAnalysis b tabId name)
  | .dismiss id => some (orKeep b (dismiss b id))
  | .close => some (close b)

end Wordflow.Tasks
