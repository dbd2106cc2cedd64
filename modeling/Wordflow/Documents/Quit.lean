import Mathlib.Data.List.Perm.Basic
import Mathlib.Logic.Function.Basic
import Wordflow.Library.Run
import Wordflow.Objects

namespace Wordflow.Documents

open Library.Run Objects

/-- A window by the number its label is made of. -/
abbrev Label := Nat

abbrev Outcome := Except Error Bool

/-- Where a call of `close_all` is: refused by `try_lock` and not yet in line,
in line for the lock, at the opening gate, closing windows, holding the approval. -/
inductive Stage
  | idle
  | refused
  | waiting
  | settling
  | closing (labels : List Label)
  | approved
  deriving DecidableEq

/-- Who holds the opening gate: `open_window` before and after it registers its
window, or a save or an export. -/
inductive Gate
  | opening
  | building (label : Label)
  | saving
  deriving DecidableEq

/-- `quit` is the lock as its holder, then the calls in line for it in the order
they are served; `outcome` is what the lock guards. `windows` are the labels of
the registry, `live` the windows that exist. -/
structure State where
  quit : List Nat
  outcome : Option Outcome
  call : Nat → Stage
  gate : Option Gate
  sequence : Nat
  windows : List Label
  live : List Label

def start : State := ⟨[], none, fun _ => .idle, none, 0, [], []⟩

/-- `ended` is a veto or a failure in the middle of closing, `next` a window that
is gone; `destroy` and `unregister` are the two halves of any window's close. -/
inductive Event
  | enter
  | insert
  | leave
  | built (success : Bool)
  | save
  | saved
  | destroy (label : Label)
  | unregister (label : Label)
  | closeAll (call : Nat) (taken : Bool)
  | wait (call : Nat)
  | resume (call : Nat) (result : Outcome)
  | snapshot (call : Nat) (labels : List Label)
  | next (call : Nat)
  | ended (call : Nat) (result : Outcome)
  | approve (call : Nat)
  | allowExit (call : Nat)
  | abandon (call : Nat)
  | intercept (proceeds : Bool)

section Steps

variable (s : State)

def permitted : Bool := s.outcome matches some (.ok true)

/-- The check of `open_window`. -/
def admits : Bool := s.quit.isEmpty && !permitted s

def interceptExit : Bool := s.quit.isEmpty && permitted s

def verdict (outcome : Option Outcome) : Outcome := outcome.getD (.ok false)

def setCall (c : Nat) (stage : Stage) : State := { s with call := Function.update s.call c stage }

/-- The call returns and its guard is dropped: the next in line has the lock. -/
def release (c : Nat) : State :=
  { setCall s c .idle with quit := s.quit.tail }

def tryLock (c : Nat) (taken : Bool) : Option State :=
  match s.quit, taken with
  | [], true => some { setCall s c .settling with quit := [c], outcome := none }
  | _ :: _, false => some (setCall s c .refused)
  | _, _ => none

def resume (c : Nat) (result : Outcome) : Option State :=
  if result = verdict s.outcome then
    match result with
    | .ok true => some (setCall s c .approved)
    | _ => some (release s c)
  else none

def build (label : Label) (success : Bool) : State :=
  if success then { s with live := label :: s.live, gate := none }
  else { s with windows := s.windows.erase label, gate := none }

end Steps

def step (s : State) : Event → Option State
  | .enter => if s.gate = none then some { s with gate := some .opening } else none
  | .insert =>
      if s.gate = some .opening ∧ admits s then
        some { s with
          gate := some (.building s.sequence)
          windows := s.sequence :: s.windows
          sequence := s.sequence + 1 }
      else none
  | .leave => if s.gate = some .opening then some { s with gate := none } else none
  | .built success =>
      match s.gate with
      | some (.building label) => some (build s label success)
      | _ => none
  | .save => if s.gate = none then some { s with gate := some .saving } else none
  | .saved => if s.gate = some .saving then some { s with gate := none } else none
  | .destroy label => if label ∈ s.live then some { s with live := s.live.erase label } else none
  | .unregister label =>
      if label ∈ s.windows ∧ label ∉ s.live ∧ s.gate ≠ some (.building label) then
        some { s with windows := s.windows.erase label }
      else none
  | .closeAll c taken => if s.call c = .idle then tryLock s c taken else none
  | .wait c =>
      if s.call c = .refused then some { setCall s c .waiting with quit := s.quit ++ [c] } else none
  | .resume c result =>
      if s.call c = .waiting ∧ s.quit.head? = some c then resume s c result else none
  | .snapshot c labels =>
      if s.call c = .settling ∧ s.gate = none ∧ labels.isPerm s.windows then
        some (setCall s c (.closing labels))
      else none
  | .next c =>
      match s.call c with
      | .closing (label :: labels) =>
          if label ∈ s.live then none else some (setCall s c (.closing labels))
      | _ => none
  | .ended c result =>
      match s.call c with
      | .closing (_ :: _) =>
          if result = .ok true then none else some { release s c with outcome := some result }
      | _ => none
  | .approve c => if s.call c = .closing [] then some (setCall s c .approved) else none
  | .allowExit c =>
      if s.call c = .approved then some { release s c with outcome := some (.ok true) } else none
  | .abandon c => if s.call c = .approved then some (release s c) else none
  | .intercept proceeds => if proceeds = interceptExit s then some s else none

end Wordflow.Documents
