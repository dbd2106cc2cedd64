import Mathlib.Data.Nat.Basic
import Wordflow.Library.OrderedMap
import Wordflow.Library.Run
import Wordflow.Objects

namespace Wordflow.TopicPreviews

open Library.OrderedMap Objects

abbrev Uuid := Nat

/-- How far the first fit of a preview is: at work, past its check of the
cancellation, past its update of the slot. -/
inductive Fit
  | running
  | admitted
  | ended
  deriving DecidableEq

/-- A preview; its model is known by the revision of its projection, and
`listed` while the map of previews has it. -/
structure Preview where
  tab : Uuid
  cancelled : Bool
  finished : Bool
  listed : Bool
  fit : Fit
  model : Option Uuid
  deriving DecidableEq

inductive AdjustPhase
  | begun
  | cloned (base : Uuid)
  | registered (base : Uuid)
  | checked (base : Uuid)
  | adjusted (next : Uuid)
  | admitted (next : Uuid)
  | ended (result : Except Error Uuid)
  | returned (result : Except Error Uuid)

/-- A call of `adjust_topic_preview` with the token of its operation. -/
structure Adjust where
  preview : Uuid
  expectedProjection : Uuid
  cancelled : Bool
  phase : AdjustPhase

/-- A run of `release_topic_previews`: the previews it still has to empty, and
whether it has cancelled the first of them. -/
structure Release where
  collected : List Uuid
  pending : List Uuid
  waiting : Bool
  deriving DecidableEq

structure Delete where
  preview : Uuid
  returned : Bool
  deriving DecidableEq

/-- The maps of the runtime, with the calls at work; `adjustments` holds, for a
preview, the adjustment that is current. -/
structure State where
  previews : Map Uuid Preview
  adjustments : Map Uuid Uuid
  adjusts : Map Uuid Adjust
  deletes : Map Uuid Delete
  releases : Map Uuid Release
  revisions : List Uuid

def start : State := ⟨.empty, .empty, .empty, .empty, .empty, []⟩

def interrupted : Error := ⟨"interrupted", "Operation interrupted"⟩

def expired : Error := ⟨"preview_expired", "This Preview has expired. Click Preview to sample again."⟩

def notReady : Error := ⟨"preview_not_ready", "Preview is still calculating"⟩

def stale : Error :=
  ⟨"topic_adjustment_stale", "The Topic Preview changed. Refresh and retry this adjustment."⟩

def staleResult : Error :=
  ⟨"topic_adjustment_stale", "The Topic result changed. Refresh and retry this adjustment."⟩

section Steps

variable (s : State)

def setPreview (id : Uuid) (change : Preview → Preview) : State :=
  { s with previews := s.previews.modify id change }

def setAdjust (id : Uuid) (change : Adjust → Adjust) : State :=
  { s with adjusts := s.adjusts.modify id change }

def Preview.cancel (p : Preview) : Preview := { p with cancelled := true }

def Preview.clear (p : Preview) : Preview := { p with model := none }

def Adjust.cancel (a : Adjust) : Adjust := { a with cancelled := true }

def Adjust.enter (phase : AdjustPhase) (a : Adjust) : Adjust := { a with phase := phase }

/-- The lookup of a preview by its tab. -/
def topicPreview (tab id : Uuid) : Except Error Preview :=
  match (s.previews.get? id).filter fun p => p.listed && p.tab = tab && !p.cancelled with
  | some p => .ok p
  | none => .error expired

/-- Make an adjustment the current one of its preview, and cancel the one before. -/
def register (id key : Uuid) : State :=
  let previous := s.adjustments.get? key
  let s := { s with adjustments := s.adjustments.insert key id }
  match previous with
  | some previous => setAdjust s previous Adjust.cancel
  | none => s

def finishTopicAdjustment (id key : Uuid) : State :=
  if s.adjustments.get? key = some id then { s with adjustments := s.adjustments.remove key } else s

/-- Cancel a preview and its current adjustment. -/
def cancelForRelease (id : Uuid) : State :=
  let s := setPreview s id Preview.cancel
  match s.adjustments.get? id with
  | some adjust => setAdjust s adjust Adjust.cancel
  | none => s

def fresh (revision : Uuid) : Bool := !s.revisions.contains revision

/-- The update of the slot under its lock. -/
def commit (id : Uuid) (a : Adjust) (next : Uuid) : State :=
  match s.previews.get? a.preview with
  | some p =>
      if p.model = some a.expectedProjection then
        setAdjust (setPreview s a.preview fun p => { p with model := some next }) id (Adjust.enter (.ended (.ok next)))
      else setAdjust s id (Adjust.enter (.ended (.error stale)))
  | none => setAdjust s id (Adjust.enter (.ended (.error stale)))

end Steps

inductive Event
  | openPreview (id tab : Uuid)
  | fitted (id : Uuid) (success : Bool)
  | publish (id revision : Uuid)
  | finish (id : Uuid)
  | dropLease (id : Uuid)
  | cancel (id : Uuid)
  | adjust (id preview tab expectedProjection : Uuid)
  | clone (id : Uuid)
  | register (id : Uuid)
  | check (id : Uuid)
  | compute (id : Uuid) (outcome : Except Error Uuid)
  | recheck (id : Uuid)
  | commit (id : Uuid)
  | fail (id : Uuid) (error : Error)
  | interrupt (id : Uuid)
  | finishAdjust (id : Uuid)
  | release (id tab : Uuid)
  | releaseNext (id : Uuid)
  | releaseEmpty (id : Uuid)
  | delete (id preview tab : Uuid)
  | deleteEmpty (id : Uuid)

/-- The preview of an adjustment is cancelled. -/
def ownerCancelled (s : State) (a : Adjust) : Bool := (s.previews.get? a.preview).all Preview.cancelled

/-- One locked section, one check of a token, or one computation. -/
def step (s : State) : Event → Option State
  | .openPreview id tab =>
      if s.previews.contains id then none
      else some { s with previews := s.previews.insert id ⟨tab, false, false, true, .running, none⟩ }
  | .fitted id success =>
      match s.previews.get? id with
      | some ⟨_, cancelled, _, _, .running, _⟩ =>
          some (setPreview s id fun p => { p with fit := if success && !cancelled then .admitted else .ended })
      | _ => none
  | .publish id revision =>
      match s.previews.get? id with
      | some ⟨_, _, _, _, .admitted, _⟩ =>
          if fresh s revision then
            some { setPreview s id fun p => { p with fit := .ended, model := some revision } with
              revisions := revision :: s.revisions }
          else none
      | _ => none
  | .finish id =>
      match s.previews.get? id with
      | some ⟨_, _, _, _, .ended, _⟩ => some (setPreview s id fun p => { p with finished := true })
      | _ => none
  | .dropLease id => some (setPreview s id fun p => { p with cancelled := true, listed := false })
  | .cancel id => some (setPreview s id Preview.cancel)
  | .adjust id preview tab expectedProjection =>
      if s.adjusts.contains id then none
      else
        match topicPreview s tab preview with
        | .ok _ => some { s with adjusts := s.adjusts.insert id ⟨preview, expectedProjection, false, .begun⟩ }
        | .error e =>
            some { s with adjusts := s.adjusts.insert id ⟨preview, expectedProjection, false, .returned (.error e)⟩ }
  | .clone id =>
      match s.adjusts.get? id with
      | some ⟨preview, _, _, .begun⟩ =>
          match (s.previews.get? preview).bind Preview.model with
          | some base => some (setAdjust s id (Adjust.enter (.cloned base)))
          | none => some (setAdjust s id (Adjust.enter (.returned (.error notReady))))
      | _ => none
  | .register id =>
      match s.adjusts.get? id with
      | some ⟨preview, _, _, .cloned base⟩ =>
          some (register (setAdjust s id (Adjust.enter (.registered base))) id preview)
      | _ => none
  | .check id =>
      match s.adjusts.get? id with
      | some ⟨preview, expectedProjection, cancelled, .registered base⟩ =>
          let phase := if ownerCancelled s ⟨preview, expectedProjection, cancelled, .registered base⟩ then
            .ended (.error interrupted) else .checked base
          some (setAdjust s id (Adjust.enter phase))
      | _ => none
  | .compute id outcome =>
      match s.adjusts.get? id with
      | some ⟨_, expectedProjection, _, .checked base⟩ =>
          if base ≠ expectedProjection then some (setAdjust s id (Adjust.enter (.ended (.error staleResult))))
          else
            match outcome with
            | .error e => some (setAdjust s id (Adjust.enter (.ended (.error e))))
            | .ok next =>
                if fresh s next then
                  some { setAdjust s id (Adjust.enter (.adjusted next)) with revisions := next :: s.revisions }
                else none
      | _ => none
  | .recheck id =>
      match s.adjusts.get? id with
      | some ⟨preview, expectedProjection, cancelled, .adjusted next⟩ =>
          let interrupted? := cancelled || ownerCancelled s ⟨preview, expectedProjection, cancelled, .adjusted next⟩
          some (setAdjust s id (Adjust.enter (if interrupted? then .ended (.error interrupted) else .admitted next)))
      | _ => none
  | .commit id =>
      match s.adjusts.get? id with
      | some ⟨preview, expectedProjection, cancelled, .admitted next⟩ =>
          some (commit s id ⟨preview, expectedProjection, cancelled, .admitted next⟩ next)
      | _ => none
  | .fail id error =>
      match s.adjusts.get? id with
      | some ⟨_, _, _, .registered _⟩ | some ⟨_, _, _, .checked _⟩ =>
          some (setAdjust s id (Adjust.enter (.ended (.error error))))
      | _ => none
  | .interrupt id => some (setAdjust s id Adjust.cancel)
  | .finishAdjust id =>
      match s.adjusts.get? id with
      | some ⟨preview, _, _, .ended result⟩ =>
          some (setAdjust (finishTopicAdjustment s id preview) id fun a => (a.enter (.returned result)).cancel)
      | _ => none
  | .release id tab =>
      if s.releases.contains id then none
      else
        let previews := (s.previews.entries.filter fun e => e.2.listed && e.2.tab = tab).map Prod.fst
        some { s with releases := s.releases.insert id ⟨previews, previews, false⟩ }
  | .releaseNext id =>
      match s.releases.get? id with
      | some ⟨collected, preview :: rest, false⟩ =>
          some { cancelForRelease s preview with releases := s.releases.insert id ⟨collected, preview :: rest, true⟩ }
      | _ => none
  | .releaseEmpty id =>
      match s.releases.get? id with
      | some ⟨collected, preview :: rest, true⟩ =>
          if (s.previews.get? preview).any Preview.finished then
            some { setPreview s preview Preview.clear with releases := s.releases.insert id ⟨collected, rest, false⟩ }
          else none
      | _ => none
  | .delete id preview tab =>
      if s.deletes.contains id then none
      else
        match topicPreview s tab preview with
        | .ok _ =>
            some { setPreview s preview Preview.cancel with deletes := s.deletes.insert id ⟨preview, false⟩ }
        | .error _ => some s
  | .deleteEmpty id =>
      match s.deletes.get? id with
      | some ⟨preview, false⟩ =>
          if (s.previews.get? preview).any Preview.finished then
            some { setPreview s preview Preview.clear with deletes := s.deletes.insert id ⟨preview, true⟩ }
          else none
      | _ => none

end Wordflow.TopicPreviews
