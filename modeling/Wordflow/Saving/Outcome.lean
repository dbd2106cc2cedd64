import Wordflow.Saving.Safety

namespace Wordflow.Saving

open Library.HardLinks Library.Run Objects

variable {Name V : Type} [DecidableEq Name] {s t : State Name V} {w : Work Name} {stage : Stage} {copy i : Nat}
  {display : Nat → String} {es before : List (Event Name V)}

section Spared

variable {fails : Bool} {error first : Error} {lock : Option Nat} {name : Name}

/-- A Save As is about to replace the file that it holds at its destination. -/
def Replaces (s : State Name V) (name : Name) : Prop :=
  ∃ w lock copy, s.work = some (w, .install (some lock) copy) ∧ w.rename = false ∧ w.path.name = name

/-- The file of another program at a name, with what it contains. -/
structure Stays (s t : State Name V) (name : Name) (i : Nat) : Prop where
  entry : t.disk.entry (.path name) = some i
  contents : t.disk.contents i = s.disk.contents i

omit [DecidableEq Name] in
/-- A name whose file is not held is no name of a held one. -/
theorem ne_of_held {d : Disk (Place Name) (List V)} {p q : Place Name} {j : Nat} (hp : d.entry p = some i)
    (hi : s.held i = false) (hq : d.entry q = some j) (hj : s.held j = true) : p ≠ q := by
  rintro rfl
  rw [hp] at hq
  obtain rfl := Option.some.inj hq
  simp [hi] at hj

omit [DecidableEq Name] in
theorem stays_goto {stage' : Stage} (hp : s.disk.entry (.path name) = some i) : Stays s (s.goto w stage') name i := ⟨hp, rfl⟩

theorem stays_unlink {p : Place Name} {stage' : Stage} (hp : s.disk.entry (.path name) = some i) (hne : .path name ≠ p) :
    Stays s ({ s with disk := s.disk.unlink p }.goto w stage') name i :=
  ⟨(Disk.unlink_of_ne hne).trans hp, rfl⟩

theorem stays_point {src dst : Place Name} {stage' : Stage} (hp : s.disk.entry (.path name) = some i)
    (hne : .path name ≠ dst) : Stays s ({ s with disk := s.disk.point src dst }.goto w stage') name i :=
  ⟨(Disk.point_of_ne hne).trans hp, rfl⟩

theorem stays_move {src dst : Place Name} {stage' : Stage} (hp : s.disk.entry (.path name) = some i)
    (hsrc : .path name ≠ src) (hdst : .path name ≠ dst) :
    Stays s ({ s with disk := (s.disk.point src dst).unlink src }.goto w stage') name i :=
  ⟨(Disk.unlink_of_ne hsrc).trans ((Disk.point_of_ne hdst).trans hp), rfl⟩

omit [DecidableEq Name] in
theorem stays_checkpoint {stage' : Stage} (hp : s.disk.entry (.path name) = some i) (hi : s.held i = false) :
    Stays s (s.checkpoint.goto w stage') name i := by
  refine ⟨hp, Disk.write_of_ne _ ?_⟩
  rintro rfl
  simp [held_file] at hi

/-- An operation of a save touches no file of another program, the destination
that a Save As holds apart. -/
theorem perform_stays (hw : Whole s) (hwork : s.work = some (w, stage)) (hp : s.disk.entry (.path name) = some i)
    (hi : s.held i = false) (hspared : ¬Replaces s name) :
    Stays s (perform s display w fails error stage) name i := by
  have hmade {j : Nat} {q : Place Name} (hj : stage.made = some j) (hq : s.disk.entry q = some j) : .path name ≠ q :=
    ne_of_held hp hi hq (held_made hwork hj)
  have hfile {q : Place Name} (hq : s.disk.entry q = some s.file) : .path name ≠ q := ne_of_held hp hi hq held_file
  have hstands := hw.stands _ _ hwork
  cases stage with
  | checkpointHere | checkpoint =>
      cases fails
      · exact stays_checkpoint hp hi
      · exact stays_goto hp
  | stage | prepare =>
      cases fails
      · exact stays_goto hp
      · exact stays_goto hp
  | lockDestination =>
      rcases lockDestination_cases s w fails error with ⟨-, heq⟩ | ⟨-, heq⟩ | heq <;> rw [perform, heq] <;> exact stays_goto hp
  | copyFile lock =>
      rcases copyFile_cases s w fails error lock with ⟨j, -, heq⟩ | heq <;> rw [perform, heq]
      · exact ⟨(Disk.create_of_ne _ (by simp)).trans hp, Disk.create_contents _ (s.disk.bounded _ i hp)⟩
      · exact stays_goto hp
  | setAside lock copy =>
      rcases setAside_cases s w fails error lock copy with ⟨j, -, -, heq⟩ | ⟨-, heq⟩ | heq <;> rw [perform, heq]
      · exact stays_move hp (hfile hstands.1) (by simp)
      · exact stays_goto hp
      · exact stays_goto hp
  | install lock copy =>
      rcases install_cases s w fails error lock copy with ⟨j, hlock, -, heq⟩ | ⟨j, hfree, -, heq⟩ | ⟨-, heq⟩ | ⟨-, heq⟩ <;>
        rw [perform, heq]
      · obtain ⟨held, rfl⟩ := Option.isSome_iff_exists.mp hlock
        have hrename : w.rename = false := (hw.asked _ _ hwork rfl).lock rfl
        refine stays_move hp (by simp) ?_
        intro hname
        exact hspared ⟨w, held, copy, hwork, hrename, (Place.path.inj hname).symm⟩
      · refine stays_point hp ?_
        rintro hname
        rw [hname, hfree] at hp
        cases hp
      · exact stays_goto hp
      · exact stays_goto hp
  | reopen copy =>
      rcases reopen_cases s w fails error copy with ⟨j, -, heq⟩ | heq <;> rw [perform, heq] <;> exact stays_goto hp
  | discard copy first =>
      rcases removeCopy_cases s w fails with heq | heq <;> rw [perform, heq]
      · exact stays_goto hp
      · exact stays_unlink hp (hmade rfl hstands.2.2.1)
  | restore first =>
      rcases restore_cases s w fails error first display with ⟨j, -, -, hfree, heq⟩ | ⟨-, heq⟩ | ⟨-, heq⟩ <;> rw [perform, heq]
      · refine stays_point hp ?_
        rintro hname
        rw [hname, hfree] at hp
        cases hp
      · exact ⟨hp, rfl⟩
      · exact stays_goto hp
  | moveAway copy =>
      rcases moveAway_cases s w fails error copy with ⟨j, -, heq⟩ | heq <;> rw [perform, heq]
      · exact stays_move hp (hfile hstands.2.2.1) (by simp)
      · exact stays_goto hp
  | withdraw copy first =>
      rcases removeCopy_cases s w fails with heq | heq <;> rw [perform, heq]
      · exact stays_goto hp
      · exact stays_unlink hp (hmade rfl hstands.2.2)
  | replace copy =>
      refine ⟨?_, ?_⟩
      · change (if s.temporary then s.disk.unlink _ else s.disk).entry _ = _
        split
        · next htemporary =>
            have hrename : w.rename = false := (hw.asked _ _ hwork rfl).file htemporary
            rw [Disk.unlink_of_ne (hfile (hstands.1 hrename))]
            exact hp
        · exact hp
      · change (if s.temporary then s.disk.unlink _ else s.disk).contents _ = _
        split <;> rfl
  | info => exact stays_goto hp
  | leave result =>
      refine ⟨?_, ?_⟩
      · change (if fails then s.disk else _).entry _ = _
        split
        · exact hp
        · rw [Disk.unlink_of_ne (by simp), Disk.unlink_of_ne (by simp)]
          exact hp
      · change (if fails then s.disk else _).contents _ = _
        split <;> rfl

omit [DecidableEq Name] in
theorem held_goto {d : Disk (Place Name) (List V)} {stage' : Stage} (hnone : s.backups = [])
    (h : ({ s with disk := d }.goto w stage').held i = true) : i = s.file ∨ stage'.made = some i := by
  simpa [State.held, State.goto, hnone] using h

omit [DecidableEq Name] in
/-- Another stage of a save that has made nothing else. -/
theorem held_next {d : Disk (Place Name) (List V)} {stage' : Stage} (hnone : s.backups = [])
    (hwork : s.work = some (w, stage)) (hmade : ∀ j, stage'.made = some j → stage.made = some j)
    (h : ({ s with disk := d }.goto w stage').held i = true) : s.held i = true := by
  rcases held_goto hnone h with rfl | hi
  · exact held_file
  · exact held_made hwork (hmade i hi)

/-- A save comes to hold nothing but the copy that it makes. -/
theorem perform_held (hw : Whole s) (hnone : s.backups = []) (hwork : s.work = some (w, stage))
    (hback : (perform s display w fails error stage).backups = [])
    (h : (perform s display w fails error stage).held i = true) : s.held i = true ∨ i = s.disk.next := by
  have hfree (stage' : Stage) (hmade : stage'.made = none) (d : Disk (Place Name) (List V))
      (h : ({ s with disk := d }.goto w stage').held i = true) : s.held i = true ∨ i = s.disk.next :=
    .inl (held_next hnone hwork (fun j hj => by simp [hmade] at hj) h)
  have hstands := hw.stands _ _ hwork
  cases stage with
  | checkpointHere | checkpoint =>
      cases fails
      · rcases held_goto (s := s.checkpoint) hnone h with rfl | hi
        · exact .inl held_file
        · cases hi
      · exact hfree _ rfl _ h
  | stage =>
      cases fails
      · exact hfree _ rfl _ h
      · exact hfree _ rfl _ h
  | prepare lock copy =>
      cases fails
      · exact .inl (held_next hnone hwork (fun j hj => hj) h)
      · exact hfree _ rfl _ h
  | lockDestination =>
      rcases lockDestination_cases s w fails error with ⟨-, heq⟩ | ⟨-, heq⟩ | heq <;> rw [perform, heq] at h <;>
        exact hfree _ rfl _ h
  | copyFile lock =>
      rcases copyFile_cases s w fails error lock with ⟨j, -, heq⟩ | heq <;> rw [perform, heq] at h
      · rcases held_goto hnone h with rfl | hi
        · exact .inl held_file
        · exact .inr (Option.some.inj hi).symm
      · exact hfree _ rfl _ h
  | setAside lock copy =>
      rcases setAside_cases s w fails error lock copy with ⟨j, -, -, heq⟩ | ⟨-, heq⟩ | heq <;> rw [perform, heq] at h
      · exact .inl (held_next hnone hwork (fun j hj => hj) h)
      · exact .inl (held_next hnone hwork (fun j hj => hj) h)
      · exact hfree _ rfl _ h
  | install lock copy =>
      rcases install_cases s w fails error lock copy with ⟨j, -, -, heq⟩ | ⟨j, -, -, heq⟩ | ⟨-, heq⟩ | ⟨-, heq⟩ <;>
        rw [perform, heq] at h
      · exact .inl (held_next hnone hwork (fun j hj => hj) h)
      · exact .inl (held_next hnone hwork (fun j hj => hj) h)
      · exact hfree _ rfl _ h
      · exact hfree _ rfl _ h
  | reopen copy =>
      rcases reopen_cases s w fails error copy with ⟨j, hj, heq⟩ | heq <;> rw [perform, heq] at h
      · obtain rfl : copy = j := Option.some.inj (hstands.2.1.symm.trans hj)
        refine .inl (held_next hnone hwork (fun j hj => ?_) h)
        split at hj <;> exact hj
      · refine .inl (held_next hnone hwork (fun j hj => ?_) h)
        split at hj
        · exact hj
        · cases hj
  | discard copy first =>
      rcases removeCopy_cases s w fails with heq | heq <;> rw [perform, heq] at h <;> exact hfree _ rfl _ h
  | restore first =>
      rcases restore_cases s w fails error first display with ⟨j, -, -, hfree', heq⟩ | ⟨-, heq⟩ | ⟨-, heq⟩ <;>
        rw [perform, heq] at h hback
      · exact hfree _ rfl _ h
      · simp [retain] at hback
      · exact hfree _ rfl _ h
  | moveAway copy =>
      rcases moveAway_cases s w fails error copy with ⟨j, -, heq⟩ | heq <;> rw [perform, heq] at h
      · exact .inl (held_next hnone hwork (fun j hj => hj) h)
      · exact .inl (held_next hnone hwork (fun j hj => hj) h)
  | withdraw copy first =>
      rcases removeCopy_cases s w fails with heq | heq <;> rw [perform, heq] at h <;> exact hfree _ rfl _ h
  | replace copy =>
      obtain rfl : i = copy := by simpa [perform, replace, State.held, State.goto, Stage.made, hnone] using h
      exact .inl (held_made hwork rfl)
  | info => exact hfree _ rfl _ h
  | leave result =>
      obtain rfl : i = s.file := by simpa [perform, leave, State.held, hnone] using h
      exact .inl held_file

/-- An event that leaves the file of another program alone where it is not about
it, a Save As that replaces it apart. -/
def Spares (name : Name) (i : Nat) (s : State Name V) : Event Name V → Prop
  | .other act => ∀ d, others s.held Place.shared s.disk act = some d →
      d.entry (.path name) = s.disk.entry (.path name) ∧ d.contents i = s.disk.contents i
  | .proceed _ _ => ¬Replaces s name
  | .commit _ | .checkpoint | .save _ _ => True

theorem step_backups {e : Event Name V} (hstep : step display s e = some t) (hnone : t.backups = []) : s.backups = [] := by
  cases e with
  | commit change =>
      obtain ⟨-, heq⟩ := Option.ite_none_right_eq_some.mp hstep
      obtain rfl := Option.some.inj heq
      exact hnone
  | checkpoint =>
      obtain ⟨-, heq⟩ := Option.ite_none_right_eq_some.mp hstep
      obtain rfl := Option.some.inj heq
      exact hnone
  | save path rename =>
      obtain ⟨-, heq⟩ := Option.ite_none_right_eq_some.mp hstep
      obtain ⟨w, stage, hgoes, -⟩ := saveTo_cases s path rename
      rw [hgoes] at heq
      obtain rfl := Option.some.inj heq
      exact hnone
  | proceed fails error =>
      obtain ⟨⟨w, stage⟩, -, rfl⟩ := Option.map_eq_some_iff.mp hstep
      rcases perform_reports display s w fails error stage with ⟨hbackups, -⟩ | ⟨first, rfl, -, heq⟩
      · exact hbackups ▸ hnone
      · dsimp only at hnone
        rw [heq] at hnone
        simp [retain] at hnone
  | other act =>
      obtain ⟨d, -, rfl⟩ := Option.map_eq_some_iff.mp hstep
      exact hnone

/-- A file of another program, which it stays. -/
structure Foreign (name : Name) (i : Nat) (contents : List V) (s : State Name V) : Prop where
  entry : s.disk.entry (.path name) = some i
  contents : s.disk.contents i = contents
  held : s.held i = false

theorem foreign_step {e : Event Name V} {c : List V} (hsafe : Safe display s) (hnone : t.backups = [])
    (hstep : step display s e = some t) (hspares : Spares name i s e) (h : Foreign name i c s) : Foreign name i c t := by
  have hback := step_backups hstep hnone
  have hfile : i ≠ s.file := by
    rintro rfl
    exact absurd h.held (by simp [held_file])
  cases e with
  | commit change =>
      obtain ⟨-, heq⟩ := Option.ite_none_right_eq_some.mp hstep
      exact Option.some.inj heq ▸ ⟨h.entry, h.contents, h.held⟩
  | checkpoint =>
      obtain ⟨-, heq⟩ := Option.ite_none_right_eq_some.mp hstep
      exact Option.some.inj heq ▸ ⟨h.entry, (Disk.write_of_ne _ hfile).trans h.contents, h.held⟩
  | save path rename =>
      obtain ⟨-, heq⟩ := Option.ite_none_right_eq_some.mp hstep
      obtain ⟨w, stage, hgoes, -, hstage⟩ := saveTo_cases s path rename
      rw [hgoes] at heq
      obtain rfl := Option.some.inj heq
      have hmade : stage.made = none := by rcases hstage with ⟨rfl, -⟩ | ⟨rfl, -⟩ | rfl <;> rfl
      refine ⟨h.entry, h.contents, ?_⟩
      rw [Bool.eq_false_iff]
      intro hheld
      rcases held_goto (s := { s with folders := s.folders + 1 }) hback hheld with hi | hi
      · exact hfile hi
      · simp [hmade] at hi
  | proceed fails error =>
      obtain ⟨⟨w, stage⟩, hwork, rfl⟩ := Option.map_eq_some_iff.mp hstep
      have hw := hsafe.whole hback
      have hstays : Stays s (perform s display w fails error stage) name i :=
        perform_stays hw hwork h.entry h.held hspares
      refine ⟨hstays.entry, hstays.contents.trans h.contents, ?_⟩
      rw [Bool.eq_false_iff]
      intro hheld
      rcases perform_held hw hback hwork hnone hheld with hold | hnext
      · simp [h.held] at hold
      · exact absurd (s.disk.bounded _ i h.entry) (by omega)
  | other act =>
      obtain ⟨d, hd, rfl⟩ := Option.map_eq_some_iff.mp hstep
      obtain ⟨hentry, hcontents⟩ := hspares d hd
      refine ⟨hentry.trans h.entry, hcontents.trans h.contents, ?_⟩
      have hheld := h.held
      simpa [State.held, hback] using hheld

def sparesCheck (s : State Nat Nat) : Event Nat Nat → Bool
  | .other _ => false
  | .proceed _ _ => s.work.all fun work => match work.2 with
      | .install (some _) _ => false
      | _ => true
  | .commit _ | .checkpoint | .save _ _ => true

theorem spares_of_check (name i : Nat) (s : State Nat Nat) (e : Event Nat Nat) (h : sparesCheck s e = true) :
    Spares name i s e := by
  cases e with
  | other => cases h
  | proceed fails error =>
      rintro ⟨w, lock, copy, hwork, -⟩
      simp [sparesCheck, hwork] at h
  | commit | checkpoint | save => trivial

/-- A Save As whose destination another program takes before the copy comes there. -/
def overtaken : List (Event Nat Nat) := [.save ⟨1, "Copy.wfpj"⟩ false] ++ proceeds 6 ++ [.other (.create (.path 1) [9])]

end Spared

section Answers

variable {fails : Bool} {error first : Error} {lock : Option Nat} {path : Path Name} {rename : Bool}

/-- The operations that a save can still need. -/
def Stage.rank : Stage → Nat
  | .leave _ => 1
  | .info => 2
  | .withdraw _ _ | .restore _ => 2
  | .checkpointHere | .replace _ | .discard _ _ => 3
  | .moveAway _ => 4
  | .reopen _ => 5
  | .install _ _ => 6
  | .setAside _ _ => 7
  | .prepare _ _ => 8
  | .copyFile _ => 9
  | .stage _ => 10
  | .checkpoint _ => 11
  | .lockDestination => 12

/-- The runtime has the path and the file that it had when it was called. -/
def Unmoved (s : State Name V) (w : Work Name) : Prop := s.path = w.ownedPath ∧ s.file = w.ownedFile

/-- Only the replacement changes what the runtime has, and nothing but the last
reading can fail after it. -/
def Settled (s : State Name V) (w : Work Name) : Stage → Prop
  | .info | .leave (.ok _) => s.path = w.path ∨ Unmoved s w ∧ w.path.name = s.path.name
  | .leave (.error _) => Unmoved s w ∨ s.path = w.path
  | .checkpointHere => Unmoved s w ∧ w.path.name = s.path.name
  | _ => Unmoved s w

/-- The stages of a save in which nothing failed. -/
def Stage.well : Stage → Bool
  | .discard _ _ | .restore _ | .withdraw _ _ | .leave (.error _) => false
  | _ => true

/-- No operation of a save fails, and no program takes the destination that it
found free. -/
def Smooth (s : State Name V) : Event Name V → Prop
  | .proceed fails _ => fails = false ∧
      ∀ w copy, s.work = some (w, .install none copy) → s.disk.entry (.path w.path.name) = none
  | _ => True

/-- What an operation of a running save leads to. -/
def Next (s t : State Name V) (w : Work Name) (stage : Stage) : Prop :=
  (∃ stage', t.work = some (w, stage') ∧ stage'.rank < stage.rank ∧ Settled t w stage' ∧ t.answers = s.answers) ∨
    (t.work = none ∧ ∃ result, t.answers = s.answers ++ [⟨w, result⟩] ∧ Settled t w (.leave result))

omit [DecidableEq Name] in
theorem next_goto {d : Disk (Place Name) (List V)} {stage' : Stage} (hrank : stage'.rank < stage.rank)
    (h : Settled s w stage') : Next s ({ s with disk := d }.goto w stage') w stage := by
  refine .inl ⟨stage', rfl, hrank, ?_, rfl⟩
  cases stage' with
  | leave result => cases result <;> exact h
  | _ => exact h

theorem next_perform (display : Nat → String) (fails : Bool) (error : Error) (hwork : s.work = some (w, stage)) (h : Settled s w stage) :
    Next s (perform s display w fails error stage) w stage := by
  cases stage with
  | checkpointHere =>
      cases fails
      · exact next_goto (s := s.checkpoint) (show Stage.info.rank < _ by simp [Stage.rank]) (.inr h)
      · exact next_goto (by simp [Stage.rank]) (.inl h.1)
  | checkpoint lock =>
      cases fails
      · exact next_goto (s := s.checkpoint) (show (Stage.stage lock).rank < _ by simp [Stage.rank]) h
      · exact next_goto (by simp [Stage.rank]) (.inl h)
  | stage lock | prepare lock copy =>
      cases fails
      · exact next_goto (by simp [Stage.rank]) h
      · exact next_goto (by simp [Stage.rank]) (.inl h)
  | lockDestination =>
      rcases lockDestination_cases s w fails error with ⟨-, heq⟩ | ⟨-, heq⟩ | heq <;> rw [perform, heq]
      · exact next_goto (by simp [Stage.rank]) h
      · exact next_goto (by simp [Stage.rank]) h
      · exact next_goto (by simp [Stage.rank]) (.inl h)
  | copyFile lock =>
      rcases copyFile_cases s w fails error lock with ⟨j, -, heq⟩ | heq <;> rw [perform, heq]
      · exact next_goto (by simp [Stage.rank]) h
      · exact next_goto (by simp [Stage.rank]) (.inl h)
  | setAside lock copy =>
      rcases setAside_cases s w fails error lock copy with ⟨j, -, -, heq⟩ | ⟨-, heq⟩ | heq <;> rw [perform, heq]
      · exact next_goto (by simp [Stage.rank]) h
      · exact next_goto (by simp [Stage.rank]) h
      · exact next_goto (by simp [Stage.rank]) (.inl h)
  | install lock copy =>
      rcases install_cases s w fails error lock copy with ⟨j, -, -, heq⟩ | ⟨j, -, -, heq⟩ | ⟨-, heq⟩ | ⟨-, heq⟩ <;>
        rw [perform, heq]
      · exact next_goto (by simp [Stage.rank]) h
      · exact next_goto (by simp [Stage.rank]) h
      · exact next_goto (by simp [Stage.rank]) h
      · exact next_goto (by simp [Stage.rank]) (.inl h)
  | reopen copy =>
      rcases reopen_cases s w fails error copy with ⟨j, -, heq⟩ | heq <;> rw [perform, heq] <;> split
      · exact next_goto (by simp [Stage.rank]) h
      · exact next_goto (by simp [Stage.rank]) h
      · exact next_goto (by simp [Stage.rank]) h
      · exact next_goto (by simp [Stage.rank]) (.inl h)
  | discard copy first =>
      rcases removeCopy_cases s w fails with heq | heq <;> rw [perform, heq] <;> exact next_goto (by simp [Stage.rank]) h
  | restore first =>
      rcases restore_cases s w fails error first display with ⟨j, -, -, -, heq⟩ | ⟨-, heq⟩ | ⟨-, heq⟩ <;> rw [perform, heq]
      · exact next_goto (by simp [Stage.rank]) (.inl h)
      · exact .inr ⟨rfl, _, rfl, .inl h⟩
      · exact next_goto (by simp [Stage.rank]) (.inl h)
  | moveAway copy =>
      rcases moveAway_cases s w fails error copy with ⟨j, -, heq⟩ | heq <;> rw [perform, heq]
      · exact next_goto (by simp [Stage.rank]) h
      · exact next_goto (by simp [Stage.rank]) h
  | withdraw copy first =>
      rcases removeCopy_cases s w fails with heq | heq <;> rw [perform, heq] <;> exact next_goto (by simp [Stage.rank]) (.inl h)
  | replace copy => exact .inl ⟨.info, rfl, Nat.lt_succ_self _, .inl rfl, rfl⟩
  | info =>
      cases fails
      · exact next_goto (by simp [Stage.rank]) h
      · exact next_goto (by simp [Stage.rank]) (h.elim .inr fun h => .inl h.1)
  | leave result => exact .inr ⟨rfl, result, rfl, by cases result <;> exact h⟩

/-- Where nothing fails and the destination stays free, a save goes on well. -/
theorem well_perform (display : Nat → String) (error : Error) (hw : Whole s) (hwork : s.work = some (w, stage)) (hwell : stage.well = true)
    (hfree : ∀ copy, stage = .install none copy → s.disk.entry (.path w.path.name) = none) :
    (∃ stage', (perform s display w false error stage).work = some (w, stage') ∧ stage'.well = true) ∨
      ∃ result, stage = .leave result := by
  have hstands := hw.stands _ _ hwork
  cases stage with
  | checkpointHere | checkpoint | stage | prepare | replace | info => exact .inl ⟨_, rfl, rfl⟩
  | lockDestination =>
      refine .inl ?_
      rw [perform, lockDestination]
      split
      · exact ⟨_, rfl, rfl⟩
      · exact ⟨_, rfl, rfl⟩
  | copyFile lock =>
      have howned : s.disk.entry (.path s.path.name) = some s.file := hstands.1
      refine .inl ⟨.prepare lock s.disk.next, ?_, rfl⟩
      simp [perform, copyFile, howned, State.goto]
  | setAside lock copy =>
      have howned : s.disk.entry (.path s.path.name) = some s.file := hstands.1
      refine .inl ⟨.install lock copy, ?_, rfl⟩
      rw [perform, setAside]
      split
      · rw [if_neg Bool.false_ne_true, (Disk.rename_eq (by simp)).mpr ⟨⟨_, howned⟩, rfl⟩]
        rfl
      · rfl
  | install lock copy =>
      refine .inl ⟨.reopen copy, ?_, rfl⟩
      rw [perform, install, if_neg Bool.false_ne_true]
      cases lock with
      | none =>
          rw [if_neg (by simp), Disk.hardLink_eq.mpr ⟨⟨_, hstands.2.1⟩, hfree copy rfl, rfl⟩]
          rfl
      | some lock =>
          rw [if_pos Option.isSome_some, (Disk.rename_eq (by simp)).mpr ⟨⟨_, hstands.2.1⟩, rfl⟩]
          rfl
  | reopen copy =>
      refine .inl ?_
      rw [perform, reopen, if_neg Bool.false_ne_true, hstands.2.1]
      dsimp only
      split
      · exact ⟨_, rfl, rfl⟩
      · exact ⟨_, rfl, rfl⟩
  | moveAway copy =>
      refine .inl ⟨.replace copy, ?_, rfl⟩
      rw [perform, moveAway, if_neg Bool.false_ne_true, (Disk.rename_eq (by simp)).mpr ⟨⟨_, hstands.2.2.1⟩, rfl⟩]
      rfl
  | discard | restore | withdraw => cases hwell
  | leave result => exact .inr ⟨result, rfl⟩

def Event.isOperation : Event Name V → Bool
  | .proceed _ _ => true
  | _ => false

omit [DecidableEq Name] in
theorem Settled.disk {d : Disk (Place Name) (List V)} (h : Settled s w stage) : Settled { s with disk := d } w stage := by
  cases stage with
  | leave result => cases result <;> exact h
  | _ => exact h

/-- How a call has ended. -/
structure Ends (s : State Name V) (w : Work Name) (before : List (Answer Name)) (result : Except Error Unit) : Prop where
  idle : s.work = none
  answered : s.answers = before ++ [⟨w, result⟩]
  settled : Settled s w (.leave result)

theorem run_backups {u : State Name V} (h : exec (step display) s es = some u) (hnone : u.backups = []) :
    s.backups = [] := by
  induction es generalizing s with
  | nil =>
      obtain rfl := Option.some.inj h
      exact hnone
  | cons e es ih =>
      obtain ⟨a, ha, hu⟩ := exec_cons.mp h
      exact step_backups ha (ih hu)

/-- A running save answers within its rank, among any acts of other programs. -/
theorem running_ends (hsafe : Safe display s) (hwork : s.work = some (w, stage)) (hsettled : Settled s w stage)
    (h : exec (step display) s es = some t) (hlong : stage.rank ≤ es.countP Event.isOperation) :
    ∃ first rest u result, es = first ++ rest ∧ exec (step display) s first = some u ∧ Ends u w s.answers result ∧
      (∀ left, stage = .leave left → result = left) ∧
      (u.backups = [] → stage.well = true → Along (step display) Smooth s first → result = .ok ()) := by
  induction es generalizing s stage with
  | nil => cases stage <;> simp [Stage.rank] at hlong
  | cons e es ih =>
      obtain ⟨a, ha, ht⟩ := exec_cons.mp h
      have hsafe' := safe_step hsafe ha
      cases e with
      | commit | checkpoint | save => simp [step, hwork] at ha
      | other act =>
          obtain ⟨d, hd, rfl⟩ := Option.map_eq_some_iff.mp ha
          obtain ⟨first, rest, u, result, rfl, hu, hends, hleft, hsmooth⟩ :=
            ih hsafe' hwork hsettled.disk ht (by simpa [Event.isOperation] using hlong)
          refine ⟨_ :: first, rest, u, result, rfl, exec_cons.mpr ⟨_, ha, hu⟩, hends, hleft, fun hnone hwell halong => ?_⟩
          exact hsmooth hnone hwell (halong.2 _ ha)
      | proceed fails error =>
          simp only [step, hwork, Option.map_some, Option.some.injEq] at ha
          have hstep : step display s (.proceed fails error) = some a := by simp [step, hwork, ha]
          rcases (ha ▸ next_perform display fails error hwork hsettled : Next s a w stage) with
            ⟨stage', hwork', hrank, hsettled', hanswers⟩ | ⟨hidle, result, hanswers, hsettled'⟩
          · obtain ⟨first, rest, u, result, rfl, hu, hends, -, hsmooth⟩ := ih hsafe' hwork' hsettled' ht (by
              simp only [List.countP_cons, Event.isOperation, if_true] at hlong
              omega)
            refine ⟨_ :: first, rest, u, result, rfl, exec_cons.mpr ⟨a, hstep, hu⟩, hanswers ▸ hends, ?_,
              fun hnone hwell halong => ?_⟩
            · rintro left rfl
              rw [← ha] at hwork'
              cases hwork'
            obtain ⟨rfl, hfree⟩ := halong.1
            have hwhole := hsafe.whole (step_backups hstep (run_backups hu hnone))
            refine hsmooth hnone ?_ (halong.2 a hstep)
            rcases well_perform display error hwhole hwork hwell fun copy hs => hfree w copy (hs ▸ hwork) with
              ⟨stage'', hnext, hwell'⟩ | ⟨result, rfl⟩
            · rw [ha, hwork'] at hnext
              cases hnext
              exact hwell'
            · rw [← ha] at hwork'
              cases hwork'
          · refine ⟨[.proceed fails error], es, a, result, rfl, exec_cons.mpr ⟨a, hstep, rfl⟩, ⟨hidle, hanswers, hsettled'⟩,
              ?_, fun hnone hwell halong => ?_⟩
            · rintro left rfl
              rw [← ha] at hanswers
              simpa [perform, leave, eq_comm] using hanswers
            obtain ⟨rfl, hfree⟩ := halong.1
            have hwhole := hsafe.whole (step_backups hstep hnone)
            rcases well_perform display error hwhole hwork hwell fun copy hs => hfree w copy (hs ▸ hwork) with
              ⟨stage', hnext, -⟩ | ⟨result', rfl⟩
            · rw [ha, hidle] at hnext
              cases hnext
            · rw [← ha] at hanswers
              obtain rfl : result' = result := by simpa [perform, leave] using hanswers
              cases result' with
              | error e => cases hwell
              | ok _ => rfl

end Answers

end Wordflow.Saving
