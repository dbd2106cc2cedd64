import Wordflow.Saving.Steps

namespace Wordflow.Saving

open Library.HardLinks Library.Run Objects

variable {Name V : Type} {s t : State Name V} {w : Work Name} {stage : Stage} {copy i : Nat}

/-- The stages at which a replacement of the original is at the destination or
on its way, the original being set aside for it where both have one name. -/
def Stage.aside : Stage → Bool
  | .install _ _ | .reopen _ | .discard _ _ | .restore _ => true
  | _ => false

/-- The stages that undo a rename. -/
def Stage.undoes : Stage → Bool
  | .discard _ _ | .restore _ => true
  | _ => false

/-- A stage of a save, the disk being as it is. -/
structure Fits (d : Disk (Place Name) (List V)) (w : Work Name) (stage : Stage) : Prop where
  made : ∀ i, stage.made = some i → i < d.next
  undoes : stage.undoes = true → w.rename = true
  aside : stage.aside = true → w.rename = true → w.sameFile = true → ∃ i, d.entry (.original w.folder) = some i

/-- Folders are used once, and what is retained stays. -/
structure Kept (s : State Name V) : Prop where
  opened : s.file < s.disk.next
  numbered : ∀ backup ∈ s.backups, backup.folder < s.folders
  running : ∀ w stage, s.work = some (w, stage) →
    w.folder < s.folders ∧ ∀ backup ∈ s.backups, backup.folder ≠ w.folder
  fits : ∀ w stage, s.work = some (w, stage) → Fits s.disk w stage
  backed : ∀ backup ∈ s.backups, ∃ i, s.disk.entry (.original backup.folder) = some i ∧
    backup.contents <+: s.disk.contents i

section Sources

variable (s)

def Owned : Prop := s.disk.entry (.path s.path.name) = some s.file

/-- The original, which has another name while a rename to its own name installs
the replacement. -/
def Original (w : Work Name) : Prop :=
  s.disk.entry (if w.rename && w.sameFile then .original w.folder else .path s.path.name) = some s.file

/-- All that was committed, in one file. -/
def Copied (p : Place Name) (copy : Nat) : Prop :=
  s.disk.entry p = some copy ∧ s.disk.contents copy = s.committed ∧ s.log = []

/-- What a save has reached where it stands. -/
def Stands (w : Work Name) : Stage → Prop
  | .checkpointHere | .lockDestination | .checkpoint _ | .info | .leave _ => Owned s
  | .stage _ | .copyFile _ => Owned s ∧ s.log = []
  | .prepare _ copy | .setAside _ copy => Owned s ∧ Copied s (.staged w.folder) copy
  | .install _ copy => Original s w ∧ Copied s (.staged w.folder) copy
  | .reopen copy => Original s w ∧ Copied s (.path w.path.name) copy
  | .discard copy _ => w.rename = true ∧ Original s w ∧ s.disk.entry (.path w.path.name) = some copy ∧ s.log = []
  | .restore _ => w.rename = true ∧ Original s w ∧ s.log = []
  | .moveAway copy => w.rename = true ∧ w.sameFile = false ∧ Owned s ∧ Copied s (.path w.path.name) copy
  | .withdraw copy _ => w.sameFile = false ∧ Owned s ∧ s.disk.entry (.path w.path.name) = some copy
  | .replace copy => (w.rename = false → Owned s) ∧ Copied s (.path w.path.name) copy

def Stage.lock : Stage → Option Nat
  | .checkpoint lock | .stage lock | .copyFile lock | .prepare lock _ | .setAside lock _ | .install lock _ => lock
  | _ => none

/-- The stages from the lock to the replacement. -/
def Stage.asked : Stage → Bool
  | .checkpointHere | .info | .leave _ => false
  | _ => true

/-- How a save was asked for. -/
structure Asked (w : Work Name) (stage : Stage) : Prop where
  names : w.sameFile = true ↔ w.path.name = s.path.name
  same : w.sameFile = true → w.rename = true
  file : s.temporary = true → w.rename = false
  lock : stage.lock.isSome = true → w.rename = false

/-- Nothing is lost: the open file and its log are all that was committed, and
the file has the name that the runtime knows or that the save has moved it to. -/
structure Whole : Prop where
  content : s.disk.contents s.file ++ s.log = s.committed
  idle : s.work = none → Owned s
  stands : ∀ w stage, s.work = some (w, stage) → Stands s w stage
  asked : ∀ w stage, s.work = some (w, stage) → stage.asked = true → Asked s w stage

end Sources

section Held

theorem held_file : s.held s.file = true := by simp [State.held]

theorem held_made (hwork : s.work = some (w, stage)) (hmade : stage.made = some i) : s.held i = true := by
  simp [State.held, hwork, hmade]

theorem held_backup {backup : Backup V} (hbackup : backup ∈ s.backups)
    (hi : s.disk.entry (.original backup.folder) = some i) : s.held i = true := by
  simp only [State.held, Bool.or_eq_true, List.any_eq_true]
  exact .inr ⟨backup, hbackup, by simp [hi]⟩

end Held

section Others

variable {d : Disk (Place Name) (List V)} (hd : Keeps s.held Place.shared s.disk d)

include hd

theorem Copied.keeps {p : Place Name} (h : Copied s p i) (hheld : s.held i = true) : Copied { s with disk := d } p i :=
  ⟨hd.entry p i h.1 hheld, (hd.contents i (s.disk.bounded p i h.1) hheld).trans h.2.1, h.2.2⟩

theorem Owned.keeps (h : Owned s) : Owned { s with disk := d } := hd.entry _ _ h held_file

theorem Original.keeps (h : Original s w) : Original { s with disk := d } w := hd.entry _ _ h held_file

theorem Stands.keeps (hwork : s.work = some (w, stage)) (h : Stands s w stage) :
    Stands { s with disk := d } w stage := by
  cases stage with
  | checkpointHere | lockDestination | checkpoint | info | leave => exact Owned.keeps hd h
  | stage | copyFile => exact ⟨Owned.keeps hd h.1, h.2⟩
  | prepare lock copy | setAside lock copy => exact ⟨Owned.keeps hd h.1, Copied.keeps hd h.2 (held_made hwork rfl)⟩
  | install lock copy => exact ⟨Original.keeps hd h.1, Copied.keeps hd h.2 (held_made hwork rfl)⟩
  | reopen copy => exact ⟨Original.keeps hd h.1, Copied.keeps hd h.2 (held_made hwork rfl)⟩
  | discard copy error => exact ⟨h.1, Original.keeps hd h.2.1, hd.entry _ _ h.2.2.1 (held_made hwork rfl), h.2.2.2⟩
  | restore error => exact ⟨h.1, Original.keeps hd h.2.1, h.2.2⟩
  | moveAway copy =>
      exact ⟨h.1, h.2.1, Owned.keeps hd h.2.2.1, Copied.keeps hd h.2.2.2 (held_made hwork rfl)⟩
  | withdraw copy error => exact ⟨h.1, Owned.keeps hd h.2.1, hd.entry _ _ h.2.2 (held_made hwork rfl)⟩
  | replace copy => exact ⟨fun hr => Owned.keeps hd (h.1 hr), Copied.keeps hd h.2 (held_made hwork rfl)⟩

theorem Whole.keeps (hk : Kept s) (h : Whole s) : Whole { s with disk := d } where
  content := by
    change d.contents s.file ++ s.log = s.committed
    rw [hd.contents s.file hk.opened held_file]
    exact h.content
  idle hwork := Owned.keeps hd (h.idle hwork)
  stands w stage hwork := Stands.keeps hd hwork (h.stands w stage hwork)
  asked w stage hwork hasked := ⟨(h.asked w stage hwork hasked).names, (h.asked w stage hwork hasked).same,
    (h.asked w stage hwork hasked).file, (h.asked w stage hwork hasked).lock⟩

theorem Kept.keeps (h : Kept s) : Kept { s with disk := d } where
  opened := Nat.lt_of_lt_of_le h.opened hd.next
  numbered := h.numbered
  running := h.running
  fits w stage hwork := by
    have hfits := h.fits w stage hwork
    refine ⟨fun i hi => Nat.lt_of_lt_of_le (hfits.made i hi) hd.next, hfits.undoes, fun haside hrename hsame => ?_⟩
    obtain ⟨i, hi⟩ := hfits.aside haside hrename hsame
    exact ⟨i, (hd.hidden _ rfl).trans hi⟩
  backed backup hbackup := by
    obtain ⟨i, hi, hprefix⟩ := h.backed backup hbackup
    refine ⟨i, (hd.hidden _ rfl).trans hi, ?_⟩
    change backup.contents <+: d.contents i
    rw [hd.contents i (s.disk.bounded _ i hi) (held_backup hbackup hi)]
    exact hprefix

end Others

section Goto

theorem Whole.goto (hcontent : s.disk.contents s.file ++ s.log = s.committed) (hstands : Stands s w stage)
    (hasked : stage.asked = true → Asked s w stage) : Whole (s.goto w stage) where
  content := hcontent
  idle hwork := by cases hwork
  stands w' stage' hwork := by
    obtain ⟨rfl, rfl⟩ := Prod.mk.inj (Option.some.inj hwork)
    exact hstands
  asked w' stage' hwork ha := by
    obtain ⟨rfl, rfl⟩ := Prod.mk.inj (Option.some.inj hwork)
    exact ⟨(hasked ha).names, (hasked ha).same, (hasked ha).file, (hasked ha).lock⟩

theorem Whole.fail {error : Error} (hcontent : s.disk.contents s.file ++ s.log = s.committed) (howned : Owned s) :
    Whole (s.fail w error) :=
  Whole.goto hcontent howned (fun h => by cases h)

/-- The request stays what it is until the replacement. -/
theorem Asked.next {stage' : Stage} {d : Disk (Place Name) (List V)} (h : Asked s w stage)
    (hlock : stage'.lock.isSome = true → stage.lock.isSome = true) : Asked { s with disk := d } w stage' :=
  ⟨h.names, h.same, h.file, fun hl => h.lock (hlock hl)⟩

theorem Whole.checkpointed (h : s.disk.contents s.file ++ s.log = s.committed) :
    s.checkpoint.disk.contents s.checkpoint.file ++ s.checkpoint.log = s.checkpoint.committed := by
  simpa [State.checkpoint] using h

end Goto

section Stages

variable [DecidableEq Name] {fails : Bool} {error first : Error} {lock : Option Nat} {display : Nat → String}

omit [DecidableEq Name] in
theorem whole_lockDestination (hw : Whole s) (hwork : s.work = some (w, .lockDestination)) :
    Whole (lockDestination s w fails error) := by
  have howned : Owned s := hw.stands _ _ hwork
  have hasked := hw.asked _ _ hwork rfl
  rcases lockDestination_cases s w fails error with ⟨hrename, heq⟩ | ⟨hrename, heq⟩ | heq <;> rw [heq]
  · exact Whole.goto hw.content howned fun _ => hasked.next fun h => by cases h
  · exact Whole.goto hw.content howned fun _ => ⟨hasked.names, hasked.same, hasked.file, fun _ => hrename⟩
  · exact Whole.fail hw.content howned

theorem whole_copyFile (hw : Whole s) (hk : Kept s) (hwork : s.work = some (w, .copyFile lock)) :
    Whole (copyFile s w fails error lock) := by
  obtain ⟨howned, hlog⟩ := hw.stands _ _ hwork
  rcases copyFile_cases s w fails error lock with ⟨i, hi, heq⟩ | heq <;> rw [heq]
  · obtain rfl : i = s.file := Option.some.inj (hi.symm.trans howned)
    have hcontent : s.disk.contents s.file = s.committed := by simpa [hlog] using hw.content
    apply Whole.goto
    · change (s.disk.create _ _).contents s.file ++ s.log = s.committed
      rw [Disk.create_contents _ hk.opened]
      exact hw.content
    · refine ⟨?_, Disk.create_self .., ?_, hlog⟩
      · exact (Disk.create_of_ne _ (by simp)).trans howned
      · exact (Disk.create_contents_self ..).trans hcontent
    · exact fun _ => (hw.asked _ _ hwork rfl).next id
  · exact Whole.fail hw.content howned

omit [DecidableEq Name] in
/-- The name of the original once it is set aside. -/
theorem original_of_aside {d : Disk (Place Name) (List V)} (hsame : (w.rename && w.sameFile) = true)
    (h : d.entry (.original w.folder) = some s.file) : Original { s with disk := d } w := by
  simpa [Original, hsame] using h

omit [DecidableEq Name] in
theorem original_of_owned (hsame : (w.rename && w.sameFile) = false) (h : Owned s) : Original s w := by
  simpa [Original, Owned, hsame] using h

omit [DecidableEq Name] in
theorem owned_of_original (hsame : (w.rename && w.sameFile) = false) (h : Original s w) : Owned s := by
  simpa [Original, Owned, hsame] using h

theorem whole_setAside (hw : Whole s) (hwork : s.work = some (w, .setAside lock copy)) :
    Whole (setAside s w fails error lock copy) := by
  obtain ⟨howned, hcopied⟩ := hw.stands _ _ hwork
  have hasked := hw.asked _ _ hwork rfl
  rcases setAside_cases s w fails error lock copy with ⟨i, hsame, hi, heq⟩ | ⟨hsame, heq⟩ | heq <;> rw [heq]
  · apply Whole.goto
    · exact hw.content
    · refine ⟨original_of_aside hsame ?_, ?_, hcopied.2⟩
      · rw [Disk.unlink_of_ne (by simp), Disk.point_self]
        exact howned
      · change ((s.disk.point _ _).unlink _).entry _ = _
        rw [Disk.unlink_of_ne (by simp), Disk.point_of_ne (by simp)]
        exact hcopied.1
    · exact fun _ => hasked.next id
  · exact Whole.goto hw.content ⟨original_of_owned hsame howned, hcopied⟩ fun _ => hasked.next id
  · exact Whole.fail hw.content howned

theorem whole_install (hw : Whole s) (hwork : s.work = some (w, .install lock copy)) :
    Whole (install s w fails error lock copy) := by
  obtain ⟨horiginal, hcopied⟩ := hw.stands _ _ hwork
  have hasked := hw.asked _ _ hwork rfl
  rcases install_cases s w fails error lock copy with ⟨i, hlock, hi, heq⟩ | ⟨i, hfree, hi, heq⟩ | ⟨hrename, heq⟩ | ⟨hrename, heq⟩ <;> rw [heq]
  · have hrename : w.rename = false := hasked.lock hlock
    have hne : s.path.name ≠ w.path.name := by
      intro hname
      have := hasked.same (hasked.names.mpr hname.symm)
      simp [hrename] at this
    have howned := owned_of_original (by simp [hrename]) horiginal
    apply Whole.goto
    · exact hw.content
    · refine ⟨original_of_owned (by simp [hrename]) ?_, ?_, hcopied.2⟩
      · change ((s.disk.point _ _).unlink _).entry _ = _
        rw [Disk.unlink_of_ne (by simp), Disk.point_of_ne (by simpa using hne)]
        exact howned
      · change ((s.disk.point _ _).unlink _).entry _ = _
        rw [Disk.unlink_of_ne (by simp), Disk.point_self]
        exact hcopied.1
    · exact fun _ => hasked.next fun h => by cases h
  · apply Whole.goto
    · exact hw.content
    · refine ⟨?_, (Disk.point_self ..).trans hcopied.1, hcopied.2⟩
      refine (Disk.point_of_ne ?_).trans horiginal
      intro hplace
      rw [Original, hplace, hfree] at horiginal
      cases horiginal
    · exact fun _ => hasked.next fun h => by cases h
  · exact Whole.goto hw.content ⟨hrename, horiginal, hcopied.2.2⟩ fun _ => hasked.next fun h => by cases h
  · exact Whole.fail hw.content (owned_of_original (by simp [hrename]) horiginal)

omit [DecidableEq Name] in
theorem whole_reopen (hw : Whole s) (hwork : s.work = some (w, .reopen copy)) : Whole (reopen s w fails error copy) := by
  obtain ⟨horiginal, hcopied⟩ := hw.stands _ _ hwork
  have hasked := hw.asked _ _ hwork rfl
  rcases reopen_cases s w fails error copy with ⟨i, hi, heq⟩ | heq <;> rw [heq]
  · obtain rfl : copy = i := Option.some.inj (hcopied.1.symm.trans hi)
    split
    · next hmove =>
        obtain ⟨hrename, hsame⟩ : w.rename = true ∧ w.sameFile = false := by simpa using hmove
        have howned := owned_of_original (by simp [hsame]) horiginal
        exact Whole.goto hw.content ⟨hrename, hsame, howned, hcopied⟩ fun _ => hasked.next fun h => by cases h
    · refine Whole.goto hw.content ⟨fun hrename => ?_, hcopied⟩ fun _ => hasked.next fun h => by cases h
      exact owned_of_original (by simp [hrename]) horiginal
  · split
    · next hrename =>
        exact Whole.goto hw.content ⟨hrename, horiginal, hcopied.1, hcopied.2.2⟩ fun _ => hasked.next fun h => by cases h
    · next hrename => exact Whole.fail hw.content (owned_of_original (by simp [hrename]) horiginal)

theorem whole_discard (hw : Whole s) (hwork : s.work = some (w, .discard copy first)) :
    Whole ((removeCopy s w fails).goto w (.restore first)) := by
  obtain ⟨hrename, horiginal, hcopy, hlog⟩ := hw.stands _ _ hwork
  have hasked := hw.asked _ _ hwork rfl
  rcases removeCopy_cases s w fails with heq | heq <;> rw [heq]
  · exact Whole.goto hw.content ⟨hrename, horiginal, hlog⟩ fun _ => hasked.next fun h => by cases h
  · refine Whole.goto hw.content ⟨hrename, (Disk.unlink_of_ne ?_).trans horiginal, hlog⟩ fun _ => hasked.next fun h => by cases h
    cases hsame : w.sameFile
    · have hne : s.path.name ≠ w.path.name := fun hname => by simp [hasked.names.mpr hname.symm] at hsame
      simpa using hne
    · simp [hrename]

theorem whole_restore (hw : Whole s) (hwork : s.work = some (w, .restore first))
    (hnone : (restore s display w fails error first).backups = []) : Whole (restore s display w fails error first) := by
  obtain ⟨hrename, horiginal, hlog⟩ := hw.stands _ _ hwork
  rcases restore_cases s w fails error first display with ⟨i, hsame, hi, hfree, heq⟩ | ⟨hsame, heq⟩ | ⟨hsame, heq⟩ <;> rw [heq] at hnone ⊢
  · refine Whole.fail hw.content ((Disk.point_self ..).trans ?_)
    simpa [Original, hrename, hsame] using horiginal
  · simp [retain] at hnone
  · exact Whole.fail hw.content (owned_of_original (by simp [hsame]) horiginal)

theorem whole_moveAway (hw : Whole s) (hwork : s.work = some (w, .moveAway copy)) :
    Whole (moveAway s w fails error copy) := by
  obtain ⟨hrename, hsame, howned, hcopied⟩ := hw.stands _ _ hwork
  have hasked := hw.asked _ _ hwork rfl
  have hne : w.path.name ≠ s.path.name := fun hname => by simp [hasked.names.mpr hname] at hsame
  rcases moveAway_cases s w fails error copy with ⟨i, hi, heq⟩ | heq <;> rw [heq]
  · refine Whole.goto hw.content ⟨fun h => by simp [hrename] at h, ?_, hcopied.2⟩ fun _ => hasked.next fun h => by cases h
    change ((s.disk.point _ _).unlink _).entry _ = _
    rw [Disk.unlink_of_ne (by simpa using hne), Disk.point_of_ne (by simp)]
    exact hcopied.1
  · exact Whole.goto hw.content ⟨hsame, howned, hcopied.1⟩ fun _ => hasked.next fun h => by cases h

theorem whole_withdraw (hw : Whole s) (hwork : s.work = some (w, .withdraw copy first)) :
    Whole ((removeCopy s w fails).fail w first) := by
  obtain ⟨hsame, howned, hcopy⟩ := hw.stands _ _ hwork
  have hasked := hw.asked _ _ hwork rfl
  have hne : s.path.name ≠ w.path.name := fun hname => by simp [hasked.names.mpr hname.symm] at hsame
  rcases removeCopy_cases s w fails with heq | heq <;> rw [heq]
  · exact Whole.fail hw.content howned
  · exact Whole.fail hw.content ((Disk.unlink_of_ne (by simpa using hne)).trans howned)

theorem whole_replace (hw : Whole s) (hwork : s.work = some (w, .replace copy)) : Whole (replace s w copy) := by
  obtain ⟨howned, hcopied⟩ := hw.stands _ _ hwork
  have hasked := hw.asked _ _ hwork rfl
  apply Whole.goto
  · change (if s.temporary then s.disk.unlink _ else s.disk).contents copy ++ [] = s.committed
    rw [List.append_nil, ← hcopied.2.1]
    split <;> rfl
  · change (if s.temporary then s.disk.unlink _ else s.disk).entry (.path w.path.name) = some copy
    split
    · next htemporary =>
        have hrename : w.rename = false := hasked.file htemporary
        have hne : w.path.name ≠ s.path.name := by
          intro hname
          have := hasked.same (hasked.names.mpr hname)
          simp [hrename] at this
        rw [Disk.unlink_of_ne (by simpa using hne)]
        exact hcopied.1
    · exact hcopied.1
  · intro h
    cases h

theorem whole_leave {result : Except Error Unit} (hw : Whole s) (hwork : s.work = some (w, .leave result)) :
    Whole (leave s w fails result) where
  content := by
    change (if fails then s.disk else _).contents s.file ++ s.log = s.committed
    rw [← hw.content]
    split <;> rfl
  idle _ := by
    change (if fails then s.disk else _).entry (.path s.path.name) = some s.file
    have howned : Owned s := hw.stands _ _ hwork
    split
    · exact howned
    · rw [Disk.unlink_of_ne (by simp), Disk.unlink_of_ne (by simp)]
      exact howned
  stands w' stage' h := by cases h
  asked w' stage' h := by cases h

theorem whole_perform (hw : Whole s) (hk : Kept s) (hwork : s.work = some (w, stage))
    (hnone : (perform s display w fails error stage).backups = []) : Whole (perform s display w fails error stage) := by
  cases stage with
  | checkpointHere =>
      have howned : Owned s := hw.stands _ _ hwork
      cases fails
      · exact Whole.goto (s := s.checkpoint) (Whole.checkpointed hw.content) howned fun h => by cases h
      · exact Whole.fail hw.content howned
  | lockDestination => exact whole_lockDestination hw hwork
  | checkpoint lock =>
      have howned : Owned s := hw.stands _ _ hwork
      have hasked := hw.asked _ _ hwork rfl
      cases fails
      · refine Whole.goto (s := s.checkpoint) (Whole.checkpointed hw.content) ⟨howned, rfl⟩ fun _ => ?_
        exact ⟨hasked.names, hasked.same, hasked.file, hasked.lock⟩
      · exact Whole.fail hw.content howned
  | stage lock =>
      have hstands := hw.stands _ _ hwork
      cases fails
      · exact Whole.goto hw.content hstands fun _ => (hw.asked _ _ hwork rfl).next id
      · exact Whole.fail hw.content hstands.1
  | copyFile lock => exact whole_copyFile hw hk hwork
  | prepare lock copy =>
      have hstands := hw.stands _ _ hwork
      cases fails
      · exact Whole.goto hw.content hstands fun _ => (hw.asked _ _ hwork rfl).next id
      · exact Whole.fail hw.content hstands.1
  | setAside lock copy => exact whole_setAside hw hwork
  | install lock copy => exact whole_install hw hwork
  | reopen copy => exact whole_reopen hw hwork
  | discard copy first => exact whole_discard hw hwork
  | restore first => exact whole_restore hw hwork hnone
  | moveAway copy => exact whole_moveAway hw hwork
  | withdraw copy first => exact whole_withdraw hw hwork
  | replace copy => exact whole_replace hw hwork
  | info =>
      have howned : Owned s := hw.stands _ _ hwork
      exact Whole.goto hw.content howned fun h => by cases h
  | leave result => exact whole_leave hw hwork

end Stages

end Wordflow.Saving
