import Wordflow.Saving.Invariant

namespace Wordflow.Saving

open Library.HardLinks Library.Run Objects

variable {Name V : Type} {s t : State Name V} {w : Work Name} {stage : Stage} {copy i : Nat}

section Kept

variable [DecidableEq Name] {fails : Bool} {error first : Error} {lock : Option Nat} {display : Nat → String}

/-- What a save does to the disk outside its own folder: it adds to files. -/
structure Grows (folder : Nat) (d d' : Disk (Place Name) (List V)) : Prop where
  entry : ∀ n, n ≠ folder → d'.entry (.original n) = d.entry (.original n)
  contents : ∀ i, i < d.next → d.contents i <+: d'.contents i
  next : d.next ≤ d'.next

omit [DecidableEq Name] in
theorem Grows.refl (folder : Nat) (d : Disk (Place Name) (List V)) : Grows folder d d :=
  ⟨fun _ _ => rfl, fun _ _ => List.prefix_rfl, Nat.le_refl _⟩

omit [DecidableEq Name] in
theorem Grows.trans {folder : Nat} {d e f : Disk (Place Name) (List V)} (h : Grows folder d e) (k : Grows folder e f) :
    Grows folder d f :=
  ⟨fun n hn => (k.entry n hn).trans (h.entry n hn),
    fun i hi => (h.contents i hi).trans (k.contents i (Nat.lt_of_lt_of_le hi h.next)), Nat.le_trans h.next k.next⟩

theorem grows_point {folder : Nat} {d : Disk (Place Name) (List V)} {src dst : Place Name}
    (h : ∀ n, n ≠ folder → .original n ≠ dst) : Grows folder d (d.point src dst) :=
  ⟨fun n hn => Disk.point_of_ne (h n hn), fun _ _ => List.prefix_rfl, Nat.le_refl _⟩

theorem grows_unlink {folder : Nat} {d : Disk (Place Name) (List V)} {p : Place Name}
    (h : ∀ n, n ≠ folder → .original n ≠ p) : Grows folder d (d.unlink p) :=
  ⟨fun n hn => Disk.unlink_of_ne (h n hn), fun _ _ => List.prefix_rfl, Nat.le_refl _⟩

omit [DecidableEq Name] in
theorem grows_checkpoint (folder : Nat) (s : State Name V) : Grows folder s.disk s.checkpoint.disk := by
  refine ⟨fun _ _ => rfl, fun i _ => ?_, Nat.le_refl _⟩
  change s.disk.contents i <+: (s.disk.write s.file _).contents i
  by_cases hi : i = s.file
  · subst hi
    rw [Disk.write_self]
    exact List.prefix_append _ _
  · simp only [Disk.write_of_ne _ hi, List.prefix_rfl]

theorem grows_create {folder : Nat} {d : Disk (Place Name) (List V)} (c : List V) :
    Grows folder d (d.create (.staged folder) c) := by
  refine ⟨fun _ _ => Disk.create_of_ne _ (by simp), fun i hi => ?_, Nat.le_succ _⟩
  simp only [Disk.create_contents _ hi, List.prefix_rfl]

omit [DecidableEq Name] in
theorem Fits.free {d : Disk (Place Name) (List V)} (hmade : stage.made = none) (hundoes : stage.undoes = false)
    (haside : stage.aside = false) : Fits d w stage :=
  ⟨fun i h => by simp [hmade] at h, fun h => by simp [hundoes] at h, fun h => by simp [haside] at h⟩

omit [DecidableEq Name] in
theorem Kept.proceed (hk : Kept s) (hwork : s.work = some (w, stage)) (hgrows : Grows w.folder s.disk t.disk)
    (hfile : t.file < t.disk.next) (hfolders : t.folders = s.folders) (hbackups : t.backups = s.backups)
    (hnext : ∀ w' stage', t.work = some (w', stage') → w' = w ∧ Fits t.disk w stage') : Kept t where
  opened := hfile
  numbered := by
    rw [hfolders, hbackups]
    exact hk.numbered
  running w' stage' h := by
    obtain ⟨rfl, -⟩ := hnext w' stage' h
    rw [hfolders, hbackups]
    exact hk.running _ _ hwork
  fits w' stage' h := by
    obtain ⟨rfl, hfits⟩ := hnext w' stage' h
    exact hfits
  backed backup hbackup := by
    rw [hbackups] at hbackup
    obtain ⟨i, hi, hprefix⟩ := hk.backed backup hbackup
    have hfolder := (hk.running _ _ hwork).2 backup hbackup
    exact ⟨i, (hgrows.entry _ hfolder).trans hi, hprefix.trans (hgrows.contents i (s.disk.bounded _ i hi))⟩

omit [DecidableEq Name] in
theorem Kept.goto {stage' : Stage} {d : Disk (Place Name) (List V)} (hk : Kept s) (hwork : s.work = some (w, stage))
    (hgrows : Grows w.folder s.disk d) (hfits : Fits d w stage') : Kept ({ s with disk := d }.goto w stage') := by
  refine hk.proceed hwork hgrows (Nat.lt_of_lt_of_le hk.opened hgrows.next) rfl rfl fun w' stage'' h => ?_
  obtain ⟨rfl, rfl⟩ := Prod.mk.inj (Option.some.inj h)
  exact ⟨rfl, hfits⟩

omit [DecidableEq Name] in
theorem Kept.fail {d : Disk (Place Name) (List V)} (hk : Kept s) (hwork : s.work = some (w, stage))
    (hgrows : Grows w.folder s.disk d) : Kept ({ s with disk := d }.fail w error) :=
  hk.goto hwork hgrows (.free rfl rfl rfl)

omit [DecidableEq Name] in
/-- Moving to another stage alone. -/
theorem Kept.stay {stage' : Stage} (hk : Kept s) (hwork : s.work = some (w, stage)) (hfits : Fits s.disk w stage') :
    Kept (s.goto w stage') :=
  hk.goto hwork (Grows.refl _ _) hfits

omit [DecidableEq Name] in
theorem Kept.checkpointed {stage' : Stage} (hk : Kept s) (hwork : s.work = some (w, stage))
    (hfits : Fits s.checkpoint.disk w stage') : Kept (s.checkpoint.goto w stage') := by
  refine hk.proceed hwork (grows_checkpoint _ s) hk.opened rfl rfl fun w' stage'' h => ?_
  obtain ⟨rfl, rfl⟩ := Prod.mk.inj (Option.some.inj h)
  exact ⟨rfl, hfits⟩

theorem kept_copyFile (hk : Kept s) (hwork : s.work = some (w, .copyFile lock)) :
    Kept (copyFile s w fails error lock) := by
  rcases copyFile_cases s w fails error lock with ⟨i, hi, heq⟩ | heq <;> rw [heq]
  · refine hk.goto hwork (grows_create _) ⟨fun i hmade => ?_, fun h => (by cases h), fun h => (by cases h)⟩
    cases hmade
    exact Nat.lt_succ_self _
  · exact hk.stay hwork (.free rfl rfl rfl)

theorem kept_setAside (hk : Kept s) (hwork : s.work = some (w, .setAside lock copy)) :
    Kept (setAside s w fails error lock copy) := by
  have hfits := hk.fits _ _ hwork
  rcases setAside_cases s w fails error lock copy with ⟨i, hsame, hi, heq⟩ | ⟨hsame, heq⟩ | heq <;> rw [heq]
  · refine hk.goto hwork ((grows_point (by simp)).trans (grows_unlink (by simp)))
      ⟨hfits.made, fun h => (by cases h), fun _ _ _ => ⟨i, ?_⟩⟩
    rw [Disk.unlink_of_ne (by simp), Disk.point_self, hi]
  · refine hk.stay hwork ⟨hfits.made, fun h => (by cases h), fun _ hrename hsameFile => ?_⟩
    simp [hrename, hsameFile] at hsame
  · exact hk.stay hwork (.free rfl rfl rfl)

theorem kept_install (hk : Kept s) (hwork : s.work = some (w, .install lock copy)) :
    Kept (install s w fails error lock copy) := by
  have hfits := hk.fits _ _ hwork
  rcases install_cases s w fails error lock copy with ⟨i, hlock, hi, heq⟩ | ⟨i, hfree, hi, heq⟩ | ⟨hrename, heq⟩ | ⟨hrename, heq⟩ <;>
    rw [heq]
  · refine hk.goto hwork ((grows_point (by simp)).trans (grows_unlink (by simp)))
      ⟨hfits.made, fun h => (by cases h), fun _ hrename hsame => ?_⟩
    rw [Disk.unlink_of_ne (by simp), Disk.point_of_ne (by simp)]
    exact hfits.aside rfl hrename hsame
  · refine hk.goto hwork (grows_point (by simp)) ⟨hfits.made, fun h => (by cases h), fun _ hrename hsame => ?_⟩
    rw [Disk.point_of_ne (by simp)]
    exact hfits.aside rfl hrename hsame
  · exact hk.stay hwork ⟨fun i h => (by cases h), fun _ => hrename, fun _ => hfits.aside rfl⟩
  · exact hk.stay hwork (.free rfl rfl rfl)

omit [DecidableEq Name] in
theorem kept_reopen (hk : Kept s) (hwork : s.work = some (w, .reopen copy)) : Kept (reopen s w fails error copy) := by
  have hfits := hk.fits _ _ hwork
  rcases reopen_cases s w fails error copy with ⟨i, hi, heq⟩ | heq <;> rw [heq]
  · have hmade : i < s.disk.next := s.disk.bounded _ i hi
    split
    · refine hk.stay hwork ⟨fun j hj => ?_, fun h => (by cases h), fun h => (by cases h)⟩
      cases hj
      exact hmade
    · refine hk.stay hwork ⟨fun j hj => ?_, fun h => (by cases h), fun h => (by cases h)⟩
      cases hj
      exact hmade
  · split
    · next hrename => exact hk.stay hwork ⟨hfits.made, fun _ => hrename, fun _ => hfits.aside rfl⟩
    · exact hk.stay hwork (.free rfl rfl rfl)

theorem kept_discard (hk : Kept s) (hwork : s.work = some (w, .discard copy first)) :
    Kept ((removeCopy s w fails).goto w (.restore first)) := by
  have hfits := hk.fits _ _ hwork
  rcases removeCopy_cases s w fails with heq | heq <;> rw [heq]
  · exact hk.stay hwork ⟨fun i h => (by cases h), hfits.undoes, fun _ => hfits.aside rfl⟩
  · refine hk.goto hwork (grows_unlink (by simp)) ⟨fun i h => (by cases h), hfits.undoes, fun _ hrename hsame => ?_⟩
    rw [Disk.unlink_of_ne (by simp)]
    exact hfits.aside rfl hrename hsame

/-- A folder that is kept joins those that are. -/
theorem kept_restore (hk : Kept s) (hwork : s.work = some (w, .restore first)) :
    Kept (restore s display w fails error first) := by
  have hfits := hk.fits _ _ hwork
  rcases restore_cases s w fails error first display with ⟨i, hsame, hi, hfree, heq⟩ | ⟨hsame, heq⟩ | ⟨hsame, heq⟩ <;> rw [heq]
  · exact hk.fail hwork (grows_point (by simp))
  · obtain ⟨i, hi⟩ := hfits.aside rfl (hfits.undoes rfl) hsame
    have hfolder := (hk.running _ _ hwork).1
    refine ⟨hk.opened, ?_, fun _ _ h => (by cases h), fun _ _ h => (by cases h), ?_⟩
    · intro backup hbackup
      rcases List.mem_append.mp hbackup with hold | hnew
      · exact hk.numbered backup hold
      · rw [List.mem_singleton.mp hnew]
        exact hfolder
    · intro backup hbackup
      rcases List.mem_append.mp hbackup with hold | hnew
      · exact hk.backed backup hold
      · rw [List.mem_singleton.mp hnew]
        exact ⟨i, hi, by simp [hi, retain]⟩
  · exact hk.stay hwork (.free rfl rfl rfl)

theorem kept_moveAway (hk : Kept s) (hwork : s.work = some (w, .moveAway copy)) :
    Kept (moveAway s w fails error copy) := by
  have hfits := hk.fits _ _ hwork
  rcases moveAway_cases s w fails error copy with ⟨i, hi, heq⟩ | heq <;> rw [heq]
  · exact hk.goto hwork ((grows_point (by simp)).trans (grows_unlink (by simp)))
      ⟨hfits.made, fun h => (by cases h), fun h => (by cases h)⟩
  · exact hk.stay hwork ⟨hfits.made, fun h => (by cases h), fun h => (by cases h)⟩

theorem kept_withdraw (hk : Kept s) (hwork : s.work = some (w, .withdraw copy first)) :
    Kept ((removeCopy s w fails).fail w first) := by
  rcases removeCopy_cases s w fails with heq | heq <;> rw [heq]
  · exact hk.stay hwork (.free rfl rfl rfl)
  · exact hk.fail hwork (grows_unlink (by simp))

theorem kept_replace (hk : Kept s) (hwork : s.work = some (w, .replace copy)) : Kept (replace s w copy) := by
  have hgrows : Grows w.folder s.disk (replace s w copy).disk := by
    change Grows w.folder s.disk (if s.temporary then s.disk.unlink _ else s.disk)
    split
    · exact grows_unlink (by simp)
    · exact Grows.refl _ _
  have hcopy : copy < s.disk.next := (hk.fits _ _ hwork).made copy rfl
  refine hk.proceed hwork hgrows (Nat.lt_of_lt_of_le hcopy hgrows.next) rfl rfl fun w' stage' h => ?_
  obtain ⟨rfl, rfl⟩ := Prod.mk.inj (Option.some.inj h)
  exact ⟨rfl, .free rfl rfl rfl⟩

theorem kept_leave {result : Except Error Unit} (hk : Kept s) (hwork : s.work = some (w, .leave result)) :
    Kept (leave s w fails result) := by
  have hgrows : Grows w.folder s.disk (leave s w fails result).disk := by
    change Grows w.folder s.disk (if fails then s.disk else _)
    split
    · exact Grows.refl _ _
    · refine (grows_unlink (by simp)).trans (grows_unlink fun n hn => ?_)
      simpa using hn
  exact hk.proceed hwork hgrows (Nat.lt_of_lt_of_le hk.opened hgrows.next) rfl rfl fun _ _ h => by cases h

theorem kept_perform (display : Nat → String) (fails : Bool) (error : Error) (hk : Kept s) (hwork : s.work = some (w, stage)) : Kept (perform s display w fails error stage) := by
  have hfits := hk.fits _ _ hwork
  cases stage with
  | checkpointHere =>
      cases fails
      · exact hk.checkpointed hwork (.free rfl rfl rfl)
      · exact hk.stay hwork (.free rfl rfl rfl)
  | lockDestination =>
      rcases lockDestination_cases s w fails error with ⟨-, heq⟩ | ⟨-, heq⟩ | heq <;> rw [perform, heq]
      · exact hk.stay hwork (.free rfl rfl rfl)
      · exact hk.stay hwork (.free rfl rfl rfl)
      · exact hk.stay hwork (.free rfl rfl rfl)
  | checkpoint lock =>
      cases fails
      · exact hk.checkpointed hwork (.free rfl rfl rfl)
      · exact hk.stay hwork (.free rfl rfl rfl)
  | stage lock =>
      cases fails
      · exact hk.stay hwork (.free rfl rfl rfl)
      · exact hk.stay hwork (.free rfl rfl rfl)
  | copyFile lock => exact kept_copyFile hk hwork
  | prepare lock copy =>
      cases fails
      · exact hk.stay hwork ⟨hfits.made, fun h => (by cases h), fun h => (by cases h)⟩
      · exact hk.stay hwork (.free rfl rfl rfl)
  | setAside lock copy => exact kept_setAside hk hwork
  | install lock copy => exact kept_install hk hwork
  | reopen copy => exact kept_reopen hk hwork
  | discard copy first => exact kept_discard hk hwork
  | restore first => exact kept_restore hk hwork
  | moveAway copy => exact kept_moveAway hk hwork
  | withdraw copy first => exact kept_withdraw hk hwork
  | replace copy => exact kept_replace hk hwork
  | info => exact hk.stay hwork (.free rfl rfl rfl)
  | leave result => exact kept_leave hk hwork

end Kept

section Runs

variable [DecidableEq Name] {display : Nat → String} {es : List (Event Name V)}

/-- A project that is open and has its file. -/
structure Start (s : State Name V) : Prop where
  idle : s.work = none
  owned : s.disk.entry (.path s.path.name) = some s.file
  content : s.disk.contents s.file ++ s.log = s.committed
  backups : s.backups = []

/-- The first folder that is kept holds all that was committed, and each is named
in the answer to its call. -/
structure Reported (display : Nat → String) (s : State Name V) : Prop where
  first : ∀ backup ∈ s.backups.head?, backup.contents = backup.committed
  named : ∀ backup ∈ s.backups, ∃ answer ∈ s.answers, answer.work.folder = backup.folder ∧
    ∃ error restore, answer.result = .error (renameFailed error restore (display backup.folder))

/-- What holds all along a run. -/
structure Safe (display : Nat → String) (s : State Name V) : Prop where
  kept : Kept s
  whole : s.backups = [] → Whole s
  reported : Reported display s

theorem whole_saveTo (path : Path Name) (rename : Bool) (hw : Whole s) (hidle : s.work = none)
    (htemporary : ¬(rename = true ∧ s.temporary = true)) : Whole (saveTo s path rename) := by
  have howned : Owned s := hw.idle hidle
  unfold saveTo
  dsimp only
  split
  · exact Whole.goto (s := { s with folders := s.folders + 1 }) hw.content howned fun h => by cases h
  · next hhere =>
      split
      · exact Whole.fail (s := { s with folders := s.folders + 1 }) hw.content howned
      · refine Whole.goto (s := { s with folders := s.folders + 1 }) hw.content howned fun _ => ⟨?_, ?_, ?_, ?_⟩
        · change ((s.disk.entry (.path path.name)).isSome && path.name == s.path.name) = true ↔ path.name = s.path.name
          simp only [Bool.and_eq_true, beq_iff_eq, and_iff_right_iff_imp]
          intro hname
          rw [hname, howned]
          rfl
        · intro hsame
          change rename = true
          by_contra hrename
          exact hhere (by simpa [hrename] using hsame)
        · intro h
          cases rename
          · rfl
          · exact (htemporary ⟨rfl, h⟩).elim
        · intro h
          cases h

theorem kept_saveTo (path : Path Name) (rename : Bool) (hk : Kept s) : Kept (saveTo s path rename) := by
  have hgoto (w : Work Name) (stage : Stage) (hw : w.folder = s.folders) (hfits : Fits s.disk w stage) :
      Kept ({ s with folders := s.folders + 1 }.goto w stage) := by
    refine ⟨hk.opened, fun backup hb => Nat.lt_succ_of_lt (hk.numbered backup hb), ?_, ?_, hk.backed⟩
    · intro w' stage' h
      obtain ⟨rfl, rfl⟩ := Prod.mk.inj (Option.some.inj h)
      rw [hw]
      exact ⟨Nat.lt_succ_self _, fun backup hb => Nat.ne_of_lt (hk.numbered backup hb)⟩
    · intro w' stage' h
      obtain ⟨rfl, rfl⟩ := Prod.mk.inj (Option.some.inj h)
      exact hfits
  unfold saveTo
  dsimp only
  split
  · exact hgoto _ _ rfl (.free rfl rfl rfl)
  · split
    · exact hgoto _ _ rfl (.free rfl rfl rfl)
    · exact hgoto _ _ rfl (.free rfl rfl rfl)

/-- Folders are kept, and answers taken back, by no other operation. -/
theorem perform_reports (display : Nat → String) (s : State Name V) (w : Work Name) (fails : Bool) (error : Error) (stage : Stage) :
    ((perform s display w fails error stage).backups = s.backups ∧
      s.answers ⊆ (perform s display w fails error stage).answers) ∨
    ∃ first, stage = .restore first ∧ w.sameFile = true ∧
      perform s display w fails error stage = retain s display w error first := by
  have hsame : s.backups = s.backups ∧ s.answers ⊆ s.answers := ⟨rfl, List.Subset.refl _⟩
  cases stage with
  | checkpointHere | checkpoint | stage | prepare =>
      cases fails
      · exact .inl hsame
      · exact .inl hsame
  | lockDestination =>
      rcases lockDestination_cases s w fails error with ⟨-, heq⟩ | ⟨-, heq⟩ | heq <;> rw [perform, heq] <;> exact .inl hsame
  | copyFile lock =>
      rcases copyFile_cases s w fails error lock with ⟨i, -, heq⟩ | heq <;> rw [perform, heq] <;> exact .inl hsame
  | setAside lock copy =>
      rcases setAside_cases s w fails error lock copy with ⟨i, -, -, heq⟩ | ⟨-, heq⟩ | heq <;> rw [perform, heq] <;>
        exact .inl hsame
  | install lock copy =>
      rcases install_cases s w fails error lock copy with ⟨i, -, -, heq⟩ | ⟨i, -, -, heq⟩ | ⟨-, heq⟩ | ⟨-, heq⟩ <;>
        rw [perform, heq] <;> exact .inl hsame
  | reopen copy =>
      rcases reopen_cases s w fails error copy with ⟨i, -, heq⟩ | heq <;> rw [perform, heq] <;> exact .inl hsame
  | discard copy first =>
      rcases removeCopy_cases s w fails with heq | heq <;> rw [perform, heq] <;> exact .inl hsame
  | restore first =>
      rcases restore_cases s w fails error first display with ⟨i, -, -, -, heq⟩ | ⟨hsameFile, heq⟩ | ⟨-, heq⟩
      · rw [perform, heq]
        exact .inl hsame
      · exact .inr ⟨first, rfl, hsameFile, heq⟩
      · rw [perform, heq]
        exact .inl hsame
  | moveAway copy =>
      rcases moveAway_cases s w fails error copy with ⟨i, -, heq⟩ | heq <;> rw [perform, heq] <;> exact .inl hsame
  | withdraw copy first =>
      rcases removeCopy_cases s w fails with heq | heq <;> rw [perform, heq] <;> exact .inl hsame
  | replace | info => exact .inl hsame
  | leave result => exact .inl ⟨rfl, List.subset_append_left _ _⟩

omit [DecidableEq Name] in
theorem Reported.keeps (h : Reported display s) (hbackups : t.backups = s.backups) (hanswers : s.answers ⊆ t.answers) :
    Reported display t := by
  refine ⟨hbackups ▸ h.first, fun backup hbackup => ?_⟩
  obtain ⟨answer, hanswer, hnamed⟩ := h.named backup (hbackups ▸ hbackup)
  exact ⟨answer, hanswers hanswer, hnamed⟩

omit [DecidableEq Name] in
/-- What is kept first is the original with all that was committed. -/
theorem reported_retain {error first : Error} (h : Reported display s) (hw : s.backups = [] → Whole s)
    (hwork : s.work = some (w, .restore first)) (hsame : w.sameFile = true) :
    Reported display (retain s display w error first) where
  first backup hbackup := by
    by_cases hnone : s.backups = []
    · obtain ⟨hrename, horiginal, hlog⟩ := (hw hnone).stands _ _ hwork
      have hfile : s.disk.entry (.original w.folder) = some s.file := by
        simpa [Original, hrename, hsame] using horiginal
      have hcontent : s.disk.contents s.file = s.committed := by simpa [hlog] using (hw hnone).content
      simp only [retain, hnone, List.nil_append, List.head?_cons, Option.mem_some, hfile, Option.map_some,
        Option.getD_some, hcontent] at hbackup
      subst hbackup
      rfl
    · obtain ⟨head, rest, hcons⟩ := List.exists_cons_of_ne_nil hnone
      refine h.first backup ?_
      simpa [retain, hcons] using hbackup
  named backup hbackup := by
    rcases List.mem_append.mp hbackup with hold | hnew
    · obtain ⟨answer, hanswer, hnamed⟩ := h.named backup hold
      exact ⟨answer, List.mem_append_left _ hanswer, hnamed⟩
    · rw [List.mem_singleton.mp hnew]
      exact ⟨_, List.mem_append_right _ (List.mem_singleton.mpr rfl), rfl, first, error.message, rfl⟩

theorem safe_perform {fails : Bool} {error : Error} (h : Safe display s) (hwork : s.work = some (w, stage)) :
    Safe display (perform s display w fails error stage) := by
  have hkept := kept_perform display fails error h.kept hwork
  rcases perform_reports display s w fails error stage with ⟨hbackups, hanswers⟩ | ⟨first, rfl, hsame, heq⟩
  · refine ⟨hkept, fun hnone => ?_, h.reported.keeps hbackups hanswers⟩
    exact whole_perform (h.whole (hbackups ▸ hnone)) h.kept hwork hnone
  · rw [heq] at hkept ⊢
    refine ⟨hkept, fun hnone => ?_, reported_retain h.reported h.whole hwork hsame⟩
    simp [retain] at hnone

omit [DecidableEq Name] in
/-- A step that starts no save from a state in which none runs. -/
theorem Whole.rest (hidle : t.work = none) (hcontent : t.disk.contents t.file ++ t.log = t.committed) (howned : Owned t) :
    Whole t :=
  ⟨hcontent, fun _ => howned, fun _ _ h => by simp [hidle] at h, fun _ _ h => by simp [hidle] at h⟩

omit [DecidableEq Name] in
theorem safe_commit (change : V) (h : Safe display s) (hidle : s.work = none) :
    Safe display { s with log := s.log ++ [change], committed := s.committed ++ [change] } := by
  refine ⟨⟨h.kept.opened, h.kept.numbered, h.kept.running, h.kept.fits, h.kept.backed⟩, fun hnone => ?_,
    h.reported.keeps rfl (List.Subset.refl _)⟩
  have hw := h.whole hnone
  refine Whole.rest hidle ?_ (hw.idle hidle)
  change s.disk.contents s.file ++ (s.log ++ [change]) = s.committed ++ [change]
  rw [← List.append_assoc, hw.content]

omit [DecidableEq Name] in
theorem safe_checkpoint (h : Safe display s) (hidle : s.work = none) : Safe display s.checkpoint := by
  refine ⟨⟨h.kept.opened, h.kept.numbered, h.kept.running, fun _ _ hwork => ?_, fun backup hbackup => ?_⟩,
    fun hnone => ?_, h.reported.keeps rfl (List.Subset.refl _)⟩
  · change s.work = _ at hwork
    simp [hidle] at hwork
  · obtain ⟨i, hi, hprefix⟩ := h.kept.backed backup hbackup
    exact ⟨i, hi, hprefix.trans ((grows_checkpoint 0 s).contents i (s.disk.bounded _ i hi))⟩
  · exact Whole.rest hidle (Whole.checkpointed (h.whole hnone).content) ((h.whole hnone).idle hidle)

/-- How a call begins. -/
theorem saveTo_cases (s : State Name V) (path : Path Name) (rename : Bool) :
    ∃ w stage, saveTo s path rename = { s with folders := s.folders + 1 }.goto w stage ∧
      (w.path = path ∧ w.folder = s.folders ∧ w.ownedPath = s.path ∧ w.ownedFile = s.file) ∧
      ((stage = .checkpointHere ∧ path.name = s.path.name) ∨
        (stage = .leave (.error fileExists) ∧ rename = true ∧ (s.disk.entry (.path path.name)).isSome = true ∧
          path.name ≠ s.path.name) ∨
        stage = .lockDestination) := by
  unfold saveTo
  dsimp only
  split
  · next hhere =>
      refine ⟨_, _, rfl, ⟨rfl, rfl, rfl, rfl⟩, .inl ⟨rfl, ?_⟩⟩
      simp only [Bool.and_eq_true, beq_iff_eq] at hhere
      exact hhere.1.2
  · split
    · next hother =>
        refine ⟨_, _, rfl, ⟨rfl, rfl, rfl, rfl⟩, .inr (.inl ⟨rfl, ?_⟩)⟩
        simp only [Bool.and_eq_true, Bool.not_eq_true', Bool.and_eq_false_iff, beq_eq_false_iff_ne] at hother
        obtain ⟨⟨hrename, hpresent⟩, hsame⟩ := hother
        exact ⟨hrename, hpresent, hsame.resolve_left (by simp [hpresent])⟩
    · exact ⟨_, _, rfl, ⟨rfl, rfl, rfl, rfl⟩, .inr (.inr rfl)⟩

theorem safe_step {e : Event Name V} (h : Safe display s) (hstep : step display s e = some t) : Safe display t := by
  cases e with
  | commit change =>
      obtain ⟨hidle, heq⟩ := Option.ite_none_right_eq_some.mp hstep
      exact Option.some.inj heq ▸ safe_commit change h (Option.isNone_iff_eq_none.mp hidle)
  | checkpoint =>
      obtain ⟨hidle, heq⟩ := Option.ite_none_right_eq_some.mp hstep
      exact Option.some.inj heq ▸ safe_checkpoint h (Option.isNone_iff_eq_none.mp hidle)
  | save path rename =>
      obtain ⟨hguard, heq⟩ := Option.ite_none_right_eq_some.mp hstep
      obtain ⟨hidle, htemporary⟩ : s.work = none ∧ ¬(rename = true ∧ s.temporary = true) := by
        simpa [Bool.not_eq_true', Bool.and_eq_false_iff, imp_iff_not_or] using hguard
      have hkept := kept_saveTo path rename h.kept
      have hwhole (hnone : s.backups = []) := whole_saveTo path rename (h.whole hnone) hidle htemporary
      obtain ⟨w, stage, hgoes, -⟩ := saveTo_cases s path rename
      rw [hgoes] at hkept hwhole heq
      exact Option.some.inj heq ▸ ⟨hkept, hwhole, h.reported.keeps rfl (List.Subset.refl _)⟩
  | proceed fails error =>
      obtain ⟨⟨w, stage⟩, hwork, rfl⟩ := Option.map_eq_some_iff.mp hstep
      exact safe_perform h hwork
  | other act =>
      obtain ⟨d, hd, rfl⟩ := Option.map_eq_some_iff.mp hstep
      have hkeeps := others_keeps hd
      exact ⟨h.kept.keeps hkeeps, fun hnone => (h.whole hnone).keeps hkeeps h.kept,
        h.reported.keeps rfl (List.Subset.refl _)⟩

omit [DecidableEq Name] in
theorem Start.safe (h : Start s) : Safe display s := by
  have hnone (backup : Backup V) (hbackup : backup ∈ s.backups) : False := by simp [h.backups] at hbackup
  refine ⟨⟨s.disk.bounded _ _ h.owned, fun b hb => (hnone b hb).elim, fun _ _ hwork => ?_, fun _ _ hwork => ?_,
    fun b hb => (hnone b hb).elim⟩, fun _ => Whole.rest h.idle h.content h.owned, ?_, fun b hb => (hnone b hb).elim⟩
  · simp [h.idle] at hwork
  · simp [h.idle] at hwork
  · simp [h.backups]

/-- Where the project can be: its path, and while a save runs the folder of the
save and the destination. -/
def homes (s : State Name V) : List (Place Name) :=
  .path s.path.name :: (s.work.toList.flatMap fun work => [.original work.1.folder, .path work.1.path.name])

omit [DecidableEq Name] in
theorem Whole.home (h : Whole s) : ∃ p ∈ homes s, ∃ i, s.disk.entry p = some i ∧ s.disk.contents i ++ s.log = s.committed := by
  have howned (h' : Owned s) : ∃ p ∈ homes s, ∃ i, s.disk.entry p = some i ∧ s.disk.contents i ++ s.log = s.committed :=
    ⟨_, List.mem_cons_self, s.file, h', h.content⟩
  cases hwork : s.work with
  | none => exact howned (h.idle hwork)
  | some work =>
      obtain ⟨w, stage⟩ := work
      have hmem (p : Place Name) (hp : p ∈ [.original w.folder, .path w.path.name]) : p ∈ homes s := by
        simp only [homes, hwork, Option.toList_some, List.flatMap_singleton]
        exact List.mem_cons_of_mem _ hp
      have horiginal (h' : Original s w) :
          ∃ p ∈ homes s, ∃ i, s.disk.entry p = some i ∧ s.disk.contents i ++ s.log = s.committed := by
        refine ⟨_, ?_, s.file, h', h.content⟩
        split
        · exact hmem _ (by simp)
        · exact List.mem_cons_self
      have hstands := h.stands w stage hwork
      cases stage with
      | checkpointHere | lockDestination | checkpoint | info | leave => exact howned hstands
      | stage | copyFile | prepare | setAside => exact howned hstands.1
      | install | reopen => exact horiginal hstands.1
      | discard | restore => exact horiginal hstands.2.1
      | moveAway => exact howned hstands.2.2.1
      | withdraw => exact howned hstands.2.1
      | replace copy => exact ⟨_, hmem _ (by simp), copy, hstands.2.1, by simp [hstands.2.2.2, hstands.2.2.1]⟩

/-- Whatever fails in saves and renames and whatever other programs do meanwhile,
at every moment all that was committed is in one file and its log under the path
of the project or the names that the running save moves it between, until an
original cannot be linked back: then it is in the folder that the answer names,
where it stays. -/
theorem project_never_lost (hs : Start s) (h : exec (step display) s es = some t) :
    (t.backups = [] →
      (∃ p ∈ homes t, ∃ i, t.disk.entry p = some i ∧ t.disk.contents i ++ t.log = t.committed) ∧
      (t.work = none → t.disk.entry (.path t.path.name) = some t.file ∧
        t.disk.contents t.file ++ t.log = t.committed)) ∧
    (∀ backup ∈ t.backups.head?, backup.contents = backup.committed) ∧
    ∀ backup ∈ t.backups,
      (∃ i, t.disk.entry (.original backup.folder) = some i ∧ backup.contents <+: t.disk.contents i) ∧
      ∃ answer ∈ t.answers, answer.work.folder = backup.folder ∧
        ∃ error restore, answer.result = .error (renameFailed error restore (display backup.folder)) := by
  have hsafe : Safe display t := exec_invariant safe_step hs.safe h
  refine ⟨fun hnone => ⟨(hsafe.whole hnone).home, fun hidle => ?_⟩, hsafe.reported.first, fun backup hbackup => ?_⟩
  · exact ⟨(hsafe.whole hnone).idle hidle, (hsafe.whole hnone).content⟩
  · exact ⟨hsafe.kept.backed backup hbackup, hsafe.reported.named backup hbackup⟩

/-- A project with one change in its file, which is the only one. -/
def study : State Nat Nat where
  disk := Disk.create ⟨fun _ => none, fun _ => [], 0, fun _ _ h => (Option.some_ne_none _ h.symm).elim⟩ (.path 0) [7]
  path := ⟨0, "Study.wfpj"⟩
  temporary := false
  file := 0
  log := []
  folders := 0
  work := none
  committed := [7]
  backups := []
  answers := []

theorem study_start : Start study := ⟨rfl, rfl, rfl, rfl⟩

def proceeds (n : Nat) : List (Event Nat Nat) := List.replicate n (.proceed false ⟨"io_error", "File exists"⟩)

/-- A rename that only changes letter case, while another program takes the name
that has become free. -/
def taken : List (Event Nat Nat) :=
  [.commit 8, .save ⟨0, "study.wfpj"⟩ true] ++ proceeds 6 ++ [.other (.create (.path 0) [9])] ++ proceeds 2

theorem taken_kept : ∃ t, exec (step toString) study taken = some t ∧ t.backups = [⟨0, [7, 8], [7, 8]⟩] ∧
    ∃ i, t.disk.entry (.original 0) = some i ∧ [7, 8] <+: t.disk.contents i := by
  obtain ⟨t, ht⟩ : ∃ t, exec (step toString) study taken = some t := ⟨_, rfl⟩
  have hbackups : (exec (step toString) study taken).map State.backups = some [⟨0, [7, 8], [7, 8]⟩] := rfl
  rw [ht, Option.map_some, Option.some.injEq] at hbackups
  have hkept := ((project_never_lost study_start ht).2.2 ⟨0, [7, 8], [7, 8]⟩ (by rw [hbackups]; exact List.mem_cons_self)).1
  exact ⟨t, ht, hbackups, hkept⟩

end Runs

end Wordflow.Saving
