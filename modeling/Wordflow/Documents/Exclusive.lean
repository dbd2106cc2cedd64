import Wordflow.Documents.Ownership

namespace Wordflow.Ownership

open Library.OrderedMap Library.Run Objects

section Paths

variable {Path : Type} [DecidableEq Path] {resolve : Path → Path} {s t : State Path}

structure Invariant (resolve : Path → Path) (s : State Path) : Prop where
  fresh : ∀ label document, s.windows.get? label = some document → label < s.sequence
  canonical : ∀ file ∈ s.files, resolve file = file
  registered : ∀ label document path, s.windows.get? label = some document → document.path = some path → path ∈ s.files
  distinct : ∀ label label' document document' path, s.windows.get? label = some document →
    s.windows.get? label' = some document' → document.path = some path → document'.path = some path → label = label'
  agrees : ∀ label document, s.windows.get? label = some document → document.runtime.alive →
    document.path = document.runtime.path
  opening : ∀ path, s.gate = some (.opening (some path)) → path ∈ s.files
  saving : ∀ label path, s.gate = some (.saving label (some path)) → ∀ other document,
    s.windows.get? other = some document → other ≠ label → document.path ≠ some (resolve path)
  exporting : ∀ target replace, s.gate = some (.exporting target replace) → ∀ label document,
    s.windows.get? label = some document → document.path ≠ some (resolve target)

theorem canonicalize_eq_some {path found : Path} :
    canonicalize resolve s path = some found ↔ resolve path ∈ s.files ∧ resolve path = found := by
  unfold canonicalize
  split <;> simp [*]

theorem mem_owners {path : Path} {label : Label} :
    label ∈ owners s path ↔ ∃ document, s.windows.get? label = some document ∧ document.path = some path := by
  simp only [owners, List.mem_filterMap, Option.ite_none_right_eq_some, Option.some.injEq]
  constructor
  · rintro ⟨⟨key, document⟩, he, hpath, rfl⟩
    exact ⟨document, (get?_eq_some s.windows.sorted).mpr he, hpath⟩
  · rintro ⟨document, hget, hpath⟩
    exact ⟨(label, document), (get?_eq_some s.windows.sorted).mp hget, hpath, rfl⟩

omit [DecidableEq Path] in
/-- The gate is left. -/
theorem Invariant.leave (hs : Invariant resolve s) : Invariant resolve { s with gate := none } :=
  { hs with opening := by simp, saving := by simp, exporting := by simp }

omit [DecidableEq Path] in
/-- Windows may go. -/
theorem Invariant.shrink (hs : Invariant resolve s) {windows : Map Label (Document Path)}
    (hwindows : ∀ label document, windows.get? label = some document → s.windows.get? label = some document) :
    Invariant resolve { s with windows := windows } where
  fresh label document h := hs.fresh label document (hwindows label document h)
  canonical := hs.canonical
  registered label document path h := hs.registered label document path (hwindows label document h)
  distinct label label' document document' path h h' :=
    hs.distinct label label' document document' path (hwindows label document h) (hwindows label' document' h')
  agrees label document h := hs.agrees label document (hwindows label document h)
  opening := hs.opening
  saving label path h other document hget := hs.saving label path h other document (hwindows other document hget)
  exporting target replace h other document hget :=
    hs.exporting target replace h other document (hwindows other document hget)

omit [DecidableEq Path] in
theorem Invariant.starting (hs : Invariant resolve s) {label : Label} {document : Document Path} {path : Option Path}
    (hget : s.windows.get? label = some document) (h : document.runtime = .starting path) : document.path = path := by
  have hagrees := hs.agrees label document hget
  rw [h] at hagrees
  exact hagrees rfl

omit [DecidableEq Path] in
/-- A runtime changes, to one that has the registered path or has ended. -/
theorem Invariant.setRuntime (hs : Invariant resolve s) {label : Label} {runtime : Runtime Path}
    (hruntime : ∀ document, s.windows.get? label = some document → runtime.alive → document.path = runtime.path) :
    Invariant resolve (setRuntime s label runtime) := by
  have hget : ∀ other document, (Ownership.setRuntime s label runtime).windows.get? other = some document →
      ∃ old, s.windows.get? other = some old ∧ old.path = document.path ∧
        (document.runtime.alive → document.path = document.runtime.path) := by
    intro other document h
    simp only [Ownership.setRuntime, Map.get?_modify] at h
    split at h
    · rename_i heq
      subst heq
      obtain ⟨old, hold, rfl⟩ := Option.map_eq_some_iff.mp h
      exact ⟨old, hold, rfl, hruntime old hold⟩
    · exact ⟨document, h, rfl, hs.agrees other document h⟩
  refine ⟨fun other document h => ?_, hs.canonical, fun other document path h hpath => ?_,
    fun other other' document document' path h h' hpath hpath' => ?_, fun other document h => ?_, hs.opening,
    fun saved path hgate other document h hne => ?_, fun target replace hgate other document h => ?_⟩
  · obtain ⟨old, hold, -⟩ := hget other document h
    exact hs.fresh other old hold
  · obtain ⟨old, hold, hsame, -⟩ := hget other document h
    exact hs.registered other old path hold (hsame.trans hpath)
  · obtain ⟨old, hold, hsame, -⟩ := hget other document h
    obtain ⟨old', hold', hsame', -⟩ := hget other' document' h'
    exact hs.distinct other other' old old' path hold hold' (hsame.trans hpath) (hsame'.trans hpath')
  · exact (hget other document h).choose_spec.2.2
  · obtain ⟨old, hold, hsame, -⟩ := hget other document h
    exact hsame ▸ hs.saving saved path hgate other old hold hne
  · obtain ⟨old, hold, hsame, -⟩ := hget other document h
    exact hsame ▸ hs.exporting target replace hgate other old hold

theorem Invariant.openWindow (hs : Invariant resolve s) {path : Option Path} (h : openWindow resolve s path = some t) :
    Invariant resolve t := by
  cases path with
  | none =>
      obtain rfl := Option.some.inj h
      exact { hs with opening := by simp, saving := by simp, exporting := by simp }
  | some path =>
      obtain ⟨found, hfound, rfl⟩ := Option.map_eq_some_iff.mp h
      refine { hs with opening := ?_, saving := by simp, exporting := by simp }
      intro other hother
      obtain rfl : found = other := by simpa using hother
      obtain ⟨hmem, rfl⟩ := canonicalize_eq_some.mp hfound
      exact hmem

theorem Invariant.insert (hs : Invariant resolve s) {path : Option Path} {built : Bool}
    (hgate : s.gate = some (.opening path)) : Invariant resolve (insert s path built) := by
  have hleft := hs.leave
  unfold Ownership.insert
  dsimp only
  split
  · exact hleft
  · rename_i howners
    have hfree : ∀ p, path = some p → ∀ label document, s.windows.get? label = some document → document.path ≠ some p := by
      rintro p rfl label document hget hpath
      have hnone : owners s p = [] := by simpa [owners] using howners
      have hmem : label ∈ owners s p := mem_owners.mpr ⟨document, hget, hpath⟩
      simp [hnone] at hmem
    have hgrown : ∀ label document, s.windows.get? label = some document → label < s.sequence + 1 :=
      fun label document h => Nat.lt_succ_of_lt (hs.fresh label document h)
    split
    · refine ⟨fun label document h => ?_, hs.canonical, fun label document p h hp => ?_,
        fun label label' document document' p h h' hp hp' => ?_, fun label document h halive => ?_,
        by simp, by simp, by simp⟩
      · simp only [Nat.add_sub_cancel, Map.get?_insert] at h
        split at h
        · rename_i heq
          exact heq ▸ Nat.lt_succ_self _
        · exact hgrown label document h
      · simp only [Nat.add_sub_cancel, Map.get?_insert] at h
        split at h
        · obtain rfl := Option.some.inj h
          exact hs.opening p (hp ▸ hgate)
        · exact hs.registered label document p h hp
      · simp only [Nat.add_sub_cancel, Map.get?_insert] at h h'
        split at h <;> split at h'
        · rename_i heq heq'
          exact heq.trans heq'.symm
        · obtain rfl := Option.some.inj h
          exact absurd hp' (hfree p hp label' document' h')
        · obtain rfl := Option.some.inj h'
          exact absurd hp (hfree p hp' label document h)
        · exact hs.distinct label label' document document' p h h' hp hp'
      · simp only [Nat.add_sub_cancel, Map.get?_insert] at h
        split at h
        · obtain rfl := Option.some.inj h
          rfl
        · exact hs.agrees label document h halive
    · exact { hleft with fresh := hgrown }

theorem Invariant.saveProject (hs : Invariant resolve s) {label : Label} {destination : Option Path}
    (h : saveProject resolve s label destination = .ok t) : Invariant resolve t := by
  cases destination with
  | none =>
      obtain rfl := Except.ok.inj h
      exact { hs with opening := by simp, saving := by simp, exporting := by simp }
  | some path =>
      simp only [Ownership.saveProject] at h
      split at h
      · contradiction
      · rename_i hothers
        obtain rfl := Except.ok.inj h
        refine { hs with opening := by simp, saving := ?_, exporting := by simp }
        rintro saved target hgate other document hget hne hpath
        simp only [Option.some.injEq, Gate.saving.injEq] at hgate
        obtain ⟨rfl, rfl⟩ := hgate
        have hmem := hs.registered other document _ hget hpath
        have hcanonical : (canonicalize resolve s path).getD path = resolve path := by
          rw [canonicalize_eq_some.mpr ⟨hmem, rfl⟩, Option.getD_some]
        rw [hcanonical] at hothers
        refine hothers (List.any_eq_true.mpr ⟨other, mem_owners.mpr ⟨document, hget, hpath⟩, ?_⟩)
        simpa using hne

theorem Invariant.exportTo (hs : Invariant resolve s) {target : Path} {replace : Bool}
    (h : exportTo resolve s target replace = .ok t) : Invariant resolve t := by
  have hgranted : ∀ (hfree : ∀ label document, s.windows.get? label = some document →
      document.path ≠ some (resolve target)),
      Invariant resolve { s with gate := some (.exporting target replace) } := by
    intro hfree
    refine { hs with opening := by simp, saving := by simp, exporting := ?_ }
    rintro other replacing hgate
    simp only [Option.some.injEq, Gate.exporting.injEq] at hgate
    exact hgate.1 ▸ hfree
  simp only [Ownership.exportTo] at h
  split at h
  · rename_i hnone
    obtain rfl := Except.ok.inj h
    refine hgranted fun label document hget hpath => ?_
    have hmem := hs.registered label document _ hget hpath
    rw [canonicalize_eq_some.mpr ⟨hmem, rfl⟩] at hnone
    contradiction
  · rename_i path hpath
    split at h
    · rename_i howners
      obtain rfl := Except.ok.inj h
      obtain ⟨-, rfl⟩ := canonicalize_eq_some.mp hpath
      refine hgranted fun label document hget hpath => ?_
      have hmem := mem_owners.mpr ⟨document, hget, hpath⟩
      rw [List.isEmpty_iff.mp howners] at hmem
      contradiction
    · contradiction

/-- What `save_to` leaves: it reports the file that is open, or fails before it
switches to the destination, or after. -/
theorem saveTo_cases (resolve : Path → Path) (s : State Path) (file : Option Path) (path : Path)
    (fault : Option Fault) :
    (∃ result, saveTo resolve s file path fault = (s.files, file, result) ∧ ∀ reported, result = .ok reported → reported = file) ∨
    (∃ error, saveTo resolve s file path fault = (resolve path :: s.files, file, .error error)) ∨
    saveTo resolve s file path fault = (resolve path :: s.files, some (resolve path), .ok (some (resolve path))) ∨
    ∃ error, fault = some (.after error) ∧ ¬ (file.isSome ∧ canonicalize resolve s path = file) ∧
      saveTo resolve s file path fault = (resolve path :: s.files, some (resolve path), .error error) := by
  unfold saveTo
  split
  · refine .inl ⟨_, rfl, fun reported h => ?_⟩
    split at h
    · contradiction
    · exact (Except.ok.inj h).symm
  · rename_i hother
    split
    · exact .inl ⟨_, rfl, fun reported h => by contradiction⟩
    · exact .inr (.inl ⟨_, rfl⟩)
    · exact .inr (.inr (.inr ⟨_, rfl, hother, rfl⟩))
    · exact .inr (.inr (.inl rfl))

/-- The save under the gate switches its runtime to another file. -/
def Switches (resolve : Path → Path) (s : State Path) : Prop :=
  ∃ label path document file, s.gate = some (.saving label (some path)) ∧ s.windows.get? label = some document ∧
    document.runtime = .ready file ∧ ¬ (file.isSome ∧ canonicalize resolve s path = file)

/-- No save fails once it has switched to another file. -/
def Kept (resolve : Path → Path) (s : State Path) (e : Event Path) : Prop :=
  ∀ error, e = .saved (some (.after error)) → ¬ Switches resolve s

/-- What a save does to its window and to the files. -/
theorem saved_cases (hs : Invariant resolve s) {label : Label} {document : Document Path} {destination : Option Path}
    {fault : Option Fault} (hgate : s.gate = some (.saving label destination))
    (hget : s.windows.get? label = some document) (hk : Kept resolve s (.saved fault)) :
    ∃ document' files, saved resolve s label document destination fault =
        { s with
          windows := s.windows.insert label document'
          files := files
          gate := none } ∧
      (document'.runtime.alive → document'.path = document'.runtime.path) ∧
      (files = s.files ∧ document'.path = document.path ∨
        ∃ path, destination = some path ∧ files = resolve path :: s.files ∧
          (document'.path = document.path ∨ document'.path = some (resolve path))) := by
  have hagrees := hs.agrees label document hget
  cases hruntime : document.runtime with
  | starting path =>
      refine ⟨⟨document.path, .starting path⟩, s.files, ?_, fun _ => ?_, .inl ⟨rfl, rfl⟩⟩
      · cases destination <;> simp [saved, save, hruntime]
      · simpa only [hruntime] using hagrees (by rw [hruntime]; rfl)
  | failed | stopped =>
      refine ⟨⟨document.path, document.runtime⟩, s.files, ?_, hagrees, .inl ⟨rfl, rfl⟩⟩
      cases destination <;> simp [saved, save, hruntime]
  | ready file =>
      have hpath : document.path = file := by simpa [hruntime, Runtime.alive, Runtime.path] using hagrees
      cases destination with
      | none =>
          refine ⟨⟨file, .ready file⟩, s.files, ?_, fun _ => rfl, .inl ⟨rfl, hpath.symm⟩⟩
          cases file with
          | none => simp [saved, save, hruntime, hpath]
          | some file => cases fault <;> simp [saved, save, hruntime, hpath]
      | some path =>
          unfold saved
          rw [hruntime]
          simp only [save]
          rcases saveTo_cases resolve s file path fault with
            ⟨result, hsave, hreported⟩ | ⟨error, hsave⟩ | hsave | ⟨error, hfault, hother, -⟩
          · rw [hsave]
            refine ⟨_, _, rfl, fun _ => ?_, .inl ⟨rfl, ?_⟩⟩
            · cases result with
              | error => exact hpath
              | ok reported => exact hreported reported rfl
            · cases result with
              | error => rfl
              | ok reported => exact (hreported reported rfl).trans hpath.symm
          · rw [hsave]
            exact ⟨_, _, rfl, fun _ => hpath, .inr ⟨path, rfl, rfl, .inl rfl⟩⟩
          · rw [hsave]
            exact ⟨_, _, rfl, fun _ => rfl, .inr ⟨path, rfl, rfl, .inr rfl⟩⟩
          · exact absurd ⟨label, path, document, file, hgate, hget, hruntime, hother⟩ (hk error (by rw [hfault]))

theorem Invariant.saved (hidem : ∀ path, resolve (resolve path) = resolve path) (hs : Invariant resolve s)
    {label : Label} {document : Document Path} {destination : Option Path} {fault : Option Fault}
    (hgate : s.gate = some (.saving label destination)) (hget : s.windows.get? label = some document)
    (hk : Kept resolve s (.saved fault)) : Invariant resolve (saved resolve s label document destination fault) := by
  obtain ⟨new, files, heq, hagrees, hcases⟩ := saved_cases hs hgate hget hk
  have hfiles : ∀ file ∈ s.files, file ∈ files := by
    rcases hcases with ⟨rfl, -⟩ | ⟨path, -, rfl, -⟩
    · exact fun _ h => h
    · exact fun _ h => List.mem_cons_of_mem _ h
  have hnew : ∀ path, new.path = some path → path ∈ files ∧ ∀ other old, s.windows.get? other = some old →
      old.path = some path → other = label := by
    intro path hpath
    have hkept : new.path = document.path → path ∈ files ∧ ∀ other old, s.windows.get? other = some old →
        old.path = some path → other = label := fun hsame =>
      ⟨hfiles path (hs.registered label document path hget (hsame ▸ hpath)), fun other old hold holdpath =>
        hs.distinct other label old document path hold hget holdpath (hsame ▸ hpath)⟩
    rcases hcases with ⟨-, hsame⟩ | ⟨target, rfl, rfl, hsame | htarget⟩
    · exact hkept hsame
    · exact hkept hsame
    · obtain rfl : resolve target = path := Option.some.inj (htarget.symm.trans hpath)
      refine ⟨List.mem_cons_self .., fun other old hold holdpath => ?_⟩
      by_contra hne
      exact hs.saving label target hgate other old hold hne holdpath
  rw [heq]
  refine ⟨fun other doc h => ?_, fun file hfile => ?_, fun other doc path h hpath => ?_,
    fun other other' doc doc' path h h' hpath hpath' => ?_, fun other doc h halive => ?_, by simp, by simp, by simp⟩
  · simp only [Map.get?_insert] at h
    split at h
    · rename_i hlabel
      exact hlabel ▸ hs.fresh label document hget
    · exact hs.fresh other doc h
  · rcases hcases with ⟨rfl, -⟩ | ⟨path, -, rfl, -⟩
    · exact hs.canonical file hfile
    · rcases List.mem_cons.mp hfile with rfl | hfile
      · exact hidem path
      · exact hs.canonical file hfile
  · simp only [Map.get?_insert] at h
    split at h
    · obtain rfl := Option.some.inj h
      exact (hnew path hpath).1
    · exact hfiles path (hs.registered other doc path h hpath)
  · simp only [Map.get?_insert] at h h'
    split at h <;> split at h'
    · rename_i heq heq'
      exact heq.trans heq'.symm
    · obtain rfl := Option.some.inj h
      rename_i heq hne
      exact absurd ((hnew path hpath).2 other' doc' h' hpath') hne
    · obtain rfl := Option.some.inj h'
      rename_i hne heq
      exact absurd ((hnew path hpath').2 other doc h hpath) hne
    · exact hs.distinct other other' doc doc' path h h' hpath hpath'
  · simp only [Map.get?_insert] at h
    split at h
    · obtain rfl := Option.some.inj h
      exact hagrees halive
    · exact hs.agrees other doc h halive

theorem Invariant.install (hidem : ∀ path, resolve (resolve path) = resolve path) (hs : Invariant resolve s)
    (target : Path) (replace success : Bool) : Invariant resolve (install resolve s target replace success) := by
  have hleft := hs.leave
  unfold Ownership.install
  dsimp only
  split
  · refine { hleft with canonical := fun file hfile => ?_, registered := fun label document path h hpath => ?_, opening := by simp }
    · rcases List.mem_cons.mp hfile with rfl | hfile
      · exact hidem target
      · exact hs.canonical file hfile
    · exact List.mem_cons_of_mem _ (hs.registered label document path h hpath)
  · exact hleft

theorem close_cases {label : Label} (h : step resolve s (.close label) = some t) :
    saving s label = false ∧ t = { s with windows := s.windows.remove label } := by
  simp only [step, Option.ite_none_left_eq_some] at h
  obtain ⟨hsaving, h⟩ := h
  split at h
  · exact ⟨by simpa using hsaving, (Option.some.inj h).symm⟩
  · exact ⟨by simpa using hsaving, (Option.some.inj h).symm⟩
  · contradiction

theorem Invariant.step (hidem : ∀ path, resolve (resolve path) = resolve path) (hs : Invariant resolve s)
    {e : Event Path} (hk : Kept resolve s e) (h : step resolve s e = some t) : Invariant resolve t := by
  cases e with
  | openWindow path =>
      simp only [Ownership.step, Option.ite_none_right_eq_some] at h
      exact hs.openWindow h.2
  | insert built =>
      simp only [Ownership.step] at h
      split at h
      · rename_i hgate
        obtain rfl := Option.some.inj h
        exact hs.insert hgate
      · contradiction
  | leave =>
      simp only [Ownership.step] at h
      split at h
      · obtain rfl := Option.some.inj h
        exact hs.leave
      · contradiction
  | started label =>
      simp only [Ownership.step] at h
      split at h
      · rename_i path hruntime
        obtain ⟨found, hfound, rfl⟩ := Option.map_eq_some_iff.mp h
        obtain ⟨document, hget, hstarting⟩ := Option.map_eq_some_iff.mp hruntime
        obtain ⟨-, rfl⟩ := canonicalize_eq_some.mp hfound
        refine hs.setRuntime fun other hother _ => ?_
        obtain rfl := Option.some.inj (hget.symm.trans hother)
        have hpath := hs.starting hget hstarting
        have hcanonical := hs.canonical path (hs.registered label document path hget hpath)
        rw [hpath, hcanonical]
        rfl
      · rename_i hruntime
        obtain rfl := Option.some.inj h
        obtain ⟨document, hget, hstarting⟩ := Option.map_eq_some_iff.mp hruntime
        refine hs.setRuntime fun other hother _ => ?_
        obtain rfl := Option.some.inj (hget.symm.trans hother)
        exact hs.starting hget hstarting
      · contradiction
  | startFailed label =>
      simp only [Ownership.step] at h
      split at h
      · obtain rfl := Option.some.inj h
        exact hs.setRuntime fun _ _ halive => by contradiction
      · contradiction
  | saveProject label destination =>
      simp only [Ownership.step, Option.ite_none_right_eq_some] at h
      obtain ⟨-, h⟩ := h
      obtain rfl := Option.some.inj h
      split
      · rename_i hsave
        exact hs.saveProject hsave
      · exact hs
  | saved fault =>
      simp only [Ownership.step] at h
      split at h
      · rename_i label destination hgate
        obtain ⟨document, hget, rfl⟩ := Option.map_eq_some_iff.mp h
        exact hs.saved hidem hgate hget hk
      · contradiction
  | exportTo target replace =>
      simp only [Ownership.step, Option.ite_none_right_eq_some] at h
      obtain ⟨-, h⟩ := h
      obtain rfl := Option.some.inj h
      split
      · rename_i hexport
        exact hs.exportTo hexport
      · exact hs
  | installed success =>
      simp only [Ownership.step] at h
      split at h
      · obtain rfl := Option.some.inj h
        exact hs.install hidem ..
      · contradiction
  | stop label =>
      simp only [Ownership.step] at h
      split at h
      · contradiction
      · obtain ⟨document, -, rfl⟩ := Option.map_eq_some_iff.mp h
        exact hs.setRuntime fun _ _ halive => by contradiction
  | close label =>
      obtain ⟨-, rfl⟩ := close_cases h
      exact hs.shrink fun _ _ hget => (Map.get?_remove.mp hget).1
  | created path =>
      simp only [Ownership.step, Option.ite_none_right_eq_some] at h
      obtain ⟨hpath, h⟩ := h
      obtain rfl := Option.some.inj h
      refine { hs with canonical := fun file hfile => ?_, registered := fun label document other h hother => ?_, opening := fun other hgate => ?_ }
      · rcases List.mem_cons.mp hfile with rfl | hfile
        · exact hpath
        · exact hs.canonical file hfile
      · exact List.mem_cons_of_mem _ (hs.registered label document other h hother)
      · exact List.mem_cons_of_mem _ (hs.opening other hgate)
  | removed path =>
      simp only [Ownership.step, Option.ite_none_left_eq_some] at h
      obtain ⟨hunused, h⟩ := h
      obtain rfl := Option.some.inj h
      simp only [inUse, Bool.or_eq_true, List.any_eq_true, decide_eq_true_eq, not_or, not_exists, not_and] at hunused
      refine { hs with canonical := fun file hfile => ?_, registered := fun label document other h hother => ?_, opening := fun other hgate => ?_ }
      · exact hs.canonical file (List.mem_filter.mp hfile).1
      · refine List.mem_filter.mpr ⟨hs.registered label document other h hother, ?_⟩
        rw [decide_eq_true_eq]
        rintro rfl
        exact (hunused.1 _ ((get?_eq_some s.windows.sorted).mp h)).1 hother
      · refine List.mem_filter.mpr ⟨hs.opening other hgate, ?_⟩
        rw [decide_eq_true_eq]
        rintro rfl
        exact hunused.2 hgate

/-- No two windows have one file registered or open, and what a window has
registered is what its runtime has, for as long as it has one. -/
structure Exclusive (s : State Path) : Prop where
  distinct : ∀ label label' document document' path, s.windows.get? label = some document →
    s.windows.get? label' = some document' → document.path = some path → document'.path = some path → label = label'
  agrees : ∀ label document, s.windows.get? label = some document → document.runtime.alive →
    document.path = document.runtime.path
  owned : ∀ label label' document document' path, s.windows.get? label = some document →
    s.windows.get? label' = some document' → document.runtime.path = some path →
    document'.runtime.path = some path → label = label'

/-- A step replaces no file that another window has registered, and closes its
own window only. -/
def Respects (resolve : Path → Path) (s : State Path) (e : Event Path) : Prop :=
  ∀ t, step resolve s e = some t →
    (∀ fault label path, e = .saved fault → s.gate = some (.saving label (some path)) → ∀ other document,
      s.windows.get? other = some document → other ≠ label → document.path ≠ some (resolve path)) ∧
    (∀ success target replace, e = .installed success → s.gate = some (.exporting target replace) →
      ∀ other document, s.windows.get? other = some document → document.path ≠ some (resolve target)) ∧
    ∀ label, e = .close label → ∀ other, t.windows.get? other = if other = label then none else s.windows.get? other

omit [DecidableEq Path] in
theorem Runtime.alive_of_path {runtime : Runtime Path} {path : Path} (h : runtime.path = some path) :
    runtime.alive := by
  cases runtime <;> simp_all [Runtime.path, Runtime.alive]

omit [DecidableEq Path] in
theorem Invariant.exclusive (hs : Invariant resolve s) : Exclusive s where
  distinct := hs.distinct
  agrees := hs.agrees
  owned label label' document document' path h h' hpath hpath' :=
    hs.distinct label label' document document' path h h'
      ((hs.agrees label document h (Runtime.alive_of_path hpath)).trans hpath)
      ((hs.agrees label' document' h' (Runtime.alive_of_path hpath')).trans hpath')

theorem Invariant.respects (hs : Invariant resolve s) (e : Event Path) : Respects resolve s e := by
  refine fun t h => ⟨?_, ?_, ?_⟩
  · rintro fault label path - hgate other document hget hne
    exact hs.saving label path hgate other document hget hne
  · rintro success target replace - hgate other document hget
    exact hs.exporting target replace hgate other document hget
  · rintro label rfl other
    obtain ⟨-, rfl⟩ := close_cases h
    by_cases hother : other = label
    · subst hother
      rw [if_pos rfl]
      exact Map.get?_remove_self
    · rw [if_neg hother]
      exact Map.get?_remove_of_ne hother

def start (files : List Path) : State Path := ⟨.empty, 0, files, none⟩

omit [DecidableEq Path] in
theorem invariant_start {files : List Path} (hfiles : ∀ file ∈ files, resolve file = file) :
    Invariant resolve (start files) where
  fresh _ _ h := by simp [start] at h
  canonical := hfiles
  registered _ _ _ h := by simp [start] at h
  distinct _ _ _ _ _ h := by simp [start] at h
  agrees _ _ h := by simp [start] at h
  opening _ h := by simp [start] at h
  saving _ _ h := by simp [start] at h
  exporting _ _ h := by simp [start] at h

end Paths

namespace Desktop

/-- `/link` is a folder linked to `/data`. -/
def resolve (path : String) : String :=
  if path = "/link/a.wfpj" then "/data/a.wfpj"
  else if path = "/link/b.wfpj" then "/data/b.wfpj"
  else path

theorem resolve_resolve (path : String) : resolve (resolve path) = resolve path := by
  unfold resolve
  split
  · rfl
  · split
    · rfl
    · simp [*]

/-- Two windows, a Save As through the link that is refused and one that succeeds. -/
def session : List (Event String) :=
  [.openWindow (some "/link/a.wfpj"), .insert true, .started 0, .openWindow none, .insert true, .started 1,
    .saveProject 1 (some "/link/a.wfpj"), .saveProject 1 (some "/link/b.wfpj"), .saved none,
    .openWindow (some "/data/b.wfpj"), .insert true, .stop 0, .close 0]

/-- A save that fails once its file is written. -/
def failsLate : Event String → Bool
  | .saved (some (.after _)) => true
  | _ => false

/-- The information about the project cannot be read once the save has switched
to its copy; the copy is then opened in a second window. -/
def unread : List (Event String) :=
  [.openWindow (some "/data/a.wfpj"), .insert true, .started 0, .saveProject 0 (some "/data/b.wfpj"),
    .saved (some (.after ⟨"database_error", "Query failed"⟩)), .openWindow (some "/data/b.wfpj"), .insert true, .started 1]

end Desktop

end Wordflow.Ownership
