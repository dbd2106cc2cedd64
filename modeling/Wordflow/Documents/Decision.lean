import Mathlib.Data.List.Nodup
import Wordflow.Documents.Quit

namespace Wordflow.Documents

open Library.Run Objects

def Stage.holds : Stage → Prop
  | .settling | .closing _ | .approved => True
  | _ => False

theorem verdict_of_not_permitted {s : State} (h : permitted s = false) : verdict s.outcome ≠ .ok true := by
  intro hv
  rcases ho : s.outcome with - | result
  · simp [ho, verdict] at hv
  · obtain rfl : result = .ok true := by simpa [ho, verdict] using hv
    simp [permitted, ho] at h

/-- The line for the lock agrees with the stages of the calls. -/
structure Line (s : State) : Prop where
  nodup : s.quit.Nodup
  outside : ∀ c, c ∉ s.quit ↔ s.call c = .idle ∨ s.call c = .refused
  behind : ∀ c ∈ s.quit.tail, s.call c = .waiting

theorem Line.head {s : State} (hs : Line s) {c : Nat} (hc : (s.call c).holds) : s.quit.head? = some c := by
  have hmem : c ∈ s.quit := by
    by_contra hout
    rcases (hs.outside c).mp hout with h | h <;> simp [h, Stage.holds] at hc
  have hbehind : c ∉ s.quit.tail := by
    intro htail
    simp [hs.behind c htail, Stage.holds] at hc
  cases hq : s.quit with
  | nil => simp [hq] at hmem
  | cons d rest =>
      rw [hq] at hmem hbehind
      rcases List.mem_cons.mp hmem with rfl | h
      · rfl
      · exact absurd h hbehind

theorem Line.frame {s t : State} (hs : Line s) (hq : t.quit = s.quit) (hc : t.call = s.call) : Line t := by
  refine ⟨?_, ?_, ?_⟩ <;> rw [hq]
  · exact hs.nodup
  · rw [hc]
    exact hs.outside
  · rw [hc]
    exact hs.behind

theorem setCall_same (s : State) (c : Nat) (stage : Stage) : (setCall s c stage).call c = stage :=
  Function.update_self ..

theorem setCall_other {s : State} {c d : Nat} {stage : Stage} (h : d ≠ c) :
    (setCall s c stage).call d = s.call d := Function.update_of_ne h ..

/-- The holder of the lock moves on to another stage of its own. -/
theorem Line.move {s : State} (hs : Line s) {c : Nat} {stage : Stage} (hc : s.quit.head? = some c)
    (hstage : stage.holds) : Line (setCall s c stage) := by
  obtain ⟨rest, hq⟩ := List.head?_eq_some_iff.mp hc
  refine ⟨hs.nodup, fun d => ?_, fun d hd => ?_⟩
  · by_cases hdc : d = c
    · subst hdc
      rw [setCall_same]
      simp only [setCall, hq, List.mem_cons, true_or, not_true_eq_false, false_iff]
      rintro (rfl | rfl) <;> exact hstage
    · rw [setCall_other hdc]
      exact hs.outside d
  · have hdc : d ≠ c := by
      rintro rfl
      have hnodup := hs.nodup
      rw [hq] at hnodup
      exact (List.nodup_cons.mp hnodup).1 (by simpa [setCall, hq] using hd)
    rw [setCall_other hdc]
    exact hs.behind d hd

theorem Line.release {s : State} (hs : Line s) {c : Nat} (hc : s.quit.head? = some c) : Line (release s c) := by
  obtain ⟨rest, hq⟩ := List.head?_eq_some_iff.mp hc
  have hnodup := hs.nodup
  rw [hq, List.nodup_cons] at hnodup
  have hcall : ∀ d ∈ rest, (Documents.release s c).call d = s.call d := by
    intro d hd
    exact setCall_other fun h => hnodup.1 (h ▸ hd)
  have hquit : (Documents.release s c).quit = rest := by simp [Documents.release, hq]
  refine ⟨hquit ▸ hnodup.2, fun d => ?_, fun d hd => ?_⟩
  · rw [hquit]
    by_cases hdc : d = c
    · subst hdc
      simp [hnodup.1, Documents.release, setCall]
    · rw [show (Documents.release s c).call d = s.call d from setCall_other hdc, ← hs.outside d, hq]
      simp [hdc]
  · rw [hquit] at hd
    have hrest := List.mem_of_mem_tail hd
    rw [hcall d hrest]
    exact hs.behind d (by simpa [hq] using hrest)

theorem Line.wait {s : State} (hs : Line s) {c : Nat} (hc : s.call c = .refused) :
    Line { setCall s c .waiting with quit := s.quit ++ [c] } := by
  have hout : c ∉ s.quit := (hs.outside c).mpr (.inr hc)
  refine ⟨List.nodup_append.mpr ⟨hs.nodup, List.nodup_singleton c, ?_⟩, fun d => ?_, fun d hd => ?_⟩
  · rintro d hd e he rfl
    exact hout (List.mem_singleton.mp he ▸ hd)
  · by_cases hdc : d = c
    · subst hdc
      simp [setCall]
    · have := hs.outside d
      simpa [setCall, Function.update_of_ne hdc, hdc] using this
  · by_cases hdc : d = c
    · subst hdc
      exact setCall_same ..
    · have hd' : d ∈ s.quit.tail := by
        cases hq : s.quit with
        | nil => simp [hq] at hd
        | cons e rest => simpa [hq, hdc] using hd
      exact (setCall_other hdc).trans (hs.behind d hd')

theorem Line.closeAll {s t : State} (hs : Line s) {c : Nat} {taken : Bool} (hc : s.call c = .idle)
    (h : tryLock s c taken = some t) : Line t := by
  simp only [tryLock] at h
  split at h
  · rename_i hq
    obtain rfl := Option.some.inj h
    refine ⟨List.nodup_singleton c, fun d => ?_, fun d hd => absurd hd (by simp)⟩
    by_cases hdc : d = c
    · subst hdc
      simp [setCall]
    · have := hs.outside d
      simpa [setCall, Function.update_of_ne hdc, hdc, hq] using this
  · obtain rfl := Option.some.inj h
    have hout : c ∉ s.quit := (hs.outside c).mpr (.inl hc)
    refine ⟨hs.nodup, fun d => ?_, fun d hd => ?_⟩
    · by_cases hdc : d = c
      · subst hdc
        simpa [setCall] using hout
      · rw [setCall_other hdc]
        exact hs.outside d
    · rw [setCall_other (by rintro rfl; exact hout (List.mem_of_mem_tail hd))]
      exact hs.behind d hd
  · contradiction

/-- What a step of a call that has the lock does to the lock and to the cell. -/
theorem resume_cases {s t : State} {c : Nat} {result : Outcome} (h : resume s c result = some t) :
    result = verdict s.outcome ∧
      ((result = .ok true ∧ t = setCall s c .approved) ∨ (result ≠ .ok true ∧ t = release s c)) := by
  simp only [resume] at h
  split at h
  · rename_i hr
    split at h
    · exact ⟨hr, .inl ⟨rfl, (Option.some.inj h).symm⟩⟩
    · rename_i hne
      exact ⟨hr, .inr ⟨fun he => hne (by rw [he]), (Option.some.inj h).symm⟩⟩
  · contradiction

theorem Line.step {s t : State} {e : Event} (hs : Line s) (h : step s e = some t) : Line t := by
  cases e with
  | enter | insert | leave | save | saved | destroy | unregister | intercept =>
      simp only [Documents.step, Option.ite_none_right_eq_some] at h
      obtain ⟨-, h⟩ := h
      obtain rfl := Option.some.inj h
      exact hs.frame rfl rfl
  | built success =>
      simp only [Documents.step] at h
      split at h
      · obtain rfl := Option.some.inj h
        unfold build
        split <;> exact hs.frame rfl rfl
      · contradiction
  | closeAll c taken =>
      simp only [Documents.step, Option.ite_none_right_eq_some] at h
      exact hs.closeAll h.1 h.2
  | wait c =>
      simp only [Documents.step, Option.ite_none_right_eq_some] at h
      obtain ⟨hc, h⟩ := h
      obtain rfl := Option.some.inj h
      exact hs.wait hc
  | resume c result =>
      simp only [Documents.step, Option.ite_none_right_eq_some] at h
      obtain ⟨⟨-, hhead⟩, h⟩ := h
      obtain ⟨-, ⟨-, rfl⟩ | ⟨-, rfl⟩⟩ := resume_cases h
      · exact hs.move hhead trivial
      · exact hs.release hhead
  | snapshot c labels =>
      simp only [Documents.step, Option.ite_none_right_eq_some] at h
      obtain ⟨⟨hc, -⟩, h⟩ := h
      obtain rfl := Option.some.inj h
      exact hs.move (hs.head (by rw [hc]; trivial)) trivial
  | next c =>
      simp only [Documents.step] at h
      split at h
      · rename_i hc
        split at h
        · contradiction
        · obtain rfl := Option.some.inj h
          exact hs.move (hs.head (by rw [hc]; trivial)) trivial
      · contradiction
  | ended c result =>
      simp only [Documents.step] at h
      split at h
      · rename_i hc
        split at h
        · contradiction
        · obtain rfl := Option.some.inj h
          exact (hs.release (hs.head (by rw [hc]; trivial))).frame rfl rfl
      · contradiction
  | approve c =>
      simp only [Documents.step, Option.ite_none_right_eq_some] at h
      obtain ⟨hc, h⟩ := h
      obtain rfl := Option.some.inj h
      exact hs.move (hs.head (by rw [hc]; trivial)) trivial
  | allowExit c | abandon c =>
      simp only [Documents.step, Option.ite_none_right_eq_some] at h
      obtain ⟨hc, h⟩ := h
      obtain rfl := Option.some.inj h
      exact (hs.release (hs.head (by rw [hc]; trivial))).frame rfl rfl

/-- No window is left but those still to be closed, and none is being built. -/
def Shut (s : State) (labels : List Label) : Prop :=
  (∀ l ∈ s.live, l ∈ labels) ∧ ∀ l, s.gate ≠ some (.building l)

structure Windows (s : State) : Prop where
  fresh : ∀ l ∈ s.windows, l < s.sequence
  registered : ∀ l ∈ s.live, l ∈ s.windows
  building : ∀ l, s.gate = some (.building l) → l ∈ s.windows ∧ l ∉ s.live

/-- What the phases of quitting know about the windows. -/
structure Sealed (s : State) : Prop where
  closing : ∀ c labels, s.call c = .closing labels → Shut s labels
  approved : ∀ c, s.call c = .approved → Shut s []
  permitted : permitted s → Shut s []

theorem Shut.mono {s t : State} {labels : List Label} (h : Shut s labels) (hl : t.live ⊆ s.live)
    (hg : ∀ l, t.gate = some (.building l) → s.gate = some (.building l)) : Shut t labels :=
  ⟨fun l hlive => h.1 l (hl hlive), fun l hgate => h.2 l (hg l hgate)⟩

/-- Windows that close and a gate that is left keep what is sealed. -/
theorem Sealed.shrink {s t : State} (hs : Sealed s) (hc : t.call = s.call) (ho : t.outcome = s.outcome)
    (hl : t.live ⊆ s.live) (hg : ∀ l, t.gate = some (.building l) → s.gate = some (.building l)) :
    Sealed t := by
  refine ⟨fun c labels hclosing => ?_, fun c happroved => ?_, fun hp => ?_⟩
  · exact (hs.closing c labels (hc ▸ hclosing)).mono hl hg
  · exact (hs.approved c (hc ▸ happroved)).mono hl hg
  · refine (hs.permitted ?_).mono hl hg
    simpa only [Documents.permitted, ho] using hp

/-- Where nothing is sealed, any change of the windows is allowed. -/
theorem Sealed.of_admits {s t : State} (hline : Line s) (h : admits s) (hc : t.call = s.call)
    (ho : t.outcome = s.outcome) : Sealed t := by
  simp only [admits, Bool.and_eq_true, List.isEmpty_iff, Bool.not_eq_true'] at h
  have hidle : ∀ c, s.call c = .idle ∨ s.call c = .refused := fun c =>
    (hline.outside c).mp (by simp [h.1])
  refine ⟨fun c labels hclosing => ?_, fun c happroved => ?_, fun hp => ?_⟩
  · rcases hidle c with hi | hi <;> simp [hc, hi] at hclosing
  · rcases hidle c with hi | hi <;> simp [hc, hi] at happroved
  · have hsame : Documents.permitted t = Documents.permitted s := by simp only [Documents.permitted, ho]
    rw [hsame, h.2] at hp
    contradiction

/-- A call moves to a stage that the windows bear out, and the cell with it. -/
theorem Sealed.move {s t : State} (hs : Sealed s) {c : Nat} (stage : Stage)
    (hc : t.call = Function.update s.call c stage) (hl : t.live = s.live) (hg : t.gate = s.gate)
    (hclosing : ∀ labels, stage = .closing labels → Shut s labels) (happroved : stage = .approved → Shut s [])
    (hp : Documents.permitted t → Shut s []) : Sealed t := by
  have hshut : ∀ labels, Shut s labels → Shut t labels := fun labels h =>
    h.mono (hl ▸ List.Subset.refl _) (fun l => by rw [hg]; exact id)
  refine ⟨fun d labels hd => hshut labels ?_, fun d hd => hshut [] ?_, fun h => hshut [] (hp h)⟩
  · rw [hc] at hd
    by_cases hdc : d = c
    · subst hdc
      exact hclosing labels (by simpa using hd)
    · exact hs.closing d labels (by simpa [Function.update_of_ne hdc] using hd)
  · rw [hc] at hd
    by_cases hdc : d = c
    · subst hdc
      exact happroved (by simpa using hd)
    · exact hs.approved d (by simpa [Function.update_of_ne hdc] using hd)

theorem permitted_iff {s : State} : permitted s ↔ s.outcome = some (.ok true) := by
  unfold permitted
  split <;> simp_all

theorem Windows.frame {s t : State} (hs : Windows s) (hw : t.windows = s.windows) (hl : t.live = s.live)
    (hn : t.sequence = s.sequence) (hg : ∀ l, t.gate = some (.building l) → s.gate = some (.building l)) :
    Windows t := by
  refine ⟨?_, ?_, fun l hgate => ?_⟩
  · rw [hw, hn]
    exact hs.fresh
  · rw [hw, hl]
    exact hs.registered
  · rw [hw, hl]
    exact hs.building l (hg l hgate)

theorem Windows.insert {s : State} (hs : Windows s) :
    Windows { s with
      gate := some (.building s.sequence)
      windows := s.sequence :: s.windows
      sequence := s.sequence + 1 } := by
  refine ⟨fun l hl => ?_, fun l hl => List.mem_cons_of_mem _ (hs.registered l hl), ?_⟩
  · rcases List.mem_cons.mp hl with rfl | h
    · exact Nat.lt_succ_self _
    · exact Nat.lt_succ_of_lt (hs.fresh l h)
  · rintro l ⟨⟩
    exact ⟨List.mem_cons_self .., fun hl => Nat.lt_irrefl _ (hs.fresh _ (hs.registered _ hl))⟩

theorem Windows.build {s : State} (hs : Windows s) {label : Label} {success : Bool}
    (hg : s.gate = some (.building label)) : Windows (build s label success) := by
  obtain ⟨hmem, hnot⟩ := hs.building label hg
  cases success with
  | true =>
      refine ⟨hs.fresh, fun l hl => ?_, fun l hl => by simp [Documents.build] at hl⟩
      rcases List.mem_cons.mp hl with rfl | h
      · exact hmem
      · exact hs.registered l h
  | false =>
      refine ⟨fun l hl => hs.fresh l (List.mem_of_mem_erase hl), fun l hl => ?_, fun l hl => ?_⟩
      · exact (List.mem_erase_of_ne (by rintro rfl; exact hnot hl)).mpr (hs.registered l hl)
      · simp [Documents.build] at hl

theorem Windows.unregister {s : State} (hs : Windows s) {label : Label} (hl : label ∉ s.live)
    (hg : s.gate ≠ some (.building label)) :
    Windows { s with windows := s.windows.erase label } := by
  refine ⟨fun l h => hs.fresh l (List.mem_of_mem_erase h), fun l h => ?_, fun l h => ?_⟩
  · exact (List.mem_erase_of_ne (by rintro rfl; exact hl h)).mpr (hs.registered l h)
  · obtain ⟨hmem, hnot⟩ := hs.building l h
    exact ⟨(List.mem_erase_of_ne (by rintro rfl; exact hg h)).mpr hmem, hnot⟩

theorem Windows.destroy {s : State} (hs : Windows s) (label : Label) :
    Windows { s with live := s.live.erase label } :=
  ⟨hs.fresh, fun l h => hs.registered l (List.mem_of_mem_erase h), fun l h =>
    ⟨(hs.building l h).1, fun hl => (hs.building l h).2 (List.mem_of_mem_erase hl)⟩⟩

theorem Windows.step {s t : State} {e : Event} (hs : Windows s) (h : step s e = some t) : Windows t := by
  cases e with
  | enter | leave | save | saved =>
      simp only [Documents.step, Option.ite_none_right_eq_some] at h
      obtain ⟨-, h⟩ := h
      obtain rfl := Option.some.inj h
      exact hs.frame rfl rfl rfl (fun l hl => by simp at hl)
  | insert =>
      simp only [Documents.step, Option.ite_none_right_eq_some] at h
      obtain ⟨-, h⟩ := h
      obtain rfl := Option.some.inj h
      exact hs.insert
  | built success =>
      simp only [Documents.step] at h
      split at h
      · rename_i hg
        obtain rfl := Option.some.inj h
        exact hs.build hg
      · contradiction
  | destroy label =>
      simp only [Documents.step, Option.ite_none_right_eq_some] at h
      obtain ⟨-, h⟩ := h
      obtain rfl := Option.some.inj h
      exact hs.destroy label
  | unregister label =>
      simp only [Documents.step, Option.ite_none_right_eq_some] at h
      obtain ⟨⟨-, hl, hg⟩, h⟩ := h
      obtain rfl := Option.some.inj h
      exact hs.unregister hl hg
  | closeAll c taken =>
      simp only [Documents.step, tryLock, Option.ite_none_right_eq_some] at h
      obtain ⟨-, h⟩ := h
      split at h
      · obtain rfl := Option.some.inj h
        exact hs.frame rfl rfl rfl (fun l hl => hl)
      · obtain rfl := Option.some.inj h
        exact hs.frame rfl rfl rfl (fun l hl => hl)
      · contradiction
  | resume c result =>
      simp only [Documents.step, Option.ite_none_right_eq_some] at h
      obtain ⟨-, ⟨-, rfl⟩ | ⟨-, rfl⟩⟩ := resume_cases h.2 <;> exact hs.frame rfl rfl rfl (fun l hl => hl)
  | next c | ended c result =>
      simp only [Documents.step] at h
      split at h
      · split at h
        · contradiction
        · obtain rfl := Option.some.inj h
          exact hs.frame rfl rfl rfl (fun l hl => hl)
      · contradiction
  | wait c | snapshot c labels | approve c | allowExit c | abandon c | intercept proceeds =>
      simp only [Documents.step, Option.ite_none_right_eq_some] at h
      obtain ⟨-, h⟩ := h
      obtain rfl := Option.some.inj h
      exact hs.frame rfl rfl rfl (fun l hl => hl)

theorem Sealed.release {s : State} (hs : Sealed s) (c : Nat) : Sealed (release s c) :=
  hs.move (t := Documents.release s c) .idle rfl rfl rfl (by simp) (by simp) hs.permitted

/-- An end of an attempt that is no permission leaves nothing sealed by the cell. -/
theorem Sealed.record {s : State} (hs : Sealed s) (c : Nat) {result : Outcome}
    (hr : result = .ok true → Shut s []) : Sealed { Documents.release s c with outcome := some result } :=
  hs.move (t := { Documents.release s c with outcome := some result }) .idle rfl rfl rfl (by simp) (by simp)
    fun hp => hr (by simpa [permitted_iff] using hp)

theorem Sealed.step {s t : State} {e : Event} (hline : Line s) (hw : Windows s) (hs : Sealed s)
    (h : step s e = some t) : Sealed t := by
  cases e with
  | enter | leave | save | saved =>
      simp only [Documents.step, Option.ite_none_right_eq_some] at h
      obtain ⟨-, h⟩ := h
      obtain rfl := Option.some.inj h
      exact hs.shrink rfl rfl (List.Subset.refl _) (fun l hl => by simp at hl)
  | insert =>
      simp only [Documents.step, Option.ite_none_right_eq_some] at h
      obtain ⟨⟨-, hadmits⟩, h⟩ := h
      obtain rfl := Option.some.inj h
      exact Sealed.of_admits hline hadmits rfl rfl
  | built success =>
      simp only [Documents.step] at h
      split at h
      · rename_i label hg
        obtain rfl := Option.some.inj h
        refine ⟨fun c labels hc => ?_, fun c hc => ?_, fun hp => ?_⟩
        · exact absurd hg ((hs.closing c labels (by unfold build at hc; split at hc <;> exact hc)).2 label)
        · exact absurd hg ((hs.approved c (by unfold build at hc; split at hc <;> exact hc)).2 label)
        · exact absurd hg ((hs.permitted (by unfold build at hp; split at hp <;> exact hp)).2 label)
      · contradiction
  | destroy label =>
      simp only [Documents.step, Option.ite_none_right_eq_some] at h
      obtain ⟨-, h⟩ := h
      obtain rfl := Option.some.inj h
      exact hs.shrink rfl rfl (List.erase_subset) (fun l hl => hl)
  | unregister label =>
      simp only [Documents.step, Option.ite_none_right_eq_some] at h
      obtain ⟨-, h⟩ := h
      obtain rfl := Option.some.inj h
      exact hs.shrink rfl rfl (List.Subset.refl _) (fun l hl => hl)
  | closeAll c taken =>
      simp only [Documents.step, tryLock, Option.ite_none_right_eq_some] at h
      obtain ⟨-, h⟩ := h
      split at h
      · obtain rfl := Option.some.inj h
        exact hs.move .settling rfl rfl rfl (by simp) (by simp) (by simp [Documents.permitted])
      · obtain rfl := Option.some.inj h
        exact hs.move .refused rfl rfl rfl (by simp) (by simp) hs.permitted
      · contradiction
  | wait c =>
      simp only [Documents.step, Option.ite_none_right_eq_some] at h
      obtain ⟨-, h⟩ := h
      obtain rfl := Option.some.inj h
      exact hs.move .waiting rfl rfl rfl (by simp) (by simp) hs.permitted
  | resume c result =>
      simp only [Documents.step, Option.ite_none_right_eq_some] at h
      obtain ⟨hr, ⟨rfl, rfl⟩ | ⟨-, rfl⟩⟩ := resume_cases h.2
      · have hp : Documents.permitted s := by
          by_contra hp
          exact verdict_of_not_permitted (by simpa using hp) hr.symm
        exact hs.move (t := setCall s c .approved) .approved rfl rfl rfl (by simp)
          (fun _ => hs.permitted hp) hs.permitted
      · exact hs.release c
  | snapshot c labels =>
      simp only [Documents.step, Option.ite_none_right_eq_some] at h
      obtain ⟨⟨-, hg, hperm⟩, h⟩ := h
      obtain rfl := Option.some.inj h
      refine hs.move (t := setCall s c (.closing labels)) (.closing labels) rfl rfl rfl ?_ (by simp) hs.permitted
      rintro _ ⟨⟩
      exact ⟨fun l hl => (List.isPerm_iff.mp hperm).mem_iff.mpr (hw.registered l hl), by simp [hg]⟩
  | next c =>
      simp only [Documents.step] at h
      split at h
      · rename_i label labels hc
        split at h
        · contradiction
        · rename_i hgone
          obtain rfl := Option.some.inj h
          refine hs.move (t := setCall s c (.closing labels)) (.closing labels) rfl rfl rfl ?_ (by simp) hs.permitted
          rintro _ ⟨⟩
          obtain ⟨hlive, hg⟩ := hs.closing c _ hc
          exact ⟨fun l hl => List.mem_of_ne_of_mem (by rintro rfl; exact hgone hl) (hlive l hl), hg⟩
      · contradiction
  | ended c result =>
      simp only [Documents.step] at h
      split at h
      · split at h
        · contradiction
        · rename_i hresult
          obtain rfl := Option.some.inj h
          exact hs.record c fun hr => absurd hr hresult
      · contradiction
  | approve c =>
      simp only [Documents.step, Option.ite_none_right_eq_some] at h
      obtain ⟨hc, h⟩ := h
      obtain rfl := Option.some.inj h
      exact hs.move (t := setCall s c .approved) .approved rfl rfl rfl (by simp)
        (fun _ => hs.closing c [] hc) hs.permitted
  | allowExit c =>
      simp only [Documents.step, Option.ite_none_right_eq_some] at h
      obtain ⟨hc, h⟩ := h
      obtain rfl := Option.some.inj h
      exact hs.record c fun _ => hs.approved c hc
  | abandon c =>
      simp only [Documents.step, Option.ite_none_right_eq_some] at h
      obtain ⟨-, h⟩ := h
      obtain rfl := Option.some.inj h
      exact hs.release c
  | intercept proceeds =>
      simp only [Documents.step, Option.ite_none_right_eq_some] at h
      obtain ⟨-, h⟩ := h
      obtain rfl := Option.some.inj h
      exact hs

structure Invariant (s : State) : Prop where
  line : Line s
  windows : Windows s
  shut : Sealed s

theorem invariant_start : Invariant start where
  line := ⟨List.nodup_nil, fun c => by simp [start], fun c hc => absurd hc (by simp [start])⟩
  windows := ⟨fun l hl => absurd hl (by simp [start]), fun l hl => absurd hl (by simp [start]), fun l hl => by simp [start] at hl⟩
  shut := ⟨fun c labels h => by simp [start] at h, fun c h => by simp [start] at h, fun h => by simp [start, permitted] at h⟩

theorem Invariant.step {s t : State} {e : Event} (hs : Invariant s) (h : step s e = some t) : Invariant t :=
  ⟨hs.line.step h, hs.windows.step h, hs.shut.step hs.line hs.windows h⟩

theorem invariant_of_run {es : List Event} {s : State} (h : exec step start es = some s) : Invariant s :=
  exec_invariant (fun hs hstep => Invariant.step hs hstep) invariant_start h

def allowed (es : List Event) : Bool := es.any fun e => e matches .allowExit _

/-- How the call that last gave up the lock ended, the latest event first. An
approval that is abandoned leaves a permission given before it. -/
def handed : List Event → Outcome
  | [] => .ok false
  | .ended _ result :: _ | .resume _ result :: _ => result
  | .allowExit _ :: _ => .ok true
  | .abandon _ :: before => .ok (allowed before)
  | _ :: before => handed before

/-- No attempt is under way and no approval is held. -/
def Settled (s : State) : Prop := ∀ c, ¬ (s.call c).holds

/-- A call takes the free lock only while no permission is recorded. -/
def Kept (s : State) (e : Event) : Prop := ∀ c, e = .closeAll c true → permitted s = false

/-- The cell is what the run so far makes of it. -/
structure History (es : List Event) (s : State) : Prop where
  permitted : permitted s = allowed es
  held : ∀ c, (s.call c).holds → s.outcome = none ∨ s.call c = .approved ∧ s.outcome = some (.ok true)
  answered : Settled s → verdict s.outcome = handed es.reverse

@[simp]
theorem allowed_concat (es : List Event) (e : Event) :
    allowed (es ++ [e]) = (allowed es || e matches .allowExit _) := by
  simp [allowed]

theorem allowed_reverse (es : List Event) : allowed es.reverse = allowed es := by
  simp [allowed]

theorem settled_of_idle {s t : State} (hc : ∀ d, (s.call d).holds → (t.call d).holds) (h : Settled t) : Settled s :=
  fun d hd => h d (hc d hd)

theorem Settled.not_holding {s : State} (h : Settled s) {c : Nat} (stage : Stage) (hc : s.call c = stage)
    (hstage : stage.holds) : False := h c (hc ▸ hstage)

theorem History.attempting {es : List Event} {s : State} (hh : History es s) {c : Nat}
    (hc : (s.call c).holds) (happroved : s.call c ≠ .approved) : s.outcome = none :=
  (hh.held c hc).resolve_right fun h => happroved h.1

/-- Steps that leave the lock and the cell alone leave the history alone. -/
theorem History.frame {es : List Event} {s t : State} {e : Event} (hh : History es s)
    (hc : ∀ d, t.call d = s.call d ∨ ¬ (s.call d).holds ∧ ¬ (t.call d).holds) (ho : t.outcome = s.outcome)
    (ha : allowed (es ++ [e]) = allowed es) (hanswer : handed (e :: es.reverse) = handed es.reverse) :
    History (es ++ [e]) t := by
  have hholds : ∀ d, (s.call d).holds → (t.call d).holds := by
    intro d hd
    rcases hc d with h | ⟨h, -⟩
    · exact h ▸ hd
    · exact absurd hd h
  refine ⟨?_, fun d hd => ?_, fun hsettled => ?_⟩
  · rw [ha, ← hh.permitted]
    simp only [Documents.permitted, ho]
  · rcases hc d with h | ⟨-, h⟩
    · rw [ho, h]
      exact hh.held d (h ▸ hd)
    · exact absurd hd h
  · rw [List.reverse_append, List.reverse_singleton, List.singleton_append, hanswer, ho]
    exact hh.answered (settled_of_idle hholds hsettled)

/-- The holder of the lock moves on: nothing is settled before it gives it up. -/
theorem History.move {es : List Event} {s : State} {c : Nat} {stage : Stage} {e : Event} (hh : History es s)
    (hstage : stage.holds) (ha : allowed (es ++ [e]) = allowed es)
    (hcell : s.outcome = none ∨ stage = .approved ∧ s.outcome = some (.ok true)) :
    History (es ++ [e]) (setCall s c stage) := by
  refine ⟨ha ▸ hh.permitted, fun d hd => ?_, fun hsettled => ?_⟩
  · by_cases hdc : d = c
    · subst hdc
      rw [setCall_same]
      exact hcell
    · rw [setCall_other hdc] at hd ⊢
      exact hh.held d hd
  · exact (hsettled.not_holding stage (setCall_same s c stage) hstage).elim

/-- The holder gives up the lock and leaves its outcome behind. -/
theorem History.release {es : List Event} {s : State} {c : Nat} {e : Event} (outcome : Option Outcome)
    (hline : Line s) (hhead : s.quit.head? = some c)
    (hp : Documents.permitted { s with outcome := outcome } = allowed (es ++ [e]))
    (hanswer : verdict outcome = handed (e :: es.reverse)) :
    History (es ++ [e]) { release s c with outcome := outcome } := by
  refine ⟨hp, fun d hd => ?_, fun _ => ?_⟩
  · exfalso
    by_cases hdc : d = c
    · subst hdc
      simp [Documents.release, setCall, Stage.holds] at hd
    · have hsame : ({ Documents.release s c with outcome := outcome } : State).call d = s.call d := setCall_other hdc
      exact hdc (Option.some.inj ((hline.head (hsame ▸ hd)).symm.trans hhead))
  · rw [List.reverse_append, List.reverse_singleton, List.singleton_append, ← hanswer]

theorem History.step {es : List Event} {s t : State} {e : Event} (hs : Invariant s) (hh : History es s)
    (hk : Kept s e) (h : step s e = some t) : History (es ++ [e]) t := by
  cases e with
  | enter | insert | leave | save | saved | destroy | unregister | intercept =>
      simp only [Documents.step, Option.ite_none_right_eq_some] at h
      obtain ⟨-, h⟩ := h
      obtain rfl := Option.some.inj h
      exact hh.frame (fun d => .inl rfl) rfl (by simp) rfl
  | built success =>
      simp only [Documents.step] at h
      split at h
      · obtain rfl := Option.some.inj h
        refine hh.frame (fun d => .inl ?_) ?_ (by simp) rfl <;> unfold build <;> split <;> rfl
      · contradiction
  | closeAll c taken =>
      simp only [Documents.step, tryLock, Option.ite_none_right_eq_some] at h
      obtain ⟨hidle, h⟩ := h
      split at h
      · obtain rfl := Option.some.inj h
        have hnone : allowed es = false := hh.permitted ▸ hk c rfl
        have ht : (setCall s c .settling).call c = .settling := setCall_same s c _
        refine ⟨by simp [Documents.permitted, hnone], fun d hd => .inl rfl, fun hsettled => ?_⟩
        exact (hsettled.not_holding .settling ht trivial).elim
      · obtain rfl := Option.some.inj h
        refine hh.frame (fun d => ?_) rfl (by simp) rfl
        by_cases hdc : d = c
        · subst hdc
          exact .inr ⟨by simp [hidle, Stage.holds], by simp [setCall, Stage.holds]⟩
        · exact .inl (setCall_other hdc)
      · contradiction
  | wait c =>
      simp only [Documents.step, Option.ite_none_right_eq_some] at h
      obtain ⟨hrefused, h⟩ := h
      obtain rfl := Option.some.inj h
      refine hh.frame (fun d => ?_) rfl (by simp) rfl
      by_cases hdc : d = c
      · subst hdc
        exact .inr ⟨by simp [hrefused, Stage.holds], by simp [setCall, Stage.holds]⟩
      · exact .inl (setCall_other hdc)
  | resume c result =>
      simp only [Documents.step, Option.ite_none_right_eq_some] at h
      obtain ⟨⟨hwaiting, hhead⟩, h⟩ := h
      obtain ⟨hr, ⟨rfl, rfl⟩ | ⟨-, rfl⟩⟩ := resume_cases h
      · have hp : Documents.permitted s := by
          by_contra hp
          exact verdict_of_not_permitted (by simpa using hp) hr.symm
        exact hh.move trivial (by simp) (.inr ⟨rfl, permitted_iff.mp hp⟩)
      · exact History.release s.outcome hs.line hhead (by simpa using hh.permitted) hr.symm
  | snapshot c labels =>
      simp only [Documents.step, Option.ite_none_right_eq_some] at h
      obtain ⟨⟨hc, -⟩, h⟩ := h
      obtain rfl := Option.some.inj h
      exact hh.move trivial (by simp) (.inl (hh.attempting (by rw [hc]; trivial) (by simp [hc])))
  | next c =>
      simp only [Documents.step] at h
      split at h
      · rename_i label labels hc
        split at h
        · contradiction
        · obtain rfl := Option.some.inj h
          exact hh.move trivial (by simp) (.inl (hh.attempting (by rw [hc]; trivial) (by simp [hc])))
      · contradiction
  | ended c result =>
      simp only [Documents.step] at h
      split at h
      · rename_i label labels hc
        split at h
        · contradiction
        · rename_i hresult
          obtain rfl := Option.some.inj h
          have hnone : allowed es = false := by
            rw [← hh.permitted, Documents.permitted, hh.attempting (by rw [hc]; trivial) (by simp [hc])]
          have hp : Documents.permitted { s with outcome := some result } = false := by
            rw [← Bool.not_eq_true, permitted_iff]
            exact fun hsome => hresult (Option.some.inj hsome)
          exact History.release _ hs.line (hs.line.head (by rw [hc]; trivial)) (by simp [hp, hnone]) rfl
      · contradiction
  | approve c =>
      simp only [Documents.step, Option.ite_none_right_eq_some] at h
      obtain ⟨hc, h⟩ := h
      obtain rfl := Option.some.inj h
      exact hh.move trivial (by simp) (.inl (hh.attempting (by rw [hc]; trivial) (by simp [hc])))
  | allowExit c =>
      simp only [Documents.step, Option.ite_none_right_eq_some] at h
      obtain ⟨hc, h⟩ := h
      obtain rfl := Option.some.inj h
      exact History.release _ hs.line (hs.line.head (by rw [hc]; trivial)) (by simp [Documents.permitted]) rfl
  | abandon c =>
      simp only [Documents.step, Option.ite_none_right_eq_some] at h
      obtain ⟨hc, h⟩ := h
      obtain rfl := Option.some.inj h
      refine History.release s.outcome hs.line (hs.line.head (by rw [hc]; trivial))
        (by simpa using hh.permitted) ?_
      rw [handed, allowed_reverse, ← hh.permitted]
      rcases hh.held c (by rw [hc]; trivial) with ho | ⟨-, ho⟩ <;> simp [verdict, Documents.permitted, ho]

theorem history_of_run {es : List Event} {s : State} (h : exec step start es = some s)
    (hk : Along step Kept start es) : History es s := by
  have hstart : Invariant start ∧ History [] start :=
    ⟨invariant_start, rfl, fun c hc => .inl rfl, fun _ => rfl⟩
  exact (exec_history (H := fun es s => Invariant s ∧ History es s)
    (fun hs hk hstep => ⟨hs.1.step hstep, hs.2.step hs.1 hk hstep⟩) hstart h hk).2

/-- A new attempt takes the lock at once, and a new window opens as soon as the
opening gate is free. -/
def Accepts (s : State) : Prop :=
  (∀ c, s.call c = .idle → ∃ t, step s (.closeAll c true) = some t) ∧
  (s.gate = none → ∃ t, exec step s [.enter, .insert, .built true] = some t)

theorem accepts_of_free {s : State} (hq : s.quit = []) (hp : permitted s = false) : Accepts s := by
  constructor
  · intro c hc
    simp [step, hc, tryLock, hq]
  · intro hg
    have hadmits : admits { s with gate := some .opening } = true := by
      simpa [admits, hq, permitted] using hp
    simp only [exec, step, hg, hadmits, if_true, Option.bind_some, and_self, Option.some.injEq, exists_eq']

/-- Once no attempt is under way, the calls in line return one after the other
and leave the lock free. -/
theorem answers_free {s : State} (hs : Invariant s) (hsettled : Settled s) (hp : permitted s = false) :
    ∃ answers t, (∀ e ∈ answers, ∃ c, e = .resume c (verdict s.outcome)) ∧
      exec step s answers = some t ∧ Accepts t := by
  induction hq : s.quit generalizing s with
  | nil => exact ⟨[], s, by simp, rfl, accepts_of_free hq hp⟩
  | cons c rest ih =>
      have hhead : s.quit.head? = some c := by rw [hq, List.head?_cons]
      have hwaiting : s.call c = .waiting := by
        have hin : ¬ (s.call c = .idle ∨ s.call c = .refused) := fun hout =>
          (hs.line.outside c).mpr hout (by simp [hq])
        have hno := hsettled c
        cases hc : s.call c <;> simp_all [Stage.holds]
      have hresume : step s (.resume c (verdict s.outcome)) = some (release s c) := by
        simp only [step, resume, hwaiting, hhead, and_self, if_true]
        split
        · rename_i hv
          exact absurd hv (verdict_of_not_permitted hp)
        · rfl
      have hsettled' : Settled (release s c) := by
        intro d hd
        by_cases hdc : d = c
        · subst hdc
          simp [release, setCall, Stage.holds] at hd
        · exact hsettled d (by simpa [release, setCall, Function.update_of_ne hdc] using hd)
      obtain ⟨answers, t, hans, hrun, hacc⟩ :=
        ih (hs.step hresume) hsettled' (by simpa [permitted, release, setCall] using hp) (by simp [release, hq])
      refine ⟨.resume c (verdict s.outcome) :: answers, t, ?_, ?_, hacc⟩
      · intro e he
        rcases List.mem_cons.mp he with rfl | he
        · exact ⟨c, rfl⟩
        · exact hans e he
      · exact exec_cons.mpr ⟨_, hresume, hrun⟩

/-- The call that holds the lock is the only one that holds anything. -/
theorem settled_release {s : State} (hs : Line s) {c : Nat} (hc : (s.call c).holds) (outcome : Option Outcome) :
    Settled { release s c with outcome := outcome } := by
  intro d hd
  by_cases hdc : d = c
  · subst hdc
    simp [release, setCall, Stage.holds] at hd
  · have hsame : ({ release s c with outcome := outcome } : State).call d = s.call d := setCall_other hdc
    exact hdc (Option.some.inj ((hs.head (hsame ▸ hd)).symm.trans (hs.head hc)))

theorem given_of_end {u s : State} {c : Nat} {e : Event} (hu : Invariant u)
    (he : (∃ result, e = .ended c result) ∨ e = .abandon c) (h : step u e = some s) :
    Settled s ∧ (e = .abandon c ∨ permitted s = false) := by
  rcases he with ⟨result, rfl⟩ | rfl
  · simp only [step] at h
    split at h
    · rename_i label labels hc
      split at h
      · contradiction
      · rename_i hresult
        obtain rfl := Option.some.inj h
        refine ⟨settled_release hu.line (by rw [hc]; trivial) _, .inr ?_⟩
        rw [← Bool.not_eq_true, permitted_iff]
        exact fun hsome => hresult (Option.some.inj hsome)
    · contradiction
  · simp only [step, Option.ite_none_right_eq_some] at h
    obtain ⟨hc, h⟩ := h
    obtain rfl := Option.some.inj h
    exact ⟨settled_release hu.line (by rw [hc]; trivial) u.outcome, .inl rfl⟩

/-- Quitting after the events `es`: what holds of the calls that hold an
approval, of the windows, of the calls in line and of the permission. -/
structure Decided (es : List Event) (s : State) : Prop where
  closed : ∀ c, s.call c = .approved → s.live = []
  opens : ∀ e t, e = .insert ∨ e = .built true → step s e = some t →
    (∀ c, s.call c ≠ .approved) ∧ allowed es = false
  alone : ∀ c d, (s.call c).holds → (s.call d).holds → c = d
  answered : ∀ c result t, step s (.resume c result) = some t → result = handed es.reverse
  exits : ∀ t, step s (.intercept true) = some t → permitted s ∧ s.live = []
  kept : allowed es → permitted s
  given : ∀ before c, (∃ result, es = before ++ [.ended c result]) ∨
    es = before ++ [.abandon c] ∧ allowed before = false → Settled s ∧ allowed es = false
  accepts : Settled s → allowed es = false →
    ∃ answers t, (∀ e ∈ answers, ∃ c, e = .resume c (handed es.reverse)) ∧
      exec step s answers = some t ∧ Accepts t

theorem opens_unsealed {s t : State} {e : Event} (hs : Invariant s) (he : e = .insert ∨ e = .built true)
    (h : step s e = some t) : (∀ c, s.call c ≠ .approved) ∧ permitted s = false := by
  rcases he with rfl | rfl
  · simp only [step, Option.ite_none_right_eq_some, admits, Bool.and_eq_true, List.isEmpty_iff,
      Bool.not_eq_true'] at h
    obtain ⟨⟨-, hq, hp⟩, -⟩ := h
    refine ⟨fun c hc => ?_, hp⟩
    have hhead := hs.line.head (c := c) (by rw [hc]; trivial)
    simp [hq] at hhead
  · simp only [step] at h
    split at h
    · rename_i label hg
      refine ⟨fun c hc => (hs.shut.approved c hc).2 label hg, ?_⟩
      by_contra hp
      exact (hs.shut.permitted (by simpa using hp)).2 label hg
    · contradiction

theorem live_nil {s : State} (hs : Invariant s) (h : permitted s ∨ ∃ c, s.call c = .approved) :
    s.live = [] := by
  refine List.eq_nil_iff_forall_not_mem.mpr fun l hl => ?_
  rcases h with hp | ⟨c, hc⟩
  · exact absurd ((hs.shut.permitted hp).1 l hl) (List.not_mem_nil)
  · exact absurd ((hs.shut.approved c hc).1 l hl) (List.not_mem_nil)

theorem quit_decided {es : List Event} {s : State} (h : exec step start es = some s)
    (hk : Along step Kept start es) : Decided es s := by
  have hs := invariant_of_run h
  have hh := history_of_run h hk
  refine ⟨fun c hc => live_nil hs (.inr ⟨c, hc⟩), fun e t he ht => ?_, fun c d hc hd => ?_, fun c result t ht => ?_,
    fun t ht => ?_, fun ha => hh.permitted ▸ ha, fun before c hend => ?_, fun hsettled hnone => ?_⟩
  · obtain ⟨hno, hp⟩ := opens_unsealed hs he ht
    exact ⟨hno, hh.permitted ▸ hp⟩
  · exact Option.some.inj ((hs.line.head hc).symm.trans (hs.line.head hd))
  · simp only [step, Option.ite_none_right_eq_some] at ht
    obtain ⟨⟨hwaiting, hhead⟩, ht⟩ := ht
    obtain ⟨rfl, -⟩ := resume_cases ht
    refine hh.answered fun d hd => ?_
    obtain rfl : d = c := Option.some.inj ((hs.line.head hd).symm.trans hhead)
    simp [hwaiting, Stage.holds] at hd
  · simp only [step, Option.ite_none_right_eq_some, interceptExit, eq_comm (a := true), Bool.and_eq_true] at ht
    exact ⟨ht.1.2, live_nil hs (.inl ht.1.2)⟩
  · rcases hend with ⟨result, rfl⟩ | ⟨rfl, hnone⟩
    · obtain ⟨u, hu, hstep⟩ := exec_concat.mp h
      obtain ⟨hsettled, habandon | hp⟩ := given_of_end (invariant_of_run hu) (.inl ⟨result, rfl⟩) hstep
      · contradiction
      · exact ⟨hsettled, hh.permitted ▸ hp⟩
    · obtain ⟨u, hu, hstep⟩ := exec_concat.mp h
      exact ⟨(given_of_end (invariant_of_run hu) (.inr rfl) hstep).1, by simpa using hnone⟩
  · obtain ⟨answers, t, hans, hrun, hacc⟩ := answers_free hs hsettled (hh.permitted.trans hnone)
    exact ⟨answers, t, hh.answered hsettled ▸ hans, hrun, hacc⟩

/-- A quit that saves a window's work, with the updater in line behind it. -/
def quitting : List Event :=
  [.enter, .insert, .built true, .closeAll 0 true, .closeAll 1 false, .wait 1, .snapshot 0 [0], .destroy 0,
    .unregister 0, .next 0, .approve 0, .allowExit 0, .resume 1 (.ok true), .abandon 1, .intercept true]

/-- The windows are closed for an exit. -/
def Event.closesForExit : Event → Bool
  | .closeAll _ exit => exit
  | _ => false

theorem quitting_decided : ∃ s, exec step start quitting = some s ∧ s.live = [] ∧ Decided quitting s := by
  refine ⟨_, rfl, rfl, quit_decided rfl ?_⟩
  refine along_of_check (p := fun s e => !e.closesForExit || !permitted s) ?_ (by decide)
  rintro s e hcheck c rfl
  simpa [Event.closesForExit] using hcheck

/-- Permission is given, and a second attempt takes the lock before the exit is
asked for. It is abandoned, and windows open again. -/
def withdrawn : List Event :=
  [.closeAll 0 true, .snapshot 0 [], .approve 0, .allowExit 0, .closeAll 1 true, .intercept false, .snapshot 1 [],
    .approve 1, .abandon 1, .enter, .insert, .built true]

theorem permission_withdrawn : ¬ ∀ es s, exec step start es = some s → Decided es s := by
  intro h
  have hkept := (h withdrawn _ rfl).kept rfl
  exact absurd hkept (by decide)

end Wordflow.Documents
