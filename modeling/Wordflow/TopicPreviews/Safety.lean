import Mathlib.Data.List.Induction
import Wordflow.TopicPreviews.Slot

namespace Wordflow.TopicPreviews

open Library.OrderedMap Library.Run Objects

variable {s t : State} {id other : Uuid}

section Frames

theorem get?_setPreview (change : Preview → Preview) :
    (setPreview s id change).previews.get? other =
      if other = id then (s.previews.get? other).map change else s.previews.get? other :=
  Map.get?_modify change

theorem get?_setAdjust (change : Adjust → Adjust) :
    (setAdjust s id change).adjusts.get? other =
      if other = id then (s.adjusts.get? other).map change else s.adjusts.get? other :=
  Map.get?_modify change

@[simp] theorem setPreview_adjusts (change : Preview → Preview) : (setPreview s id change).adjusts = s.adjusts := rfl

@[simp] theorem setPreview_adjustments (change : Preview → Preview) :
    (setPreview s id change).adjustments = s.adjustments := rfl

@[simp] theorem setAdjust_previews (change : Adjust → Adjust) : (setAdjust s id change).previews = s.previews := rfl

@[simp] theorem setAdjust_adjustments (change : Adjust → Adjust) :
    (setAdjust s id change).adjustments = s.adjustments := rfl

@[simp] theorem finishTopicAdjustment_previews (key : Uuid) :
    (finishTopicAdjustment s id key).previews = s.previews := by
  simp only [finishTopicAdjustment]
  split <;> rfl

@[simp] theorem finishTopicAdjustment_adjusts (key : Uuid) :
    (finishTopicAdjustment s id key).adjusts = s.adjusts := by
  simp only [finishTopicAdjustment]
  split <;> rfl

@[simp] theorem register_previews (key : Uuid) : (register s id key).previews = s.previews := by
  simp only [register]
  split <;> simp

@[simp] theorem register_adjustments (key : Uuid) :
    (register s id key).adjustments = s.adjustments.insert key id := by
  simp only [register]
  split <;> simp

@[simp] theorem cancelForRelease_previews :
    (cancelForRelease s id).previews = (setPreview s id Preview.cancel).previews := by
  simp only [cancelForRelease]
  split <;> simp

@[simp] theorem cancelForRelease_adjustments : (cancelForRelease s id).adjustments = s.adjustments := by
  simp only [cancelForRelease]
  split <;> simp

end Frames

/-- What a step may do to a preview. -/
structure Evolves (p q : Preview) : Prop where
  fit : p.fit = .ended → q.fit = .ended
  finished : p.finished = true → q.finished = true
  ended : q.finished = true → p.finished = true ∨ p.fit = .ended
  model : q.model = p.model ∨ q.model = none ∨ p.fit = .admitted ∨ p.model.isSome

theorem Evolves.refl (p : Preview) : Evolves p p := ⟨fun h => h, fun h => h, .inl, .inl rfl⟩

/-- What a step does to the map of previews. -/
inductive PreviewEffect (s t : State) : Prop
  | same (h : t.previews = s.previews)
  | change (id : Uuid) (change : Preview → Preview) (h : t.previews = s.previews.modify id change)
      (hchange : ∀ p, s.previews.get? id = some p → Evolves p (change p))
  | opened (id tab : Uuid) (hfresh : s.previews.get? id = none)
      (h : t.previews = s.previews.insert id ⟨tab, false, false, true, .running, none⟩)

/-- What a step does to the previews, the deletions and the releases. -/
inductive Effect (s t : State) : Prop
  | quiet (hpreviews : PreviewEffect s t) (hdeletes : t.deletes = s.deletes) (hreleases : t.releases = s.releases)
  | delete (id preview : Uuid) (hpreviews : PreviewEffect s t) (hdeletes : t.deletes = s.deletes.insert id ⟨preview, false⟩)
      (hreleases : t.releases = s.releases)
  | deleteEmpty (id preview : Uuid) (hfinished : (s.previews.get? preview).any Preview.finished = true)
      (hpreviews : t.previews = s.previews.modify preview Preview.clear)
      (hdeletes : t.deletes = s.deletes.insert id ⟨preview, true⟩) (hreleases : t.releases = s.releases)
  | release (id : Uuid) (collected : List Uuid) (hpreviews : t.previews = s.previews) (hdeletes : t.deletes = s.deletes)
      (hreleases : t.releases = s.releases.insert id ⟨collected, collected, false⟩)
  | releaseNext (id preview : Uuid) (collected rest : List Uuid)
      (hbefore : s.releases.get? id = some ⟨collected, preview :: rest, false⟩) (hpreviews : PreviewEffect s t)
      (hdeletes : t.deletes = s.deletes) (hreleases : t.releases = s.releases.insert id ⟨collected, preview :: rest, true⟩)
  | releaseEmpty (id preview : Uuid) (collected rest : List Uuid)
      (hbefore : s.releases.get? id = some ⟨collected, preview :: rest, true⟩)
      (hfinished : (s.previews.get? preview).any Preview.finished = true)
      (hpreviews : t.previews = s.previews.modify preview Preview.clear) (hdeletes : t.deletes = s.deletes)
      (hreleases : t.releases = s.releases.insert id ⟨collected, rest, false⟩)

theorem evolves_cancel (p : Preview) : Evolves p p.cancel := ⟨fun h => h, fun h => h, .inl, .inl rfl⟩

theorem evolves_clear (p : Preview) : Evolves p p.clear := ⟨fun h => h, fun h => h, .inl, .inr (.inl rfl)⟩

theorem effect_commit (a : Adjust) (next : Uuid) : Effect s (commit s id a next) := by
  simp only [commit]
  split
  · rename_i slot hslot
    split
    · rename_i hmodel
      refine .quiet (.change a.preview (fun p => { p with model := some next }) rfl fun p hp => ?_) rfl rfl
      rw [hslot] at hp
      obtain rfl := Option.some.inj hp
      exact ⟨fun h => h, fun h => h, .inl, .inr (.inr (.inr (by rw [hmodel]; rfl)))⟩
    · exact .quiet (.same rfl) rfl rfl
  · exact .quiet (.same rfl) rfl rfl

theorem effect_register (key : Uuid) (phase : AdjustPhase) :
    Effect s (register (setAdjust s id (Adjust.enter phase)) id key) := by
  simp only [register]
  split <;> exact .quiet (.same rfl) rfl rfl

theorem effect_finishAdjust (key : Uuid) (change : Adjust → Adjust) :
    Effect s (setAdjust (finishTopicAdjustment s id key) id change) := by
  simp only [finishTopicAdjustment]
  split <;> exact .quiet (.same rfl) rfl rfl

theorem effect_releaseNext {preview : Uuid} {collected rest : List Uuid}
    (hbefore : s.releases.get? id = some ⟨collected, preview :: rest, false⟩) :
    Effect s { cancelForRelease s preview with releases := s.releases.insert id ⟨collected, preview :: rest, true⟩ } := by
  have hpreviews : (cancelForRelease s preview).previews = s.previews.modify preview Preview.cancel := by
    simp only [cancelForRelease]
    split <;> rfl
  have hdeletes : (cancelForRelease s preview).deletes = s.deletes := by
    simp only [cancelForRelease]
    split <;> rfl
  exact .releaseNext id preview collected rest hbefore (.change preview _ hpreviews fun p _ => evolves_cancel p) hdeletes rfl

theorem step_effect {e : Event} (h : step s e = some t) : Effect s t := by
  cases e with
  | openPreview id tab =>
      obtain ⟨hfresh, h⟩ := Option.ite_none_left_eq_some.mp h
      obtain rfl := Option.some.inj h
      have hnone : s.previews.get? id = none := by
        rwa [Map.contains, Bool.not_eq_true, Option.isSome_eq_false_iff, Option.isNone_iff_eq_none] at hfresh
      exact .quiet (.opened id tab hnone rfl) rfl rfl
  | fitted id success =>
      simp only [step] at h
      split at h
      · rename_i hrunning
        obtain rfl := Option.some.inj h
        refine .quiet (.change id _ rfl fun p hp => ?_) rfl rfl
        rw [hrunning] at hp
        obtain rfl := Option.some.inj hp
        exact ⟨fun h => (by cases h), fun h => h, .inl, .inl rfl⟩
      · cases h
  | publish id revision =>
      simp only [step] at h
      split at h
      · rename_i hadmitted
        obtain ⟨-, h⟩ := Option.ite_none_right_eq_some.mp h
        obtain rfl := Option.some.inj h
        refine .quiet (.change id _ rfl fun p hp => ?_) rfl rfl
        rw [hadmitted] at hp
        obtain rfl := Option.some.inj hp
        exact ⟨fun _ => rfl, fun h => h, .inl, .inr (.inr (.inl rfl))⟩
      · cases h
  | finish id =>
      simp only [step] at h
      split at h
      · rename_i hended
        obtain rfl := Option.some.inj h
        refine .quiet (.change id _ rfl fun p hp => ?_) rfl rfl
        rw [hended] at hp
        obtain rfl := Option.some.inj hp
        exact ⟨fun h => h, fun _ => rfl, fun _ => .inr rfl, .inl rfl⟩
      · cases h
  | dropLease id =>
      obtain rfl := Option.some.inj h
      exact .quiet (.change id _ rfl fun p _ => ⟨fun h => h, fun h => h, .inl, .inl rfl⟩) rfl rfl
  | cancel id =>
      obtain rfl := Option.some.inj h
      exact .quiet (.change id _ rfl fun p _ => evolves_cancel p) rfl rfl
  | adjust id preview tab expectedProjection =>
      simp only [step] at h
      split at h
      · cases h
      · split at h <;> (obtain rfl := Option.some.inj h; exact .quiet (.same rfl) rfl rfl)
  | clone id =>
      simp only [step] at h
      split at h
      · split at h <;> (obtain rfl := Option.some.inj h; exact .quiet (.same rfl) rfl rfl)
      · cases h
  | register id =>
      simp only [step] at h
      split at h
      · obtain rfl := Option.some.inj h
        exact effect_register _ _
      · cases h
  | check id | recheck id | fail id error =>
      simp only [step] at h
      split at h
      all_goals first
        | cases h; done
        | obtain rfl := Option.some.inj h
          exact .quiet (.same rfl) rfl rfl
  | compute id outcome =>
      simp only [step] at h
      split at h
      · split at h
        · obtain rfl := Option.some.inj h
          exact .quiet (.same rfl) rfl rfl
        · split at h
          · obtain rfl := Option.some.inj h
            exact .quiet (.same rfl) rfl rfl
          · obtain ⟨-, h⟩ := Option.ite_none_right_eq_some.mp h
            obtain rfl := Option.some.inj h
            exact .quiet (.same rfl) rfl rfl
      · cases h
  | commit id =>
      simp only [step] at h
      split at h
      · obtain rfl := Option.some.inj h
        exact effect_commit _ _
      · cases h
  | interrupt id =>
      obtain rfl := Option.some.inj h
      exact .quiet (.same rfl) rfl rfl
  | finishAdjust id =>
      simp only [step] at h
      split at h
      · obtain rfl := Option.some.inj h
        exact effect_finishAdjust _ _
      · cases h
  | release id tab =>
      obtain ⟨-, h⟩ := Option.ite_none_left_eq_some.mp h
      obtain rfl := Option.some.inj h
      exact .release id _ rfl rfl rfl
  | releaseNext id =>
      simp only [step] at h
      split at h
      · rename_i hbefore
        obtain rfl := Option.some.inj h
        exact effect_releaseNext hbefore
      · cases h
  | releaseEmpty id =>
      simp only [step] at h
      split at h
      · rename_i collected preview rest hbefore
        obtain ⟨hfinished, h⟩ := Option.ite_none_right_eq_some.mp h
        obtain rfl := Option.some.inj h
        exact .releaseEmpty id preview collected rest hbefore hfinished rfl rfl rfl
      · cases h
  | delete id preview tab =>
      simp only [step] at h
      split at h
      · cases h
      · split at h
        · obtain rfl := Option.some.inj h
          exact .delete id preview (.change preview _ rfl fun p _ => evolves_cancel p) rfl rfl
        · obtain rfl := Option.some.inj h
          exact .quiet (.same rfl) rfl rfl
  | deleteEmpty id =>
      simp only [step] at h
      split at h
      · rename_i preview hbefore
        obtain ⟨hfinished, h⟩ := Option.ite_none_right_eq_some.mp h
        obtain rfl := Option.some.inj h
        exact .deleteEmpty id preview hfinished rfl rfl rfl
      · cases h

theorem Effect.previews (h : Effect s t) : PreviewEffect s t := by
  cases h with
  | quiet hpreviews | delete _ _ hpreviews | releaseNext _ _ _ _ _ hpreviews => exact hpreviews
  | deleteEmpty _ preview _ hpreviews => exact .change preview _ hpreviews fun p _ => evolves_clear p
  | release _ _ hpreviews => exact .same hpreviews
  | releaseEmpty _ preview _ _ _ _ hpreviews => exact .change preview _ hpreviews fun p _ => evolves_clear p

/-- Every preview is still there after a step. -/
theorem PreviewEffect.forward (h : PreviewEffect s t) {p : Preview} (hp : s.previews.get? other = some p) :
    ∃ q, t.previews.get? other = some q ∧ Evolves p q := by
  cases h with
  | same h => exact ⟨p, by rw [h, hp], .refl p⟩
  | change id change h hchange =>
      rw [h, Map.get?_modify]
      split
      · rename_i heq
        exact ⟨change p, by rw [hp]; rfl, hchange p (heq ▸ hp)⟩
      · exact ⟨p, hp, .refl p⟩
  | opened id tab hfresh h =>
      have hne : other ≠ id := by
        rintro rfl
        rw [hfresh] at hp
        cases hp
      exact ⟨p, by rw [h, Map.get?_insert_of_ne hne, hp], .refl p⟩

/-- A preview after a step was there before, or is a new one. -/
theorem PreviewEffect.backward (h : PreviewEffect s t) {q : Preview} (hq : t.previews.get? other = some q) :
    (∃ p, s.previews.get? other = some p ∧ Evolves p q) ∨ q.finished = false := by
  cases hp : s.previews.get? other with
  | some p =>
      obtain ⟨q', hq', hevolves⟩ := h.forward hp
      rw [hq] at hq'
      obtain rfl := Option.some.inj hq'
      exact .inl ⟨p, rfl, hevolves⟩
  | none =>
      right
      cases h with
      | same h =>
          rw [h, hp] at hq
          cases hq
      | change id change h _ =>
          rw [h, Map.get?_modify, hp] at hq
          split at hq <;> cases hq
      | opened id tab _ h =>
          rw [h] at hq
          by_cases hid : other = id
          · rw [hid, Map.get?_insert_self] at hq
            obtain rfl := Option.some.inj hq
            rfl
          · rw [Map.get?_insert_of_ne hid, hp] at hq
            cases hq

/-- A preview whose fit has ended and whose slot is empty. -/
structure Emptied (s : State) (id : Uuid) : Prop where
  slot : ∃ p, s.previews.get? id = some p ∧ p.finished = true ∧ p.fit = .ended ∧ p.model = none

theorem step_emptied {e : Event} (h : step s e = some t) (hs : Emptied s id) : Emptied t id := by
  obtain ⟨p, hp, hfinished, hfit, hmodel⟩ := hs.slot
  obtain ⟨q, hq, hevolves⟩ := (step_effect h).previews.forward hp
  refine ⟨q, hq, hevolves.finished hfinished, hevolves.fit hfit, ?_⟩
  rcases hevolves.model with h | h | h | h
  · rw [h, hmodel]
  · exact h
  · rw [hfit] at h
    cases h
  · rw [hmodel] at h
    cases h

theorem run_emptied {es : List Event} (h : exec step s es = some t) (hs : Emptied s id) : Emptied t id :=
  exec_invariant (I := fun u => Emptied u id) (fun hI hstep => step_emptied hstep hI) hs h

section Adjusts

/-- An adjustment that has stored a projection. -/
def Stored (a : Adjust) (next : Uuid) : Prop := a.phase = .ended (.ok next) ∨ a.phase = .returned (.ok next)

/-- Where a stored adjustment of a state comes from in the state before. -/
def StoredBefore (s : State) (id : Uuid) (a : Adjust) (next : Uuid) : Prop :=
  ∃ b, s.adjusts.get? id = some b ∧ Stored b next ∧ b.preview = a.preview ∧ b.expectedProjection = a.expectedProjection

theorem storedBefore_setAdjust {change : Adjust → Adjust} {a : Adjust} {next : Uuid}
    (ha : (setAdjust s id change).adjusts.get? other = some a) (hstored : Stored a next)
    (hchange : other = id → ∀ b, s.adjusts.get? id = some b → Stored (change b) next →
      Stored b next ∧ b.preview = (change b).preview ∧ b.expectedProjection = (change b).expectedProjection) :
    StoredBefore s other a next := by
  rw [get?_setAdjust] at ha
  split at ha
  · rename_i heq
    obtain ⟨b, hb, rfl⟩ := Option.map_eq_some_iff.mp ha
    obtain ⟨hbefore, hpreview, hexpected⟩ := hchange heq b (heq ▸ hb) hstored
    exact ⟨b, hb, hbefore, hpreview, hexpected⟩
  · exact ⟨a, ha, hstored, rfl, rfl⟩

theorem storedBefore_enter {phase : AdjustPhase} {a : Adjust} {next : Uuid}
    (ha : (setAdjust s id (Adjust.enter phase)).adjusts.get? other = some a) (hstored : Stored a next)
    (hphase : phase ≠ .ended (.ok next)) (hphase' : phase ≠ .returned (.ok next)) : StoredBefore s other a next :=
  storedBefore_setAdjust ha hstored fun _ _ _ h => h.elim (absurd · hphase) (absurd · hphase')

theorem storedBefore_cancel {a : Adjust} {next : Uuid}
    (ha : (setAdjust s id Adjust.cancel).adjusts.get? other = some a) (hstored : Stored a next) :
    StoredBefore s other a next :=
  storedBefore_setAdjust ha hstored fun _ _ _ h => ⟨h, rfl, rfl⟩

theorem StoredBefore.trans {a b : Adjust} {next : Uuid} (h : StoredBefore s other b next)
    (hpreview : b.preview = a.preview) (hexpected : b.expectedProjection = a.expectedProjection) :
    StoredBefore s other a next := by
  obtain ⟨c, hc, hstored, hp, he⟩ := h
  exact ⟨c, hc, hstored, hp.trans hpreview, he.trans hexpected⟩

theorem storedBefore_register {key : Uuid} {a : Adjust} {next : Uuid}
    (ha : (register s id key).adjusts.get? other = some a) (hstored : Stored a next) : StoredBefore s other a next := by
  simp only [register] at ha
  split at ha
  · exact storedBefore_cancel ha hstored
  · exact ⟨a, ha, hstored, rfl, rfl⟩

/-- The commit of an adjustment met the projection that it expects. -/
def Committed (s t : State) (e : Event) (id : Uuid) (a : Adjust) (next : Uuid) : Prop :=
  e = .commit id ∧ (∃ p, s.previews.get? a.preview = some p ∧ p.model = some a.expectedProjection) ∧
    ∃ q, t.previews.get? a.preview = some q ∧ q.model = some next

theorem commit_stored {b a : Adjust} {next written : Uuid} (hb : s.adjusts.get? id = some b)
    (ha : (commit s id b written).adjusts.get? other = some a)
    (hstored : Stored a next) :
    StoredBefore s other a next ∨ Committed s (commit s id b written) (.commit id) other a next := by
  simp only [commit] at ha ⊢
  cases hp : s.previews.get? b.preview with
  | none =>
      rw [hp] at ha
      exact .inl (storedBefore_enter ha hstored (by simp) (by simp))
  | some p =>
      rw [hp] at ha
      by_cases hmodel : p.model = some b.expectedProjection
      · simp only [if_pos hmodel] at ha ⊢
        by_cases hid : other = id
        · subst hid
          right
          rw [get?_setAdjust, if_pos rfl, setPreview_adjusts, hb] at ha
          obtain rfl := Option.some.inj ha
          have hnext : written = next := by
            rcases hstored with h | h
            · exact Except.ok.inj (AdjustPhase.ended.inj h)
            · cases h
          refine ⟨rfl, ⟨p, hp, hmodel⟩, ?_⟩
          change ∃ q, (setPreview s b.preview _).previews.get? b.preview = some q ∧ _
          rw [get?_setPreview, if_pos rfl, hp]
          exact ⟨_, rfl, by rw [hnext]⟩
        · left
          rw [get?_setAdjust, if_neg hid, setPreview_adjusts] at ha
          exact ⟨a, ha, hstored, rfl, rfl⟩
      · simp only [if_neg hmodel] at ha
        exact .inl (storedBefore_enter ha hstored (by simp) (by simp))

/-- A stored adjustment was stored before, or is stored by this step. -/
theorem step_stored {e : Event} (h : step s e = some t) {a : Adjust} {next : Uuid}
    (ha : t.adjusts.get? other = some a) (hstored : Stored a next) :
    StoredBefore s other a next ∨ Committed s t e other a next := by
  cases e with
  | openPreview id tab =>
      obtain ⟨-, h⟩ := Option.ite_none_left_eq_some.mp h
      obtain rfl := Option.some.inj h
      exact .inl ⟨a, ha, hstored, rfl, rfl⟩
  | fitted id success | finish id =>
      simp only [step] at h
      split at h
      · obtain rfl := Option.some.inj h
        exact .inl ⟨a, ha, hstored, rfl, rfl⟩
      · cases h
  | publish id revision | releaseEmpty id | deleteEmpty id =>
      simp only [step] at h
      split at h
      · obtain ⟨-, h⟩ := Option.ite_none_right_eq_some.mp h
        obtain rfl := Option.some.inj h
        exact .inl ⟨a, ha, hstored, rfl, rfl⟩
      · cases h
  | dropLease id | cancel id =>
      obtain rfl := Option.some.inj h
      exact .inl ⟨a, ha, hstored, rfl, rfl⟩
  | adjust id preview tab expectedProjection =>
      simp only [step] at h
      split at h
      · cases h
      split at h
      all_goals
        obtain rfl := Option.some.inj h
        by_cases hid : other = id
        · subst hid
          rw [Map.get?_insert_self] at ha
          obtain rfl := Option.some.inj ha
          exact absurd hstored (by simp [Stored])
        · rw [Map.get?_insert_of_ne hid] at ha
          exact .inl ⟨a, ha, hstored, rfl, rfl⟩
  | clone id =>
      simp only [step] at h
      split at h
      · split at h
        all_goals
          obtain rfl := Option.some.inj h
          exact .inl (storedBefore_enter ha hstored (by simp) (by simp))
      · cases h
  | register id =>
      simp only [step] at h
      split at h
      · obtain rfl := Option.some.inj h
        obtain ⟨b, hb, hbstored, hpreview, hexpected⟩ := storedBefore_register ha hstored
        exact .inl ((storedBefore_enter hb hbstored (by simp) (by simp)).trans hpreview hexpected)
      · cases h
  | check id | recheck id =>
      simp only [step] at h
      split at h
      · obtain rfl := Option.some.inj h
        refine .inl (storedBefore_enter ha hstored ?_ ?_)
        · split <;> simp
        · split <;> simp
      · cases h
  | compute id outcome =>
      simp only [step] at h
      split at h
      · split at h
        · obtain rfl := Option.some.inj h
          exact .inl (storedBefore_enter ha hstored (by simp) (by simp))
        split at h
        · obtain rfl := Option.some.inj h
          exact .inl (storedBefore_enter ha hstored (by simp) (by simp))
        · obtain ⟨-, h⟩ := Option.ite_none_right_eq_some.mp h
          obtain rfl := Option.some.inj h
          exact .inl (storedBefore_enter ha hstored (by simp) (by simp))
      · cases h
  | commit id =>
      simp only [step] at h
      split at h
      · rename_i hfound
        obtain rfl := Option.some.inj h
        exact commit_stored hfound ha hstored
      · cases h
  | fail id error =>
      simp only [step] at h
      split at h
      all_goals first
        | cases h; done
        | obtain rfl := Option.some.inj h
          exact .inl (storedBefore_enter ha hstored (by simp) (by simp))
  | interrupt id =>
      obtain rfl := Option.some.inj h
      exact .inl (storedBefore_cancel ha hstored)
  | finishAdjust id =>
      simp only [step] at h
      split at h
      · rename_i preview _ _ result hfound
        obtain rfl := Option.some.inj h
        left
        have hsame : (finishTopicAdjustment s id preview).adjusts = s.adjusts := finishTopicAdjustment_adjusts preview
        obtain ⟨b, hb, h⟩ := storedBefore_setAdjust ha hstored fun heq b hb hafter => by
          rw [hsame, hfound] at hb
          obtain rfl := Option.some.inj hb
          refine ⟨.inl ?_, rfl, rfl⟩
          rcases hafter with h | h
          · cases h
          · rw [AdjustPhase.returned.inj h]
        rw [hsame] at hb
        exact ⟨b, hb, h⟩
      · cases h
  | release id tab =>
      obtain ⟨-, h⟩ := Option.ite_none_left_eq_some.mp h
      obtain rfl := Option.some.inj h
      exact .inl ⟨a, ha, hstored, rfl, rfl⟩
  | releaseNext id =>
      simp only [step] at h
      split at h
      · obtain rfl := Option.some.inj h
        left
        change (cancelForRelease s _).adjusts.get? other = some a at ha
        simp only [cancelForRelease] at ha
        split at ha
        · exact storedBefore_cancel ha hstored
        · exact ⟨a, ha, hstored, rfl, rfl⟩
      · cases h
  | delete id preview tab =>
      simp only [step] at h
      split at h
      · cases h
      split at h
      all_goals
        obtain rfl := Option.some.inj h
        exact .inl ⟨a, ha, hstored, rfl, rfl⟩

/-- A stored adjustment was stored by its commit, somewhere in the run. -/
theorem run_stored {es : List Event} (h : exec step start es = some s) {a : Adjust} {next : Uuid}
    (ha : s.adjusts.get? id = some a) (hstored : Stored a next) :
    ∃ before after u v, es = before ++ .commit id :: after ∧ exec step start before = some u ∧
      step u (.commit id) = some v ∧ Committed u v (.commit id) id a next := by
  induction es using List.reverseRecOn generalizing s a with
  | nil =>
      obtain rfl := Option.some.inj h
      cases ha
  | append_singleton es e ih =>
      obtain ⟨u, hu, hstep⟩ := exec_concat.mp h
      rcases step_stored hstep ha hstored with ⟨b, hb, hbstored, hpreview, hexpected⟩ | hcommitted
      · obtain ⟨before, after, v, w, rfl, hv, hw, -, hmet, hwrote⟩ := ih hu hb hbstored
        rw [hpreview] at hmet hwrote
        rw [hexpected] at hmet
        exact ⟨before, after ++ [e], v, w, by rw [List.append_assoc, List.cons_append], hv, hw, rfl, hmet, hwrote⟩
      · obtain rfl := hcommitted.1
        exact ⟨es, [], u, s, rfl, hu, hstep, hcommitted⟩

end Adjusts

section Closings

structure Invariant (s : State) : Prop where
  finished : ∀ id p, s.previews.get? id = some p → p.finished = true → p.fit = .ended
  deleted : ∀ id d, s.deletes.get? id = some d → d.returned = true → Emptied s d.preview
  released : ∀ id r, s.releases.get? id = some r → ∀ preview ∈ r.collected, preview ∉ r.pending → Emptied s preview

theorem invariant_start : Invariant start := by
  refine ⟨fun id p h => ?_, fun id d h => ?_, fun id r h => ?_⟩ <;> cases h

/-- Emptying the slot of a preview whose fit has ended. -/
theorem emptied_clear (hs : Invariant s) (h : (s.previews.get? id).any Preview.finished = true) :
    Emptied (setPreview s id Preview.clear) id := by
  cases hp : s.previews.get? id with
  | none =>
      rw [hp] at h
      cases h
  | some p =>
      rw [hp] at h
      refine ⟨p.clear, ?_, h, hs.finished id p hp h, rfl⟩
      rw [get?_setPreview, if_pos rfl, hp]
      rfl

theorem Invariant.step (hs : Invariant s) {e : Event} (h : step s e = some t) : Invariant t := by
  have hkeep : ∀ preview, Emptied s preview → Emptied t preview := fun preview => step_emptied h
  have heffect := step_effect h
  have hcleared : ∀ preview, (s.previews.get? preview).any Preview.finished = true →
      t.previews = s.previews.modify preview Preview.clear → Emptied t preview := by
    intro preview hfinished hpreviews
    have hempty := (emptied_clear hs hfinished).slot
    exact ⟨by rwa [hpreviews]⟩
  refine ⟨fun id q hq hfinished => ?_, ?_, ?_⟩
  · rcases heffect.previews.backward hq with ⟨p, hp, hevolves⟩ | hnew
    · rcases hevolves.ended hfinished with h | h
      · exact hevolves.fit (hs.finished id p hp h)
      · exact hevolves.fit h
    · rw [hfinished] at hnew
      cases hnew
  · have hdeletes : ∀ {deletes : Map Uuid Delete} {id d}, deletes = s.deletes → deletes.get? id = some d →
        d.returned = true → Emptied t d.preview := by
      rintro _ id d rfl hd hreturned
      exact hkeep _ (hs.deleted id d hd hreturned)
    intro id d hd hreturned
    cases heffect with
    | quiet _ h | release _ _ _ h | releaseNext _ _ _ _ _ _ h | releaseEmpty _ _ _ _ _ _ _ h =>
        exact hdeletes h hd hreturned
    | delete id' preview _ h =>
        rw [h] at hd
        by_cases hid : id = id'
        · rw [hid, Map.get?_insert_self] at hd
          obtain rfl := Option.some.inj hd
          cases hreturned
        · rw [Map.get?_insert_of_ne hid] at hd
          exact hdeletes rfl hd hreturned
    | deleteEmpty id' preview hfinished hpreviews h =>
        rw [h] at hd
        by_cases hid : id = id'
        · rw [hid, Map.get?_insert_self] at hd
          obtain rfl := Option.some.inj hd
          exact hcleared preview hfinished hpreviews
        · rw [Map.get?_insert_of_ne hid] at hd
          exact hdeletes rfl hd hreturned
  · have hreleases : ∀ {releases : Map Uuid Release} {id r}, releases = s.releases → releases.get? id = some r →
        ∀ preview ∈ r.collected, preview ∉ r.pending → Emptied t preview := by
      rintro _ id r rfl hr preview hcollected hdone
      exact hkeep _ (hs.released id r hr preview hcollected hdone)
    intro id r hr preview hcollected hdone
    cases heffect with
    | quiet _ _ h | delete _ _ _ _ h | deleteEmpty _ _ _ _ _ h => exact hreleases h hr preview hcollected hdone
    | release id' collected _ _ h =>
        rw [h] at hr
        by_cases hid : id = id'
        · rw [hid, Map.get?_insert_self] at hr
          obtain rfl := Option.some.inj hr
          exact absurd hcollected hdone
        · rw [Map.get?_insert_of_ne hid] at hr
          exact hreleases rfl hr preview hcollected hdone
    | releaseNext id' first collected rest hbefore _ _ h =>
        rw [h] at hr
        by_cases hid : id = id'
        · rw [hid, Map.get?_insert_self] at hr
          obtain rfl := Option.some.inj hr
          exact hreleases rfl hbefore preview hcollected hdone
        · rw [Map.get?_insert_of_ne hid] at hr
          exact hreleases rfl hr preview hcollected hdone
    | releaseEmpty id' first collected rest hbefore hfinished hpreviews _ h =>
        rw [h] at hr
        by_cases hid : id = id'
        · rw [hid, Map.get?_insert_self] at hr
          obtain rfl := Option.some.inj hr
          by_cases hfirst : preview = first
          · rw [hfirst]
            exact hcleared first hfinished hpreviews
          · refine hreleases rfl hbefore preview hcollected fun hmem => ?_
            exact (List.mem_cons.mp hmem).elim hfirst hdone
        · rw [Map.get?_insert_of_ne hid] at hr
          exact hreleases rfl hr preview hcollected hdone

theorem run_invariant {es : List Event} (h : exec step start es = some s) : Invariant s :=
  exec_invariant (fun hI hstep => hI.step hstep) invariant_start h

end Closings

section Registrations

/-- What a step does to the current adjustments. -/
inductive Registers (s t : State) : Event → Prop
  | same {e : Event} (h : t.adjustments = s.adjustments) : Registers s t e
  | insert {id : Uuid} {a : Adjust} (ha : s.adjusts.get? id = some a)
      (h : t.adjustments = s.adjustments.insert a.preview id) : Registers s t (.register id)
  | remove {id key : Uuid} (hcurrent : s.adjustments.get? key = some id)
      (h : t.adjustments = s.adjustments.remove key) : Registers s t (.finishAdjust id)

theorem registers_finish {key : Uuid} {change : Adjust → Adjust} :
    Registers s (setAdjust (finishTopicAdjustment s id key) id change) (.finishAdjust id) := by
  simp only [finishTopicAdjustment]
  split
  · rename_i hcurrent
    exact .remove hcurrent rfl
  · exact .same rfl

theorem commit_adjustments (a : Adjust) (next : Uuid) : (commit s id a next).adjustments = s.adjustments := by
  simp only [commit]
  split
  · split <;> rfl
  · rfl

theorem step_registers {e : Event} (h : step s e = some t) : Registers s t e := by
  cases e with
  | openPreview id tab | release id tab =>
      obtain ⟨-, h⟩ := Option.ite_none_left_eq_some.mp h
      obtain rfl := Option.some.inj h
      exact .same rfl
  | dropLease id | cancel id | interrupt id =>
      obtain rfl := Option.some.inj h
      exact .same rfl
  | fitted id success | finish id | check id | recheck id | fail id error =>
      simp only [step] at h
      split at h
      all_goals first
        | cases h; done
        | obtain rfl := Option.some.inj h
          exact .same rfl
  | publish id revision | releaseEmpty id | deleteEmpty id =>
      simp only [step] at h
      split at h
      · obtain ⟨-, h⟩ := Option.ite_none_right_eq_some.mp h
        obtain rfl := Option.some.inj h
        exact .same rfl
      · cases h
  | adjust id preview tab expectedProjection | delete id preview tab =>
      simp only [step] at h
      split at h
      · cases h
      · split at h <;> (obtain rfl := Option.some.inj h; exact .same rfl)
  | clone id =>
      simp only [step] at h
      split at h
      · split at h <;> (obtain rfl := Option.some.inj h; exact .same rfl)
      · cases h
  | register id =>
      simp only [step] at h
      split at h
      · rename_i hfound
        obtain rfl := Option.some.inj h
        exact .insert hfound (by rw [register_adjustments]; rfl)
      · cases h
  | compute id outcome =>
      simp only [step] at h
      split at h
      · split at h
        · obtain rfl := Option.some.inj h
          exact .same rfl
        · split at h
          · obtain rfl := Option.some.inj h
            exact .same rfl
          · obtain ⟨-, h⟩ := Option.ite_none_right_eq_some.mp h
            obtain rfl := Option.some.inj h
            exact .same rfl
      · cases h
  | commit id =>
      simp only [step] at h
      split at h
      · obtain rfl := Option.some.inj h
        exact .same (commit_adjustments _ _)
      · cases h
  | finishAdjust id =>
      simp only [step] at h
      split at h
      · obtain rfl := Option.some.inj h
        exact registers_finish
      · cases h
  | releaseNext id =>
      simp only [step] at h
      split at h
      · obtain rfl := Option.some.inj h
        exact .same cancelForRelease_adjustments
      · cases h

theorem setAdjust_kept {change : Adjust → Adjust} (h : (s.adjusts.get? other).isSome) :
    ((setAdjust s id change).adjusts.get? other).isSome := by
  rw [get?_setAdjust]
  split
  · rwa [Option.isSome_map]
  · exact h

theorem insert_kept {adjusts : Map Uuid Adjust} {a : Adjust} (h : (adjusts.get? other).isSome) :
    ((adjusts.insert id a).get? other).isSome := by
  by_cases hid : other = id
  · rw [hid, Map.get?_insert_self]
    rfl
  · rwa [Map.get?_insert_of_ne hid]

theorem cancelForRelease_kept (h : (s.adjusts.get? other).isSome) :
    ((cancelForRelease s id).adjusts.get? other).isSome := by
  simp only [cancelForRelease]
  split
  · exact setAdjust_kept h
  · exact h

theorem register_kept {key : Uuid} (h : (s.adjusts.get? other).isSome) :
    ((register s id key).adjusts.get? other).isSome := by
  simp only [register]
  split
  · exact setAdjust_kept h
  · exact h

theorem commit_kept {a : Adjust} {next : Uuid} (h : (s.adjusts.get? other).isSome) :
    ((commit s id a next).adjusts.get? other).isSome := by
  simp only [commit]
  split
  · split <;> exact setAdjust_kept h
  · exact setAdjust_kept h

theorem step_kept {e : Event} (h : step s e = some t) (hs : (s.adjusts.get? other).isSome) :
    (t.adjusts.get? other).isSome := by
  cases e with
  | openPreview id tab | release id tab =>
      obtain ⟨-, h⟩ := Option.ite_none_left_eq_some.mp h
      obtain rfl := Option.some.inj h
      exact hs
  | dropLease id | cancel id =>
      obtain rfl := Option.some.inj h
      exact hs
  | interrupt id =>
      obtain rfl := Option.some.inj h
      exact setAdjust_kept hs
  | fitted id success | finish id =>
      simp only [step] at h
      split at h
      · obtain rfl := Option.some.inj h
        exact hs
      · cases h
  | publish id revision | releaseEmpty id | deleteEmpty id =>
      simp only [step] at h
      split at h
      · obtain ⟨-, h⟩ := Option.ite_none_right_eq_some.mp h
        obtain rfl := Option.some.inj h
        exact hs
      · cases h
  | adjust id preview tab expectedProjection =>
      simp only [step] at h
      split at h
      · cases h
      · split at h <;> (obtain rfl := Option.some.inj h; exact insert_kept hs)
  | clone id =>
      simp only [step] at h
      split at h
      · split at h <;> (obtain rfl := Option.some.inj h; exact setAdjust_kept hs)
      · cases h
  | register id =>
      simp only [step] at h
      split at h
      · obtain rfl := Option.some.inj h
        exact register_kept (setAdjust_kept hs)
      · cases h
  | check id | recheck id | fail id error =>
      simp only [step] at h
      split at h
      all_goals first
        | cases h; done
        | obtain rfl := Option.some.inj h
          exact setAdjust_kept hs
  | compute id outcome =>
      simp only [step] at h
      split at h
      · split at h
        · obtain rfl := Option.some.inj h
          exact setAdjust_kept hs
        · split at h
          · obtain rfl := Option.some.inj h
            exact setAdjust_kept hs
          · obtain ⟨-, h⟩ := Option.ite_none_right_eq_some.mp h
            obtain rfl := Option.some.inj h
            exact setAdjust_kept hs
      · cases h
  | commit id =>
      simp only [step] at h
      split at h
      · obtain rfl := Option.some.inj h
        exact commit_kept hs
      · cases h
  | finishAdjust id =>
      simp only [step] at h
      split at h
      · obtain rfl := Option.some.inj h
        exact setAdjust_kept (by rwa [finishTopicAdjustment_adjusts])
      · cases h
  | releaseNext id =>
      simp only [step] at h
      split at h
      · obtain rfl := Option.some.inj h
        exact cancelForRelease_kept hs
      · cases h
  | delete id preview tab =>
      simp only [step] at h
      split at h
      · cases h
      · split at h <;> (obtain rfl := Option.some.inj h; exact hs)

/-- Every current adjustment is a call at work. -/
def Registered (s : State) : Prop :=
  ∀ key id, s.adjustments.get? key = some id → (s.adjusts.get? id).isSome

theorem step_registered {e : Event} (h : step s e = some t) (hs : Registered s) : Registered t := by
  intro key id hid
  refine step_kept h ?_
  cases step_registers h with
  | same hsame => exact hs key id (hsame ▸ hid)
  | insert ha hinsert =>
      rename_i a
      rw [hinsert] at hid
      by_cases hkey : key = a.preview
      · rw [hkey, Map.get?_insert_self] at hid
        rw [← Option.some.inj hid, ha]
        rfl
      · rw [Map.get?_insert_of_ne hkey] at hid
        exact hs key id hid
  | remove hcurrent hremove =>
      rename_i removed
      rw [hremove] at hid
      by_cases hkey : key = removed
      · rw [hkey, Map.get?_remove_self] at hid
        cases hid
      · rw [Map.get?_remove_of_ne hkey] at hid
        exact hs key id hid

theorem run_registered {es : List Event} (h : exec step start es = some s) : Registered s :=
  exec_invariant (fun hI hstep => step_registered hstep hI) (fun _ _ h => by cases h) h

/-- Starting an adjustment makes it current, and cancels the one before. -/
theorem register_supersedes (hs : Registered s) (h : step s (.register id) = some t) :
    ∃ a, s.adjusts.get? id = some a ∧ t.adjustments.get? a.preview = some id ∧
      ∀ previous, s.adjustments.get? a.preview = some previous →
        ∃ b, t.adjusts.get? previous = some b ∧ b.cancelled = true := by
  simp only [step] at h
  split at h
  · rename_i preview expectedProjection cancelled base hfound
    obtain rfl := Option.some.inj h
    refine ⟨_, hfound, ?_, fun previous hprevious => ?_⟩
    · rw [register_adjustments, Map.get?_insert_self]
    · have hkept : ((setAdjust s id (Adjust.enter (.registered base))).adjusts.get? previous).isSome :=
        setAdjust_kept (hs _ _ hprevious)
      obtain ⟨b, hb⟩ := Option.isSome_iff_exists.mp hkept
      refine ⟨b.cancel, ?_, rfl⟩
      simp only [register, setAdjust_adjustments, hprevious]
      rw [get?_setAdjust, if_pos rfl]
      change Option.map Adjust.cancel ((setAdjust s id _).adjusts.get? previous) = _
      rw [hb]
      rfl
  · cases h

/-- Finishing an adjustment leaves every other one registered. -/
theorem finish_keeps (h : step s (.finishAdjust id) = some t) {key : Uuid} (hother : other ≠ id)
    (hcurrent : s.adjustments.get? key = some other) : t.adjustments.get? key = some other := by
  cases step_registers h with
  | same hsame => rwa [hsame]
  | remove hremoved hremove =>
      rename_i removed
      have hkey : key ≠ removed := by
        rintro rfl
        rw [hcurrent] at hremoved
        exact hother (Option.some.inj hremoved)
      rw [hremove, Map.get?_remove_of_ne hkey, hcurrent]

end Registrations

section Refusals

/-- A commit on an empty slot ends stale, and stores nothing. -/
theorem commit_emptied {preview : Uuid} {a : Adjust} (hs : Emptied s preview) (ha : s.adjusts.get? id = some a)
    (hpreview : a.preview = preview) (h : step s (.commit id) = some t) :
    t.previews = s.previews ∧ (t.adjusts.get? id).map Adjust.phase = some (.ended (.error stale)) := by
  subst hpreview
  obtain ⟨p, hp, -, -, hmodel⟩ := hs.slot
  simp only [step, ha] at h
  split at h
  · rename_i hfound
    obtain rfl := Option.some.inj hfound
    obtain rfl := Option.some.inj h
    simp only [commit, hp, hmodel]
    rw [if_neg (by simp)]
    refine ⟨rfl, ?_⟩
    rw [get?_setAdjust, if_pos rfl, ha]
    rfl
  · cases h

/-- From here on the slot of a preview is empty, and no adjustment stores into it. -/
def Closed (s : State) (preview : Uuid) : Prop :=
  ∀ {later : List Event} {u : State}, exec step s later = some u →
    (∃ p, u.previews.get? preview = some p ∧ p.model = none) ∧
    ∀ {id : Uuid} {a : Adjust} {v : State}, u.adjusts.get? id = some a → a.preview = preview →
      step u (.commit id) = some v →
        v.previews = u.previews ∧ (v.adjusts.get? id).map Adjust.phase = some (.ended (.error stale))

theorem Emptied.closed {preview : Uuid} (hs : Emptied s preview) : Closed s preview := by
  intro later u hlater
  have hempty := run_emptied hlater hs
  obtain ⟨p, hp, -, -, hmodel⟩ := hempty.slot
  exact ⟨⟨p, hp, hmodel⟩, fun ha hpreview hstep => commit_emptied hempty ha hpreview hstep⟩

end Refusals

/-- A live preview never loses a projection, and a closed one never gains one. -/
theorem previews_safe {es : List Event} (h : exec step start es = some s) :
    (∀ id a next, s.adjusts.get? id = some a → Stored a next →
      ∃ before after u v, es = before ++ .commit id :: after ∧ exec step start before = some u ∧
        step u (.commit id) = some v ∧
        (∃ p, u.previews.get? a.preview = some p ∧ p.model = some a.expectedProjection) ∧
        ∃ p, v.previews.get? a.preview = some p ∧ p.model = some next) ∧
    (∀ id t, step s (.register id) = some t →
      ∃ a, s.adjusts.get? id = some a ∧ t.adjustments.get? a.preview = some id ∧
        ∀ previous, s.adjustments.get? a.preview = some previous →
          ∃ b, t.adjusts.get? previous = some b ∧ b.cancelled = true) ∧
    (∀ id t key other, step s (.finishAdjust id) = some t → other ≠ id →
      s.adjustments.get? key = some other → t.adjustments.get? key = some other) ∧
    (∀ id d, s.deletes.get? id = some d → d.returned = true → Closed s d.preview) ∧
    ∀ id r, s.releases.get? id = some r → r.pending = [] → ∀ preview ∈ r.collected, Closed s preview := by
  have hinvariant := run_invariant h
  refine ⟨fun id a next ha hstored => ?_, fun id t hstep => ?_, fun id t key other hstep hother => ?_,
    fun id d hd hreturned => ?_, fun id r hr hpending preview hmem => ?_⟩
  · obtain ⟨before, after, u, v, hes, hu, hv, -, hmet, hwrote⟩ := run_stored h ha hstored
    exact ⟨before, after, u, v, hes, hu, hv, hmet, hwrote⟩
  · exact register_supersedes (run_registered h) hstep
  · exact finish_keeps hstep hother
  · exact (hinvariant.deleted id d hd hreturned).closed
  · exact (hinvariant.released id r hr preview hmem (by rw [hpending]; exact List.not_mem_nil)).closed

/-- Two adjustments, the later of which stores its projection, and a third that a
deletion overtakes. -/
def overtaken : List Event :=
  [.openPreview 1 7, .fitted 1 true, .publish 1 100, .finish 1,
    .adjust 1 1 7 100, .clone 1, .register 1, .check 1, .adjust 2 1 7 100, .clone 2, .register 2, .check 2,
    .compute 2 (.ok 102), .recheck 2, .commit 2, .finishAdjust 2, .adjust 3 1 7 102, .clone 3, .register 3, .check 3,
    .compute 3 (.ok 103), .recheck 3, .delete 1 1 7, .deleteEmpty 1, .commit 3, .finishAdjust 3]

theorem overtaken_safe : ∃ s, exec step start overtaken = some s ∧ s.adjustments.entries = [] ∧
    (s.adjusts.get? 1).map Adjust.cancelled = some true ∧ s.deletes.get? 1 = some ⟨1, true⟩ ∧
    (∃ before after u v, overtaken = before ++ .commit 2 :: after ∧ exec step start before = some u ∧
      step u (.commit 2) = some v ∧ (∃ p, u.previews.get? 1 = some p ∧ p.model = some 100) ∧
      ∃ p, v.previews.get? 1 = some p ∧ p.model = some 102) ∧
    Closed s 1 := by
  obtain ⟨s, hrun⟩ : ∃ s, exec step start overtaken = some s := Option.isSome_iff_exists.mp (by decide)
  have hseen : (exec step start overtaken).map (fun s => (s.adjustments.entries,
      (s.adjusts.get? 1).map Adjust.cancelled, s.deletes.get? 1)) = some ([], some true, some ⟨1, true⟩) := by decide
  rw [hrun] at hseen
  obtain ⟨hcurrent, hcancelled, hdelete⟩ : _ ∧ _ ∧ _ := by simpa only [Option.map_some, Option.some.injEq, Prod.mk.injEq] using hseen
  obtain ⟨a, ha, hpreview, hexpected, hstored⟩ : ∃ a, s.adjusts.get? 2 = some a ∧ a.preview = 1 ∧
      a.expectedProjection = 100 ∧ a.phase = .returned (.ok 102) := by
    have hsecond : ((exec step start overtaken).bind fun s => s.adjusts.get? 2) =
        some ⟨1, 100, true, .returned (.ok 102)⟩ := by rfl
    rw [hrun] at hsecond
    exact ⟨_, hsecond, rfl, rfl, rfl⟩
  have hsafe := previews_safe hrun
  obtain ⟨before, after, u, v, hes, hu, hv, hmet, hwrote⟩ := hsafe.1 2 a 102 ha (.inr hstored)
  rw [hpreview] at hmet hwrote
  rw [hexpected] at hmet
  exact ⟨s, hrun, hcurrent, hcancelled, hdelete, ⟨before, after, u, v, hes, hu, hv, hmet, hwrote⟩,
    hsafe.2.2.2.1 1 _ hdelete rfl⟩

end Wordflow.TopicPreviews
