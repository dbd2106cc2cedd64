import Mathlib.Data.List.Forall2

namespace Wordflow.Library.Fallible

universe u v w

variable {ε : Type u} {α β : Type v} {σ : Type v} {ι : Type w}

theorem bind_eq_ok {x : Except ε α} {f : α → Except ε β} {b : β} :
    x >>= f = .ok b ↔ ∃ a, x = .ok a ∧ f a = .ok b := by
  cases x with
  | error e => simp [bind, Except.bind]
  | ok a => simp [bind, Except.bind]

theorem map_eq_ok {x : Except ε α} {f : α → β} {b : β} :
    x.map f = .ok b ↔ ∃ a, x = .ok a ∧ f a = b := by
  cases x with
  | error e => simp [Except.map]
  | ok a => simp [Except.map]

theorem toOption_eq_some {x : Except ε α} {a : α} : x.toOption = some a ↔ x = .ok a := by
  cases x <;> simp [Except.toOption]

theorem guard_eq_ok {c : Prop} [Decidable c] {e : ε} {x : Except ε α} {a : α} :
    (if c then .error e else x) = .ok a ↔ ¬c ∧ x = .ok a := by
  by_cases h : c <;> simp [h]

theorem mapM_eq_ok {f : ι → Except ε β} {items : List ι} {out : List β} :
    items.mapM f = .ok out ↔ List.Forall₂ (fun a b => f a = .ok b) items out := by
  induction items generalizing out with
  | nil =>
      cases out with
      | nil => simp [pure, Except.pure]
      | cons b out => simp [pure, Except.pure]
  | cons a items ih =>
      rw [List.mapM_cons, bind_eq_ok]
      constructor
      · rintro ⟨b, hb, h⟩
        obtain ⟨bs, hbs, h⟩ := bind_eq_ok.mp h
        cases h
        exact .cons hb (ih.mp hbs)
      · intro h
        cases h with
        | cons hb hbs => exact ⟨_, hb, bind_eq_ok.mpr ⟨_, ih.mpr hbs, rfl⟩⟩

theorem mapM_guard_eq_ok {p : ι → Prop} [DecidablePred p] {e : ε} {g : ι → β} {items : List ι} {out : List β} :
    (items.mapM fun a => if p a then .error e else .ok (g a) : Except ε (List β)) = .ok out ↔
      (∀ a ∈ items, ¬p a) ∧ out = items.map g := by
  induction items generalizing out with
  | nil => simp [pure, Except.pure, eq_comm]
  | cons a items ih =>
      rw [List.mapM_cons, bind_eq_ok, List.forall_mem_cons]
      constructor
      · rintro ⟨b, hb, h⟩
        obtain ⟨bs, hbs, h⟩ := bind_eq_ok.mp h
        obtain ⟨ha, hb⟩ := guard_eq_ok.mp hb
        obtain ⟨hall, rfl⟩ := ih.mp hbs
        cases hb
        cases h
        exact ⟨⟨ha, hall⟩, rfl⟩
      · rintro ⟨⟨ha, hall⟩, rfl⟩
        exact ⟨_, guard_eq_ok.mpr ⟨ha, rfl⟩, bind_eq_ok.mpr ⟨_, ih.mpr ⟨hall, rfl⟩, rfl⟩⟩

theorem mapM_eq_some {f : ι → Option β} {items : List ι} {out : List β} :
    items.mapM f = some out ↔ List.Forall₂ (fun a b => f a = some b) items out := by
  induction items generalizing out with
  | nil => cases out <;> simp
  | cons a items ih =>
      rw [List.mapM_cons]
      cases ha : f a with
      | none => cases out <;> simp [ha]
      | some b =>
          cases hrest : items.mapM f with
          | none => cases out <;> simp [ha, ← ih, hrest]
          | some bs => cases out <;> simp [ha, ← ih, hrest]

theorem forall₂_mem_right {R : ι → β → Prop} {items : List ι} {out : List β} (h : List.Forall₂ R items out) {b : β}
    (hb : b ∈ out) : ∃ a ∈ items, R a b := by
  induction h with
  | nil => cases hb
  | cons hhead _ ih =>
      rcases List.mem_cons.mp hb with rfl | hb
      · exact ⟨_, List.mem_cons_self, hhead⟩
      · obtain ⟨a, ha, hab⟩ := ih hb
        exact ⟨a, List.mem_cons_of_mem _ ha, hab⟩

theorem forall₂_mem_left {R : ι → β → Prop} {items : List ι} {out : List β} (h : List.Forall₂ R items out) {a : ι}
    (ha : a ∈ items) : ∃ b ∈ out, R a b :=
  forall₂_mem_right (R := fun b a => R a b) h.flip ha

theorem mem_of_mapM {f : ι → Option β} {items : List ι} {out : List β} (h : items.mapM f = some out) {b : β}
    (hb : b ∈ out) : ∃ a ∈ items, f a = some b := forall₂_mem_right (mapM_eq_some.mp h) hb

theorem mapM_mem {f : ι → Option β} {items : List ι} {out : List β} (h : items.mapM f = some out) {a : ι}
    (ha : a ∈ items) : ∃ b ∈ out, f a = some b := forall₂_mem_left (mapM_eq_some.mp h) ha

theorem forall₂_map_eq {γ : Type*} {R : ι → β → Prop} {g : β → γ} {k : ι → γ} {items : List ι} {out : List β}
    (h : List.Forall₂ R items out) (hR : ∀ a b, R a b → g b = k a) : out.map g = items.map k := by
  induction h with
  | nil => rfl
  | cons hhead _ ih => rw [List.map_cons, List.map_cons, hR _ _ hhead, ih]

theorem mapM_map_eq {γ : Type*} {f : ι → Option β} {g : β → γ} {k : ι → γ} {items : List ι} {out : List β}
    (h : items.mapM f = some out) (hf : ∀ a b, f a = some b → g b = k a) : out.map g = items.map k :=
  forall₂_map_eq (mapM_eq_some.mp h) hf

theorem mapM_exists {f : ι → Option β} {items : List ι} (h : ∀ a ∈ items, ∃ b, f a = some b) :
    ∃ out, items.mapM f = some out := by
  induction items with
  | nil => exact ⟨[], rfl⟩
  | cons a items ih =>
      obtain ⟨⟨b, hb⟩, hrest⟩ := List.forall_mem_cons.mp h
      obtain ⟨bs, hbs⟩ := ih hrest
      exact ⟨b :: bs, by rw [mapM_eq_some] at hbs ⊢; exact .cons hb hbs⟩

theorem mapM_ok {f : ι → Except ε β} {g : ι → β} {items : List ι} (h : ∀ a ∈ items, f a = .ok (g a)) :
    items.mapM f = .ok (items.map g) := by
  apply mapM_eq_ok.mpr
  induction items with
  | nil => exact .nil
  | cons a items ih => exact .cons (h a List.mem_cons_self) (ih fun b hb => h b (List.mem_cons_of_mem _ hb))

theorem mapM_congr {m : Type v → Type u} [Monad m] [LawfulMonad m] {f g : ι → m β} {items : List ι}
    (h : ∀ a ∈ items, f a = g a) : items.mapM f = items.mapM g := by
  induction items with
  | nil => rfl
  | cons a items ih =>
      rw [List.mapM_cons, List.mapM_cons, h a List.mem_cons_self, ih fun b hb => h b (List.mem_cons_of_mem _ hb)]

theorem mapM_bind_mapM {γ : Type v} {f : ι → Option β} {g : β → Option γ} {items : List ι} :
    (items.mapM f).bind (List.mapM g) = items.mapM fun a => (f a).bind g := by
  induction items with
  | nil => rfl
  | cons a items ih =>
      rw [List.mapM_cons, List.mapM_cons, ← ih]
      cases f a with
      | none => rfl
      | some b =>
          cases items.mapM f with
          | none => cases hb : g b <;> simp [hb]
          | some bs => simp

theorem forM_eq_ok {f : ι → Except ε Unit} {items : List ι} :
    items.forM f = .ok () ↔ ∀ a ∈ items, f a = .ok () := by
  induction items with
  | nil => simp [pure, Except.pure]
  | cons a items ih =>
      rw [List.forall_mem_cons, ← ih]
      change (f a >>= fun _ => items.forM f) = .ok () ↔ _
      cases f a <;> simp [bind, Except.bind]

/-- A relation between the input read so far and the state that every step
extends holds of the whole fold. -/
theorem foldlM_relates {f : σ → ι → Except ε σ} (P : List ι → σ → Prop) {items : List ι} {s t : σ}
    (h : items.foldlM f s = .ok t) (h0 : P [] s)
    (hstep : ∀ {before a s t}, a ∈ items → P before s → f s a = .ok t → P (before ++ [a]) t) : P items t := by
  suffices ∀ before, P before s → P (before ++ items) t from by simpa using this [] h0
  clear h0
  induction items generalizing s with
  | nil =>
      intro before hP
      cases h
      simpa using hP
  | cons a items ih =>
      intro before hP
      rw [List.foldlM_cons] at h
      obtain ⟨u, hu, hrest⟩ := bind_eq_ok.mp h
      have hnext := ih hrest (fun ha => hstep (List.mem_cons_of_mem _ ha)) (before ++ [a])
        (hstep List.mem_cons_self hP hu)
      simpa using hnext

theorem foldlM_flatMap {m : Type v → Type u} [Monad m] [LawfulMonad m] {κ : Type*} {f : σ → κ → m σ} {g : ι → List κ}
    {items : List ι} {s : σ} : (items.flatMap g).foldlM f s = items.foldlM (fun s a => (g a).foldlM f s) s := by
  induction items generalizing s with
  | nil => rfl
  | cons a items ih =>
      rw [List.flatMap_cons, List.foldlM_append, List.foldlM_cons]
      exact bind_congr fun _ => ih

/-- A property every step keeps is kept by the fold. -/
theorem foldlM_preserves {f : σ → ι → Except ε σ} (P : σ → Prop) {items : List ι} {s t : σ}
    (h : items.foldlM f s = .ok t) (h0 : P s) (hstep : ∀ {a s t}, a ∈ items → P s → f s a = .ok t → P t) : P t :=
  foldlM_relates (fun _ => P) h h0 hstep

end Wordflow.Library.Fallible
