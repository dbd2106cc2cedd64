import Mathlib.Data.List.Basic

namespace Wordflow.Library.Run

variable {σ ε : Type*}

/-- Feed a list of events to a partial step function. An event that is not
possible in the state it meets ends the run with `none`. -/
def exec (step : σ → ε → Option σ) : σ → List ε → Option σ
  | s, [] => some s
  | s, e :: es => (step s e).bind fun t => exec step t es

variable {step : σ → ε → Option σ}

@[simp]
theorem exec_nil (s : σ) : exec step s [] = some s := rfl

theorem exec_cons {s t : σ} {e : ε} {es : List ε} :
    exec step s (e :: es) = some t ↔ ∃ u, step s e = some u ∧ exec step u es = some t := by
  simp [exec, Option.bind_eq_some_iff]

theorem exec_append {s t : σ} {es fs : List ε} :
    exec step s (es ++ fs) = some t ↔ ∃ u, exec step s es = some u ∧ exec step u fs = some t := by
  induction es generalizing s with
  | nil => simp
  | cons e es ih =>
      simp only [List.cons_append, exec_cons, ih]
      constructor
      · rintro ⟨u, hu, v, hv, ht⟩
        exact ⟨v, ⟨u, hu, hv⟩, ht⟩
      · rintro ⟨v, ⟨u, hu, hv⟩, ht⟩
        exact ⟨u, hu, v, hv, ht⟩

theorem exec_concat {s t : σ} {e : ε} {es : List ε} :
    exec step s (es ++ [e]) = some t ↔ ∃ u, exec step s es = some u ∧ step u e = some t := by
  simp [exec_append, exec_cons]

/-- A state predicate kept by every step whose event satisfies `G` is kept by
every run all of whose events satisfy `G`. -/
theorem exec_preserves {I : σ → Prop} {G : ε → Prop}
    (hstep : ∀ {s t e}, I s → G e → step s e = some t → I t)
    {s t : σ} {es : List ε} (hs : I s) (hG : ∀ e ∈ es, G e) (h : exec step s es = some t) : I t := by
  induction es generalizing s with
  | nil => simpa using (Option.some.inj h) ▸ hs
  | cons e es ih =>
      obtain ⟨u, hu, ht⟩ := exec_cons.mp h
      have hG' := List.forall_mem_cons.mp hG
      exact ih (hstep hs hG'.1 hu) hG'.2 ht

/-- An inductive invariant holds in every state a run reaches. -/
theorem exec_invariant {I : σ → Prop} (hstep : ∀ {s t e}, I s → step s e = some t → I t)
    {s t : σ} {es : List ε} (hs : I s) (h : exec step s es = some t) : I t :=
  exec_preserves (G := fun _ => True) (fun hs _ => hstep hs) hs (fun _ _ => trivial) h

/-- Every event of a run meets `P` in the state it is fed to. -/
def Along (step : σ → ε → Option σ) (P : σ → ε → Prop) : σ → List ε → Prop
  | _, [] => True
  | s, e :: es => P s e ∧ ∀ t, step s e = some t → Along step P t es

def check (step : σ → ε → Option σ) (p : σ → ε → Bool) : σ → List ε → Bool
  | _, [] => true
  | s, e :: es => p s e && (step s e).all fun t => check step p t es

theorem along_of_check {P : σ → ε → Prop} {p : σ → ε → Bool} (hp : ∀ s e, p s e = true → P s e) {s : σ} {es : List ε}
    (h : check step p s es = true) : Along step P s es := by
  induction es generalizing s with
  | nil => trivial
  | cons e es ih =>
      simp only [check, Bool.and_eq_true, Option.all_eq_true] at h
      exact ⟨hp s e h.1, fun t ht => ih (h.2 t ht)⟩

/-- An invariant that a step keeps where its event meets `P` holds after a run
all along which `P` is met. -/
theorem exec_invariant_along {I : σ → Prop} {P : σ → ε → Prop}
    (hstep : ∀ {s t e}, I s → P s e → step s e = some t → I t) {s t : σ} {es : List ε} (hs : I s)
    (h : exec step s es = some t) (hP : Along step P s es) : I t := by
  induction es generalizing s with
  | nil => simpa using (Option.some.inj h) ▸ hs
  | cons e es ih =>
      obtain ⟨u, hu, ht⟩ := exec_cons.mp h
      exact ih (hstep hs hP.1 hu) ht (hP.2 u hu)

theorem Along.and {P Q : σ → ε → Prop} {s : σ} {es : List ε} (hP : Along step P s es) (hQ : Along step Q s es) :
    Along step (fun s e => P s e ∧ Q s e) s es := by
  induction es generalizing s with
  | nil => trivial
  | cons e es ih => exact ⟨⟨hP.1, hQ.1⟩, fun t ht => ih (hP.2 t ht) (hQ.2 t ht)⟩

/-- What every step from an invariant state meets is met all along a run. -/
theorem Along.of_invariant {I : σ → Prop} {P Q : σ → ε → Prop}
    (hstep : ∀ {s t e}, I s → P s e → step s e = some t → I t) (hQ : ∀ {s e}, I s → P s e → Q s e)
    {s : σ} {es : List ε} (hs : I s) (hP : Along step P s es) : Along step Q s es := by
  induction es generalizing s with
  | nil => trivial
  | cons e es ih => exact ⟨hQ hs hP.1, fun t ht => ih (hstep hs hP.1 ht) (hP.2 t ht)⟩

theorem Along.at_last {P : σ → ε → Prop} {s t : σ} {e : ε} {es : List ε} (hP : Along step P s (es ++ [e]))
    (h : exec step s es = some t) : P t e := by
  induction es generalizing s with
  | nil =>
      obtain rfl := Option.some.inj h
      exact hP.1
  | cons f es ih =>
      obtain ⟨u, hu, ht⟩ := exec_cons.mp h
      exact ih (hP.2 u hu) ht

/-- A relation between the events so far and the state they lead to, kept by
every step that meets `P`, holds after every run all along which `P` is met. -/
theorem exec_history {H : List ε → σ → Prop} {P : σ → ε → Prop}
    (hstep : ∀ {before s t e}, H before s → P s e → step s e = some t → H (before ++ [e]) t)
    {before : List ε} {s t : σ} {es : List ε} (hs : H before s) (h : exec step s es = some t)
    (hP : Along step P s es) : H (before ++ es) t := by
  induction es generalizing before s with
  | nil =>
      obtain rfl := Option.some.inj h
      simpa using hs
  | cons e es ih =>
      obtain ⟨u, hu, ht⟩ := exec_cons.mp h
      rw [List.append_cons]
      exact ih (hstep hs hP.1 hu) ht (hP.2 u hu)

/-- A reflexive and transitive relation that holds across each step from an
invariant state holds across whole runs. -/
theorem exec_relates {I : σ → Prop} {R : σ → σ → Prop} (hrefl : ∀ s, R s s)
    (htrans : ∀ {s t u}, R s t → R t u → R s u) (hI : ∀ {s t e}, I s → step s e = some t → I t)
    (hR : ∀ {s t e}, I s → step s e = some t → R s t)
    {s t : σ} {es : List ε} (hs : I s) (h : exec step s es = some t) : R s t := by
  induction es generalizing s with
  | nil => exact (Option.some.inj h) ▸ hrefl s
  | cons e es ih =>
      obtain ⟨u, hu, ht⟩ := exec_cons.mp h
      exact htrans (hR hs hu) (ih (hI hs hu) ht)

/-- Where an entry of a log lies once one more entry is written. -/
theorem concat_eq_append_cons {log before after : List ε} {e f : ε} (h : log ++ [f] = before ++ e :: after) :
    (before = log ∧ e = f ∧ after = []) ∨ ∃ rest, after = rest ++ [f] ∧ log = before ++ e :: rest := by
  rcases List.eq_nil_or_concat' after with rfl | ⟨rest, last, rfl⟩
  · obtain ⟨rfl, hlast⟩ := List.append_inj' h rfl
    exact .inl ⟨rfl, (List.singleton_inj.mp hlast).symm, rfl⟩
  · rw [← List.cons_append, ← List.append_assoc] at h
    obtain ⟨rfl, hlast⟩ := List.append_inj' h rfl
    exact .inr ⟨rest, by rw [List.singleton_inj.mp hlast], rfl⟩

end Wordflow.Library.Run
