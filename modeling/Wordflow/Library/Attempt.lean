import Mathlib.Init

namespace Wordflow.Library

/-- A computation that can fail, also after it has changed the state. -/
abbrev Attempt (ε σ : Type) := ExceptT ε (StateM σ)

namespace Attempt

variable {ε σ α β : Type}

def runOn (x : Attempt ε σ α) (s : σ) : Except ε α × σ := x.run.run s

/-- Fail unless a condition holds. -/
def require (c : Prop) [Decidable c] (e : ε) : Attempt ε σ Unit := if c then pure () else throw e

/-- Run a computation only where a condition holds. -/
def whenever (c : Prop) [Decidable c] (x : Attempt ε σ Unit) : Attempt ε σ Unit := if c then x else pure ()

/-- The outcome of a computation, as a value. -/
def result (x : Attempt ε σ α) : Attempt ε σ (Except ε α) := tryCatch (Except.ok <$> x) fun e => pure (.error e)

variable {x : Attempt ε σ α} {f : α → Attempt ε σ β} {s t : σ} {r : Except ε β}

@[simp]
theorem runOn_pure (a : α) (s : σ) : runOn (pure a : Attempt ε σ α) s = (.ok a, s) := rfl

@[simp]
theorem runOn_throw (e : ε) (s : σ) : runOn (throw e : Attempt ε σ α) s = (.error e, s) := rfl

@[simp]
theorem runOn_get (s : σ) : runOn (get : Attempt ε σ σ) s = (.ok s, s) := rfl

@[simp]
theorem runOn_modify (change : σ → σ) (s : σ) : runOn (modify change : Attempt ε σ Unit) s = (.ok (), change s) := rfl

theorem runOn_bind (x : Attempt ε σ α) (f : α → Attempt ε σ β) (s : σ) : runOn (x >>= f) s =
    match runOn x s with
    | (.ok a, t) => runOn (f a) t
    | (.error e, t) => (.error e, t) := by
  have hbind : runOn (x >>= f) s = ((ExceptT.bindCont f (runOn x s).1).run (runOn x s).2 : Except ε β × σ) := rfl
  rw [hbind]
  obtain ⟨_ | a, t⟩ := runOn x s
  · rfl
  · rfl

theorem runOn_tryCatch (x : Attempt ε σ α) (f : ε → Attempt ε σ α) (s : σ) : runOn (tryCatch x f) s =
    match runOn x s with
    | (.ok a, t) => (.ok a, t)
    | (.error e, t) => runOn (f e) t := by
  have hcatch : runOn (tryCatch x f) s = ((match (runOn x s).1 with
      | .ok a => pure (.ok a)
      | .error e => (f e).run : StateM σ (Except ε α)).run (runOn x s).2 : Except ε α × σ) := rfl
  rw [hcatch]
  obtain ⟨_ | a, t⟩ := runOn x s
  · rfl
  · rfl

/-- A sequence stops where its first part fails, or goes on where that ends. -/
theorem bind_cases (h : runOn (x >>= f) s = (r, t)) : (∃ e, runOn x s = (.error e, t) ∧ r = .error e) ∨
    ∃ a s', runOn x s = (.ok a, s') ∧ runOn (f a) s' = (r, t) := by
  rw [runOn_bind] at h
  rcases hx : runOn x s with ⟨e | a, s'⟩
  · rw [hx] at h
    obtain ⟨rfl, rfl⟩ := Prod.mk.inj h
    exact .inl ⟨e, rfl, rfl⟩
  · rw [hx] at h
    exact .inr ⟨a, s', rfl, h⟩

theorem catch_cases {x : Attempt ε σ β} {f : ε → Attempt ε σ β} (h : runOn (tryCatch x f) s = (r, t)) :
    (∃ a, runOn x s = (.ok a, t) ∧ r = .ok a) ∨ ∃ e s', runOn x s = (.error e, s') ∧ runOn (f e) s' = (r, t) := by
  rw [runOn_tryCatch] at h
  rcases hx : runOn x s with ⟨e | a, s'⟩
  · rw [hx] at h
    exact .inr ⟨e, s', rfl, h⟩
  · rw [hx] at h
    obtain ⟨rfl, rfl⟩ := Prod.mk.inj h
    exact .inl ⟨a, rfl, rfl⟩

/-- The computation leaves the state as it is where it fails. -/
def Atomic (x : Attempt ε σ α) (s : σ) : Prop := ∀ e t, runOn x s = (.error e, t) → t = s

/-- The computation leaves the state as it is. -/
def Quiet (x : Attempt ε σ α) (s : σ) : Prop := ∀ r t, runOn x s = (r, t) → t = s

theorem Quiet.atomic (h : Quiet x s) : Atomic x s := fun _ _ hrun => h _ _ hrun

theorem Atomic.bind_cases (hx : Atomic x s) (h : runOn (x >>= f) s = (r, t)) :
    (∃ e, r = .error e ∧ t = s) ∨ ∃ a s', runOn x s = (.ok a, s') ∧ runOn (f a) s' = (r, t) := by
  rcases Attempt.bind_cases h with ⟨e, hrun, rfl⟩ | hrest
  · exact .inl ⟨e, rfl, hx _ _ hrun⟩
  · exact .inr hrest

theorem Quiet.bind_cases (hx : Quiet x s) (h : runOn (x >>= f) s = (r, t)) :
    (∃ e, r = .error e ∧ t = s) ∨ ∃ a, runOn x s = (.ok a, s) ∧ runOn (f a) s = (r, t) := by
  rcases hx.atomic.bind_cases h with herror | ⟨a, s', hrun, hrest⟩
  · exact .inl herror
  · obtain rfl := hx _ _ hrun
    exact .inr ⟨a, hrun, hrest⟩

theorem require_quiet (c : Prop) [Decidable c] (e : ε) (s : σ) : Quiet (require c e) s := by
  intro r t h
  rw [require] at h
  split at h
  · exact (Prod.mk.inj h).2.symm
  · exact (Prod.mk.inj h).2.symm

theorem require_ok {c : Prop} [Decidable c] {e : ε} {a : Unit} (h : runOn (require c e) s = (.ok a, t)) : c := by
  by_cases hc : c
  · exact hc
  · rw [require, if_neg hc] at h
    exact nomatch (Prod.mk.inj h).1

theorem whenever_atomic {c : Prop} [Decidable c] {x : Attempt ε σ Unit} (hx : Atomic x s) : Atomic (whenever c x) s := by
  intro e t h
  rw [whenever] at h
  split at h
  · exact hx e t h
  · exact (Prod.mk.inj h).2.symm

end Attempt

end Wordflow.Library
