import Mathlib.Data.List.Basic

namespace Wordflow.Library.Cut

variable {σ ε : Type*}

/-- Take the steps of a list until the state is small enough. -/
def cut (step : σ → ε → σ) (size : σ → Nat) (k : Nat) : σ → List ε → σ
  | s, [] => s
  | s, e :: es => if size s ≤ k then s else cut step size k (step s e) es

/-- Steps that shrink a state by one, or keep its size. `Good` is what a state
and the steps ahead of it meet. -/
structure Shrinking (step : σ → ε → σ) (size : σ → Nat) (Good : σ → List ε → Prop) : Prop where
  good : ∀ {s e es}, Good s (e :: es) → Good (step s e) es
  le : ∀ {s e es}, Good s (e :: es) → size (step s e) ≤ size s
  ge : ∀ {s e es}, Good s (e :: es) → size s ≤ size (step s e) + 1

variable {step : σ → ε → σ} {size : σ → Nat} {Good : σ → List ε → Prop} {s : σ} {es : List ε} {k : Nat}

theorem cut_of_le (h : size s ≤ k) : cut step size k s es = s := by
  cases es with
  | nil => rfl
  | cons e es => exact if_pos h

theorem cut_of_lt {e : ε} (h : k < size s) : cut step size k s (e :: es) = cut step size k (step s e) es :=
  if_neg (Nat.not_le.mpr h)

/-- A cut is a state after some of the steps. -/
theorem cut_good (hstep : Shrinking step size Good) (hs : Good s es) : ∃ rest, Good (cut step size k s es) rest := by
  induction es generalizing s with
  | nil => exact ⟨[], hs⟩
  | cons e es ih =>
      rcases Nat.lt_or_ge k (size s) with h | h
      · rw [cut_of_lt h]
        exact ih (hstep.good hs)
      · rw [cut_of_le h]
        exact ⟨e :: es, hs⟩

theorem le_size_cut (hstep : Shrinking step size Good) (hs : Good s es) (hk : k ≤ size s) :
    k ≤ size (cut step size k s es) := by
  induction es generalizing s with
  | nil => exact hk
  | cons e es ih =>
      rcases Nat.lt_or_ge k (size s) with h | h
      · rw [cut_of_lt h]
        exact ih (hstep.good hs) (Nat.le_of_lt_succ (Nat.lt_of_lt_of_le h (hstep.ge hs)))
      · rwa [cut_of_le h]

theorem size_cut_le (hstep : Shrinking step size Good) (hs : Good s es) : size (cut step size k s es) ≤ size s := by
  induction es generalizing s with
  | nil => exact Nat.le_refl _
  | cons e es ih =>
      rcases Nat.lt_or_ge k (size s) with h | h
      · rw [cut_of_lt h]
        exact Nat.le_trans (ih (hstep.good hs)) (hstep.le hs)
      · exact Nat.le_of_eq (congrArg size (cut_of_le h))

/-- Enough steps that all shrink the state reach the size asked for. -/
theorem size_cut_eq (hstep : Shrinking step size Good)
    (hstrict : ∀ {s e es}, Good s (e :: es) → size (step s e) < size s) (hs : Good s es) (hk : k ≤ size s)
    (henough : size s ≤ k + es.length) : size (cut step size k s es) = k := by
  induction es generalizing s with
  | nil => exact Nat.le_antisymm henough hk
  | cons e es ih =>
      rcases Nat.lt_or_ge k (size s) with h | h
      · rw [cut_of_lt h]
        have hge := hstep.ge hs
        have hlt := hstrict hs
        rw [List.length_cons] at henough
        exact ih (hstep.good hs) (by omega) (by omega)
      · rw [cut_of_le h]
        exact Nat.le_antisymm h hk

variable {R : σ → σ → Prop}

theorem cut_relates (hstep : Shrinking step size Good) (hrefl : ∀ s, R s s) (htrans : ∀ {s t u}, R s t → R t u → R s u)
    (hR : ∀ {s e es}, Good s (e :: es) → R s (step s e)) (hs : Good s es) : R s (cut step size k s es) := by
  induction es generalizing s with
  | nil => exact hrefl s
  | cons e es ih =>
      rcases Nat.lt_or_ge k (size s) with h | h
      · rw [cut_of_lt h]
        exact htrans (hR hs) (ih (hstep.good hs))
      · rw [cut_of_le h]
        exact hrefl s

/-- A cut at a smaller size comes after the cut at a larger one. -/
theorem cut_later (hstep : Shrinking step size Good) (hrefl : ∀ s, R s s) (htrans : ∀ {s t u}, R s t → R t u → R s u)
    (hR : ∀ {s e es}, Good s (e :: es) → R s (step s e)) (hs : Good s es) {l : Nat} (hkl : k ≤ l) :
    R (cut step size l s es) (cut step size k s es) := by
  induction es generalizing s with
  | nil => exact hrefl s
  | cons e es ih =>
      rcases Nat.lt_or_ge l (size s) with h | h
      · rw [cut_of_lt h, cut_of_lt (Nat.lt_of_le_of_lt hkl h)]
        exact ih (hstep.good hs)
      · rw [cut_of_le h]
        exact cut_relates hstep hrefl htrans hR hs

/-- Steps that keep the size keep what `R` compares. -/
theorem cut_same_size (hstep : Shrinking step size Good) (hrefl : ∀ s, R s s)
    (htrans : ∀ {s t u}, R s t → R t u → R s u)
    (hR : ∀ {s e es}, Good s (e :: es) → size (step s e) = size s → R s (step s e)) (hs : Good s es)
    (hsize : size (cut step size k s es) = size s) : R s (cut step size k s es) := by
  induction es generalizing s with
  | nil => exact hrefl s
  | cons e es ih =>
      rcases Nat.lt_or_ge k (size s) with h | h
      · rw [cut_of_lt h] at hsize ⊢
        have hle := hstep.le hs
        have hcut : size (cut step size k (step s e) es) ≤ size (step s e) := size_cut_le hstep (hstep.good hs)
        have hsame : size (step s e) = size s := Nat.le_antisymm hle (hsize ▸ hcut)
        exact htrans (hR hs hsame) (ih (hstep.good hs) (hsize.trans hsame.symm))
      · rw [cut_of_le h]
        exact hrefl s

/-- A cut at the size that a cut achieved is that cut again. -/
theorem cut_again (hstep : Shrinking step size Good) (hrefl : ∀ s, R s s) (htrans : ∀ {s t u}, R s t → R t u → R s u)
    (hR : ∀ {s e es}, Good s (e :: es) → size (step s e) = size s → R s (step s e)) (hs : Good s es) {l : Nat}
    (hl : l = size (cut step size k s es)) : R (cut step size l s es) (cut step size k s es) := by
  induction es generalizing s with
  | nil => exact hrefl s
  | cons e es ih =>
      rcases Nat.lt_or_ge k (size s) with h | h
      · rcases Nat.lt_or_ge l (size s) with h' | h'
        · rw [cut_of_lt h, cut_of_lt h']
          rw [cut_of_lt h] at hl
          exact ih (hstep.good hs) hl
        · rw [cut_of_le h']
          have hle : size (cut step size k s (e :: es)) ≤ size s := size_cut_le hstep hs
          exact cut_same_size hstep hrefl htrans hR hs (Nat.le_antisymm hle (hl ▸ h'))
      · rw [cut_of_le h] at hl ⊢
        rw [cut_of_le (Nat.le_of_eq hl.symm)]
        exact hrefl s

end Wordflow.Library.Cut
