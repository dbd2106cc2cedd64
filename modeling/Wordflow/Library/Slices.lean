import Mathlib.Algebra.GroupWithZero.Nat
import Mathlib.Algebra.Order.Group.Nat
import Mathlib.Data.List.Infix

namespace Wordflow.Library

/-- Items that take up room, such as characters in an encoding. -/
class Sized (α : Type) where
  size : α → Nat
  size_pos : ∀ a, 0 < size a

instance : Sized Char := ⟨Char.utf8Size, Char.utf8Size_pos⟩

variable {α : Type} [Sized α]

def extent (xs : List α) : Nat := (xs.map Sized.size).sum

@[simp] theorem extent_nil : extent ([] : List α) = 0 := rfl

@[simp] theorem extent_cons (x : α) (xs : List α) : extent (x :: xs) = Sized.size x + extent xs := rfl

@[simp] theorem extent_append (xs ys : List α) : extent (xs ++ ys) = extent xs + extent ys := by
  simp [extent]

theorem extent_pos {xs : List α} (h : xs ≠ []) : 0 < extent xs := by
  cases xs with
  | nil => exact absurd rfl h
  | cons x xs =>
      have hx := Sized.size_pos x
      rw [extent_cons]
      omega

theorem extent_eq_zero {xs : List α} : extent xs = 0 ↔ xs = [] := by
  constructor
  · intro h
    by_contra hne
    have hpos := extent_pos hne
    omega
  · rintro rfl
    rfl

/-- The items before and after an offset that lies between two items. -/
def splitAt? : List α → Nat → Option (List α × List α)
  | xs, 0 => some ([], xs)
  | [], _ + 1 => none
  | x :: xs, n + 1 =>
      if Sized.size x ≤ n + 1 then (splitAt? xs (n + 1 - Sized.size x)).map fun p => (x :: p.1, p.2) else none

theorem splitAt?_eq_some {xs a b : List α} {n : Nat} :
    splitAt? xs n = some (a, b) ↔ xs = a ++ b ∧ extent a = n := by
  induction xs, n using splitAt?.induct generalizing a b with
  | case1 xs =>
      simp only [splitAt?, Option.some.injEq, Prod.mk.injEq, extent_eq_zero]
      constructor
      · rintro ⟨rfl, rfl⟩
        exact ⟨rfl, rfl⟩
      · rintro ⟨rfl, rfl⟩
        exact ⟨rfl, rfl⟩
  | case2 n =>
      simp only [splitAt?, reduceCtorEq, false_iff]
      rintro ⟨hnil, hsize⟩
      obtain ⟨rfl, rfl⟩ := List.append_eq_nil_iff.mp hnil.symm
      cases hsize
  | case3 x xs n hle ih =>
      simp only [splitAt?, if_pos hle, Option.map_eq_some_iff, Prod.exists, Prod.mk.injEq]
      constructor
      · rintro ⟨a', b', hsplit, rfl, rfl⟩
        obtain ⟨rfl, hsize⟩ := ih.mp hsplit
        refine ⟨rfl, ?_⟩
        rw [extent_cons]
        omega
      · rintro ⟨happ, hsize⟩
        cases a with
        | nil => cases hsize
        | cons y a =>
            obtain ⟨rfl, rfl⟩ := List.cons.inj happ
            rw [extent_cons] at hsize
            exact ⟨a, b, ih.mpr ⟨rfl, by omega⟩, rfl, rfl⟩
  | case4 x xs n hlt =>
      simp only [splitAt?, if_neg hlt, reduceCtorEq, false_iff]
      rintro ⟨happ, hsize⟩
      cases a with
      | nil => cases hsize
      | cons y a =>
          obtain ⟨rfl, rfl⟩ := List.cons.inj happ
          rw [extent_cons] at hsize
          omega

/-- Of two ways to cut a list, the earlier cut comes first. -/
theorem between {a b a' b' : List α} (h : a ++ b = a' ++ b') (hle : extent a ≤ extent a') :
    ∃ m, a' = a ++ m ∧ b = m ++ b' := by
  rcases List.append_eq_append_iff.mp h with ⟨m, rfl, rfl⟩ | ⟨m, rfl, rfl⟩
  · exact ⟨m, rfl, rfl⟩
  · rw [extent_append] at hle
    obtain rfl := extent_eq_zero.mp (show extent m = 0 by omega)
    exact ⟨[], by simp, by simp⟩

theorem cut_unique {a b a' b' : List α} (h : a ++ b = a' ++ b') (heq : extent a = extent a') : a = a' ∧ b = b' := by
  obtain ⟨m, rfl, rfl⟩ := between h heq.le
  rw [extent_append] at heq
  obtain rfl := extent_eq_zero.mp (show extent m = 0 by omega)
  simp

/-- The items between two offsets that lie between items. -/
def slice? (xs : List α) (i j : Nat) : Option (List α) :=
  if i ≤ j then do
    let rest ← splitAt? xs i
    let part ← splitAt? rest.2 (j - i)
    some part.1
  else none

theorem slice?_eq_some {xs v : List α} {i j : Nat} :
    slice? xs i j = some v ↔ ∃ a b, xs = a ++ v ++ b ∧ extent a = i ∧ extent a + extent v = j := by
  simp only [slice?, Option.ite_none_right_eq_some, Option.bind_eq_bind, Option.bind_eq_some_iff, Prod.exists,
    splitAt?_eq_some, Option.some.injEq]
  constructor
  · rintro ⟨hle, a, _, ⟨rfl, rfl⟩, v', b, ⟨rfl, hsize⟩, rfl⟩
    exact ⟨a, b, by simp, rfl, by omega⟩
  · rintro ⟨a, b, rfl, rfl, rfl⟩
    exact ⟨by omega, a, v ++ b, ⟨by simp, rfl⟩, v, b, ⟨rfl, by omega⟩, rfl⟩

theorem slice?_append (a v b : List α) : slice? (a ++ v ++ b) (extent a) (extent a + extent v) = some v :=
  slice?_eq_some.mpr ⟨a, b, rfl, rfl, rfl⟩

section Slice

variable {xs v x y : List α} {i j k : Nat}

theorem slice?_extent (h : slice? xs i j = some v) : j = i + extent v := by
  rw [slice?_eq_some] at h
  obtain ⟨a, b, -, rfl, rfl⟩ := h
  rfl

theorem slice?_all (xs : List α) : slice? xs 0 (extent xs) = some xs := by
  rw [slice?_eq_some]
  exact ⟨[], [], by simp, rfl, by simp⟩

/-- A slice of two parts is a slice and the slice next to it. -/
theorem slice?_split : slice? xs i k = some (x ++ y) ↔
    slice? xs i (i + extent x) = some x ∧ slice? xs (i + extent x) k = some y := by
  simp only [slice?_eq_some]
  constructor
  · rintro ⟨a, b, rfl, rfl, rfl⟩
    exact ⟨⟨a, y ++ b, by simp, rfl, rfl⟩, a ++ x, b, by simp, by simp, by simp; omega⟩
  · rintro ⟨⟨a, b, rfl, rfl, -⟩, a', b', happ, hsize, rfl⟩
    rw [List.append_assoc a' y b'] at happ
    obtain ⟨rfl, rfl⟩ := cut_unique happ (by rw [extent_append]; omega)
    exact ⟨a, b', by simp, rfl, by simp; omega⟩

theorem slice?_join (hx : slice? xs i j = some x) (hy : slice? xs j k = some y) : slice? xs i k = some (x ++ y) := by
  obtain rfl := slice?_extent hx
  exact slice?_split.mpr ⟨hx, hy⟩

/-- A slice of a slice. -/
theorem slice?_slice {p q : Nat} (h : slice? xs i j = some v) (hv : slice? v p q = some x) :
    slice? xs (i + p) (i + q) = some x := by
  rw [slice?_eq_some] at h hv ⊢
  obtain ⟨a, b, rfl, rfl, -⟩ := h
  obtain ⟨a', b', rfl, rfl, rfl⟩ := hv
  exact ⟨a ++ a', b' ++ b, by simp, by simp, by simp; omega⟩

/-- An offset between two items inside a slice cuts the slice. -/
theorem slice?_cut (h : slice? xs i k = some v) (hj : (splitAt? xs j).isSome) (hij : i ≤ j) (hjk : j ≤ k) :
    ∃ x y, v = x ++ y ∧ slice? xs i j = some x ∧ slice? xs j k = some y := by
  simp only [slice?_eq_some] at h ⊢
  obtain ⟨a, b, rfl, rfl, rfl⟩ := h
  obtain ⟨⟨c, d⟩, hsplit⟩ := Option.isSome_iff_exists.mp hj
  rw [splitAt?_eq_some] at hsplit
  obtain ⟨happ, rfl⟩ := hsplit
  rw [List.append_assoc] at happ
  obtain ⟨x, rfl, hx⟩ := between happ hij
  rw [extent_append] at hjk
  obtain ⟨y, rfl, rfl⟩ := between hx.symm (by omega)
  refine ⟨x, y, rfl, ⟨a, y ++ b, by simp, rfl, by simp⟩, ?_⟩
  exact ⟨a ++ x, b, by simp, by simp, by simp; omega⟩

theorem splitAt?_of_slice (h : slice? xs i j = some v) : (splitAt? xs i).isSome ∧ (splitAt? xs j).isSome := by
  rw [slice?_eq_some] at h
  obtain ⟨a, b, rfl, rfl, rfl⟩ := h
  exact ⟨Option.isSome_iff_exists.mpr ⟨_, splitAt?_eq_some.mpr ⟨by rw [List.append_assoc], rfl⟩⟩,
    Option.isSome_iff_exists.mpr ⟨_, splitAt?_eq_some.mpr ⟨rfl, by simp⟩⟩⟩

theorem slice?_of_lt (h : j < i) : slice? xs i j = none := if_neg (by omega)

end Slice

end Wordflow.Library
