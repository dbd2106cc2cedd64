import Mathlib.Data.List.Sort
import Mathlib.Data.List.TakeWhile

namespace Wordflow.Library

variable {α : Type} {p : α → Bool} {xs : List α}

/-- A condition that holds of a prefix of a list. -/
theorem takeWhile_eq_filter (h : xs.Pairwise fun a b => p b = true → p a = true) : xs.takeWhile p = xs.filter p := by
  induction xs with
  | nil => rfl
  | cons x xs ih =>
      obtain ⟨hhead, htail⟩ := List.pairwise_cons.mp h
      cases hx : p x with
      | true => rw [List.takeWhile_cons_of_pos hx, List.filter_cons_of_pos hx, ih htail]
      | false =>
          have hneg : ¬p x = true := by simp [hx]
          rw [List.takeWhile_cons_of_neg hneg, List.filter_cons_of_neg hneg, eq_comm, List.filter_eq_nil_iff]
          exact fun y hy hpy => hneg (hhead y hy hpy)

theorem dropWhile_eq_filter (h : xs.Pairwise fun a b => p b = true → p a = true) :
    xs.dropWhile p = xs.filter fun x => !p x := by
  induction xs with
  | nil => rfl
  | cons x xs ih =>
      obtain ⟨hhead, htail⟩ := List.pairwise_cons.mp h
      cases hx : p x with
      | true => rw [List.dropWhile_cons_of_pos hx, List.filter_cons_of_neg (by simp [hx]), ih htail]
      | false =>
          have hneg : ¬p x = true := by simp [hx]
          have hall : ∀ y ∈ xs, (!p y) = true := fun y hy => by
            cases hy' : p y with
            | false => rfl
            | true => exact absurd (hhead y hy hy') hneg
          rw [List.dropWhile_cons_of_neg hneg, List.filter_cons_of_pos (by simp [hx]), List.filter_eq_self.mpr hall]

theorem drop_takeWhile (p q : α → Bool) (xs : List α) :
    (xs.takeWhile q).drop (xs.takeWhile p).length = (xs.takeWhile q).dropWhile p := by
  induction xs with
  | nil => rfl
  | cons x xs ih =>
      cases hq : q x with
      | false => simp [List.takeWhile_cons, hq]
      | true =>
          cases hp : p x with
          | false => simp [hq, hp]
          | true => simp [hq, hp, ih]

theorem length_takeWhile_le_iff (h : xs.Pairwise fun a b => p b = true → p a = true) {n : Nat} (hn : n < xs.length) :
    (xs.takeWhile p).length ≤ n ↔ p xs[n] = false := by
  induction xs generalizing n with
  | nil => cases hn
  | cons x xs ih =>
      obtain ⟨hhead, htail⟩ := List.pairwise_cons.mp h
      cases hx : p x with
      | false =>
          have hneg : ¬p x = true := by simp [hx]
          rw [List.takeWhile_cons_of_neg hneg]
          simp only [List.length_nil, Nat.zero_le, true_iff]
          cases n with
          | zero => exact hx
          | succ n =>
              have hn' := Nat.lt_of_succ_lt_succ hn
              have hmem : xs[n] ∈ xs := List.getElem_mem hn'
              exact Bool.eq_false_iff.mpr fun hp => hneg (hhead _ hmem hp)
      | true =>
          rw [List.takeWhile_cons_of_pos hx, List.length_cons]
          cases n with
          | zero => simp [hx]
          | succ n => simpa using ih htail (Nat.lt_of_succ_lt_succ hn)

/-- Going on from inside the prefix finds the end of the prefix. -/
theorem length_takeWhile_drop {k : Nat} (h : k ≤ (xs.takeWhile p).length) :
    k + ((xs.drop k).takeWhile p).length = (xs.takeWhile p).length := by
  induction xs generalizing k with
  | nil =>
      obtain rfl := Nat.le_zero.mp h
      rfl
  | cons x xs ih =>
      cases k with
      | zero => simp
      | succ k =>
          cases hx : p x with
          | false => simp [hx] at h
          | true =>
              rw [List.takeWhile_cons_of_pos hx, List.length_cons] at h ⊢
              have hrest := ih (Nat.le_of_succ_le_succ h)
              rw [List.drop_succ_cons]
              omega

theorem length_takeWhile_mono {q : α → Bool} (h : ∀ x ∈ xs, p x = true → q x = true) :
    (xs.takeWhile p).length ≤ (xs.takeWhile q).length := by
  induction xs with
  | nil => exact le_rfl
  | cons x xs ih =>
      obtain ⟨hhead, htail⟩ := List.forall_mem_cons.mp h
      cases hx : p x with
      | false => simp [hx]
      | true =>
          rw [List.takeWhile_cons_of_pos hx, List.takeWhile_cons_of_pos (hhead hx), List.length_cons, List.length_cons]
          exact Nat.succ_le_succ (ih htail)

theorem pairwise_of_adjacent {r : α → α → Prop} (htrans : ∀ a b c, r a b → r b c → r a c)
    (h : ∀ p ∈ xs.zip xs.tail, r p.1 p.2) : xs.Pairwise r := by
  induction xs with
  | nil => exact .nil
  | cons x xs ih =>
      cases xs with
      | nil => exact .cons (by simp) .nil
      | cons y ys =>
          rw [List.tail_cons, List.zip_cons_cons, List.forall_mem_cons] at h
          have hrest := ih h.2
          refine .cons ?_ hrest
          rw [List.forall_mem_cons]
          exact ⟨h.1, fun z hz => htrans _ _ _ h.1 ((List.pairwise_cons.mp hrest).1 z hz)⟩

/-- A condition that holds of a prefix splits the list. -/
theorem filter_append_filter_not (h : xs.Pairwise fun a b => p b = true → p a = true) :
    xs.filter p ++ (xs.filter fun x => !p x) = xs := by
  rw [← takeWhile_eq_filter h, ← dropWhile_eq_filter h, List.takeWhile_append_dropWhile]

/-- Sorting leaves a part alone that is in order already. -/
theorem filter_insertionSort {r : α → α → Prop} [DecidableRel r] (h : (xs.filter p).Pairwise r) :
    (xs.insertionSort r).filter p = xs.filter p := by
  have hsublist : (xs.filter p).Sublist (xs.insertionSort r) := List.sublist_insertionSort h List.filter_sublist
  have hfilter : (xs.filter p).Sublist ((xs.insertionSort r).filter p) := by
    have hagain := hsublist.filter p
    simpa only [List.filter_filter, Bool.and_self] using hagain
  exact (hfilter.eq_of_length ((List.perm_insertionSort r xs).filter p).length_eq.symm).symm

end Wordflow.Library
