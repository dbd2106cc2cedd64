import Mathlib.Data.List.Basic

namespace Wordflow.Library.Separated

variable {α : Type*} {a b : α} {x x' u u' w w' r : List α}

/-- A list cut by one mark and its copy cut by another mark are cut at the same place. -/
theorem head_eq (hab : a ≠ b) (h : x ++ a :: u = x' ++ a :: u') (h' : x ++ b :: w = x' ++ b :: w') : x = x' := by
  induction x generalizing x' with
  | nil =>
      cases x' with
      | nil => rfl
      | cons c x' =>
          have ha : a = c := (List.cons.inj h).1
          have hb : b = c := (List.cons.inj h').1
          exact absurd (ha.trans hb.symm) hab
  | cons c x ih =>
      cases x' with
      | nil =>
          have ha : c = a := (List.cons.inj h).1
          have hb : c = b := (List.cons.inj h').1
          exact absurd (ha.symm.trans hb) hab
      | cons d x' =>
          obtain ⟨rfl, hrest⟩ := List.cons.inj h
          rw [ih hrest (List.cons.inj h').2]

/-- A list with one mark in it does not start a list that has the other mark there. -/
theorem ne_of_marked (hab : a ≠ b) : (x ++ a :: u) ++ r ≠ x ++ b :: w := by
  intro h
  rw [List.append_assoc] at h
  have htail := List.append_cancel_left h
  exact hab (List.cons.inj htail).1

end Wordflow.Library.Separated
