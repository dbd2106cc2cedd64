import Mathlib.Algebra.BigOperators.Group.Finset.Basic
import Mathlib.Data.List.Nodup

namespace Wordflow.Library.FullJoin

variable {κ α β : Type*} [DecidableEq κ]

/-- Rows of two tables by a key, with the rows of either that meet no row of the other. -/
def fullJoin (left : List (κ × α)) (right : List (κ × β)) : List (Option (κ × α) × Option (κ × β)) :=
  (left.flatMap fun a => match right.filter fun b => a.1 = b.1 with
    | [] => [(some a, none)]
    | b :: rest => (b :: rest).map fun b => (some a, some b)) ++
  (right.filter fun b => ¬left.any fun a => a.1 = b.1).map fun b => (none, some b)

def lookup (table : List (κ × α)) (key : κ) : Option α := (table.find? fun e => e.1 = key).map Prod.snd

variable {left : List (κ × α)} {right : List (κ × β)} {key : κ}

theorem lookup_eq_none : lookup left key = none ↔ key ∉ left.map Prod.fst := by
  rw [lookup, Option.map_eq_none_iff, List.find?_eq_none, List.mem_map]
  constructor
  · rintro h ⟨a, ha, rfl⟩
    exact h a ha (decide_eq_true rfl)
  · intro h a ha hkey
    exact h ⟨a, ha, of_decide_eq_true hkey⟩

theorem find?_key {e : κ × α} (h : left.find? (fun e => e.1 = key) = some e) : e ∈ left ∧ e.1 = key :=
  ⟨List.mem_of_find?_eq_some h, of_decide_eq_true (@List.find?_some (κ × α) (fun e => decide (e.1 = key)) _ _ h)⟩

theorem lookup_eq_some {value : α} (hnodup : (left.map Prod.fst).Nodup) :
    lookup left key = some value ↔ (key, value) ∈ left := by
  rw [lookup, Option.map_eq_some_iff]
  constructor
  · rintro ⟨⟨k, v⟩, hfind, rfl⟩
    obtain ⟨hmem, rfl⟩ := find?_key hfind
    exact hmem
  · intro hmem
    rcases hfind : left.find? fun e => e.1 = key with _ | e
    · exact absurd (decide_eq_true rfl) (List.find?_eq_none.mp hfind _ hmem)
    · obtain ⟨hin, hkey⟩ := find?_key hfind
      have hsame := List.inj_on_of_nodup_map hnodup hin hmem hkey
      exact ⟨e, hfind, congrArg Prod.snd hsame⟩

/-- A table of differing keys holds at most one row of a key. -/
theorem filter_key (hnodup : (right.map Prod.fst).Nodup) (key : κ) :
    (right.filter fun b => key = b.1) = ((lookup right key).map fun v => (key, v)).toList := by
  induction right with
  | nil => rfl
  | cons b right ih =>
      obtain ⟨k, v⟩ := b
      obtain ⟨hnot, hrest⟩ := List.nodup_cons.mp hnodup
      by_cases hkey : key = k
      · subst hkey
        have hnone : (right.filter fun b => key = b.1) = [] := by
          rw [ih hrest, lookup_eq_none.mpr hnot]
          rfl
        have hlookup : lookup ((key, v) :: right) key = some v := by simp [lookup]
        rw [hlookup, List.filter_cons, hnone]
        simp
      · have hlookup : lookup ((k, v) :: right) key = lookup right key := by simp [lookup, Ne.symm hkey]
        rw [hlookup, ← ih hrest, List.filter_cons]
        simp [hkey]

/-- Of two tables of differing keys, the join pairs each key with what the tables say of it. -/
theorem fullJoin_eq (hright : (right.map Prod.fst).Nodup) :
    fullJoin left right = (left.map fun a => (some a, (lookup right a.1).map fun v => (a.1, v))) ++
      (right.filter fun b => b.1 ∉ left.map Prod.fst).map fun b => (none, some b) := by
  rw [fullJoin]
  congr 1
  · rw [← List.flatMap_singleton' (left.map _), List.flatMap_map]
    apply List.flatMap_congr
    intro a ha
    rw [filter_key hright]
    rcases lookup right a.1 with _ | v
    · rfl
    · rfl
  · congr 1
    apply List.filter_congr
    intro b hb
    have hany : (left.any fun a => a.1 = b.1) = true ↔ b.1 ∈ left.map Prod.fst := by
      rw [List.any_eq_true, List.mem_map]
      simp only [decide_eq_true_eq]
    by_cases h : b.1 ∈ left.map Prod.fst
    · rw [hany.mpr h]
      simp [h]
    · rw [eq_false_of_ne_true (mt hany.mp h)]
      simp [h]

end Wordflow.Library.FullJoin
