import Mathlib.Data.Set.BooleanAlgebra
import Mathlib.Data.Set.Disjoint
import Mathlib.Order.CompletePartialOrder
import Mathlib.Tactic.Tauto

namespace Wordflow.Library.Merge

variable {α : Type*}

/-- A stored set with the edit from one set to another, which leaves what others stored. -/
def merged (stored before after : Set α) : Set α := (stored \ (before \ after)) ∪ (after \ before)

/-- What an edit takes out or puts in. -/
def changed (before after : Set α) : Set α := (before \ after) ∪ (after \ before)

variable {stored before after before' after' : Set α} {x : α}

theorem mem_merged : x ∈ merged stored before after ↔ (x ∈ stored ∧ (x ∈ before → x ∈ after)) ∨ (x ∈ after ∧ x ∉ before) := by
  simp only [merged, Set.mem_union, Set.mem_sdiff, not_and, not_not]

theorem mem_changed : x ∈ changed before after ↔ ¬(x ∈ before ↔ x ∈ after) := by
  simp only [changed, Set.mem_union, Set.mem_sdiff]
  tauto

/-- An edit decides on what it changes, and leaves the rest. -/
theorem mem_merged_iff :
    x ∈ merged stored before after ↔ (x ∈ changed before after ∧ x ∈ after) ∨ (x ∉ changed before after ∧ x ∈ stored) := by
  rw [mem_merged, mem_changed]
  tauto

theorem merged_comm (h : Disjoint (changed before after) (changed before' after')) :
    merged (merged stored before after) before' after' = merged (merged stored before' after') before after := by
  ext x
  have hapart : x ∈ changed before after → x ∉ changed before' after' := fun hx hx' => Set.disjoint_left.mp h hx hx'
  rw [mem_merged_iff, mem_merged_iff, mem_merged_iff, mem_merged_iff]
  tauto

end Wordflow.Library.Merge
