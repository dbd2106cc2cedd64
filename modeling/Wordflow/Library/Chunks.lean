import Mathlib.Data.List.Basic

namespace Wordflow.Library.Chunks

variable {α : Type*}

/-- Slices of `size` items, the last one shorter, each with where it starts. -/
def chunks (size : Nat) (items : List α) : List (Nat × List α) :=
  (List.range ((items.length + size - 1) / size)).map fun i => (i * size, (items.drop (i * size)).take size)

variable {size : Nat} {items : List α}

theorem mem_chunks {chunk : Nat × List α} (h : chunk ∈ chunks size items) : chunk.2 = (items.drop chunk.1).take size := by
  obtain ⟨i, -, rfl⟩ := List.mem_map.mp h
  rfl

theorem take_slices (count : Nat) :
    ((List.range count).flatMap fun i => (items.drop (i * size)).take size) = items.take (count * size) := by
  induction count with
  | zero => simp
  | succ count ih =>
      rw [List.range_succ, List.flatMap_append, ih, List.flatMap_singleton, Nat.succ_mul, ← List.take_add]

/-- The chunks are the items in their order. -/
theorem chunks_flatten (hsize : 0 < size) : (chunks size items).flatMap Prod.snd = items := by
  rw [chunks, List.flatMap_map]
  refine (take_slices _).trans (List.take_of_length_le ?_)
  have hlt := Nat.lt_div_mul_add hsize (a := items.length + size - 1)
  omega

theorem chunks_short (hne : items ≠ []) (h : items.length ≤ size) : chunks size items = [(0, items)] := by
  have hpos := List.length_pos_of_ne_nil hne
  have hcount : (items.length + size - 1) / size = 1 := Nat.div_eq_of_lt_le (by omega) (by omega)
  rw [chunks, hcount, List.range_one, List.map_singleton, Nat.zero_mul, List.drop_zero, List.take_of_length_le h]

end Wordflow.Library.Chunks
