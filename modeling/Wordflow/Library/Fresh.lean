import Mathlib.Data.List.Nodup
import Mathlib.Data.List.Perm.Subperm

namespace Wordflow.Library.Fresh

variable {α : Type*} [DecidableEq α]

/-- The loop that counts up from `n` to the first candidate that is not taken. -/
def firstFree (taken : List α) (candidate : Nat → α) : Nat → Nat → Nat
  | 0, n => n
  | rounds + 1, n => if candidate n ∈ taken then firstFree taken candidate rounds (n + 1) else n

variable {taken : List α} {candidate : Nat → α}

theorem firstFree_taken {rounds n : Nat} (h : candidate (firstFree taken candidate rounds n) ∈ taken) :
    ∀ k ≤ rounds, candidate (n + k) ∈ taken := by
  induction rounds generalizing n with
  | zero =>
      intro k hk
      obtain rfl : k = 0 := by omega
      exact h
  | succ rounds ih =>
      intro k hk
      simp only [firstFree] at h
      split at h
      · rename_i hn
        cases k with
        | zero => exact hn
        | succ k => simpa [Nat.add_assoc, Nat.add_comm 1] using ih h k (by omega)
      · rename_i hn
        exact absurd h hn

theorem le_firstFree (taken : List α) (candidate : Nat → α) (rounds n : Nat) : n ≤ firstFree taken candidate rounds n := by
  induction rounds generalizing n with
  | zero => exact Nat.le_refl n
  | succ rounds ih =>
      rw [firstFree]
      split
      · exact Nat.le_of_succ_le (ih (n + 1))
      · exact Nat.le_refl n

/-- The loop passes over taken candidates only. -/
theorem firstFree_least {rounds n k : Nat} (hle : n ≤ k) (hlt : k < firstFree taken candidate rounds n) : candidate k ∈ taken := by
  induction rounds generalizing n with
  | zero => exact absurd hlt (Nat.not_lt.mpr hle)
  | succ rounds ih =>
      rw [firstFree] at hlt
      split at hlt
      · rename_i hn
        rcases Nat.eq_or_lt_of_le hle with rfl | hgt
        · exact hn
        · exact ih hgt hlt
      · exact absurd hlt (Nat.not_lt.mpr hle)

/-- Candidates that differ cannot all be taken: the loop ends within as many
rounds as there are taken names. -/
theorem firstFree_free (hinj : Function.Injective candidate) (n : Nat) :
    candidate (firstFree taken candidate taken.length n) ∉ taken := by
  intro h
  have hall := firstFree_taken h
  have hnodup : ((List.range (taken.length + 1)).map fun k => candidate (n + k)).Nodup := by
    refine List.nodup_range.map ?_
    intro a b hab
    exact Nat.add_left_cancel (hinj hab)
  have hsubset : (List.range (taken.length + 1)).map (fun k => candidate (n + k)) ⊆ taken := by
    intro x hx
    obtain ⟨k, hk, rfl⟩ := List.mem_map.mp hx
    exact hall k (by simpa [Nat.lt_succ_iff] using hk)
  have hle := (List.Nodup.subperm hnodup hsubset).length_le
  rw [List.length_map, List.length_range] at hle
  omega

end Wordflow.Library.Fresh
