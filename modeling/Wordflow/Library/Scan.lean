import Mathlib.Data.List.Basic

namespace Wordflow.Library.Scan

variable {α β σ ε : Type*}

/-- The pieces of a list, read from the front: `next` reads a piece and `size`
says how many elements it takes. `skip` elements still belong to the piece
before; a piece of no elements counts as one of a single element. -/
def tile (next : List α → β) (size : β → ℕ) : ℕ → List α → List β
  | _, [] => []
  | skip + 1, _ :: xs => tile next size skip xs
  | 0, x :: xs => next (x :: xs) :: tile next size (size (next (x :: xs)) - 1) xs

/-- A state driven over a list: `step` looks at what is left and says how many
elements it has used. -/
def drive (step : σ → List α → Except ε (σ × ℕ)) : ℕ → σ → List α → Except ε σ
  | _, s, [] => .ok s
  | skip + 1, s, _ :: xs => drive step skip s xs
  | 0, s, x :: xs => step s (x :: xs) >>= fun r => drive step (r.2 - 1) r.1 xs

section Tile

variable {next : List α → β} {size : β → ℕ} {text : β → List α}

theorem tile_drop (k : ℕ) (xs : List α) : tile next size k xs = tile next size 0 (xs.drop k) := by
  induction k generalizing xs with
  | zero => rfl
  | succ k ih =>
      cases xs with
      | nil => rfl
      | cons x xs => rw [tile, ih, List.drop_succ_cons]

theorem tile_eq {xs : List α} (hxs : xs ≠ []) (h : 1 ≤ size (next xs)) :
    tile next size 0 xs = next xs :: tile next size 0 (xs.drop (size (next xs))) := by
  cases xs with
  | nil => exact absurd rfl hxs
  | cons x xs =>
      obtain ⟨n, hn⟩ : ∃ n, size (next (x :: xs)) = n + 1 := ⟨_, (Nat.sub_add_cancel h).symm⟩
      rw [tile, tile_drop, hn, List.drop_succ_cons, Nat.add_sub_cancel]

/-- Pieces whose texts stand at the front of what is read make up the list. -/
theorem tile_eq_cons {xs : List α} (hxs : xs ≠ []) {rest : List α}
    (h : xs = text (next xs) ++ rest) (hne : text (next xs) ≠ []) :
    tile next (fun b => (text b).length) 0 xs = next xs :: tile next (fun b => (text b).length) 0 rest := by
  have hpos : 1 ≤ (text (next xs)).length := List.length_pos_iff.mpr hne
  have hdrop : (text (next xs) ++ rest).drop (text (next xs)).length = rest := List.drop_left
  rw [← h] at hdrop
  rw [tile_eq hxs hpos, hdrop]

theorem flatMap_tile (h : ∀ xs, xs ≠ [] → ∃ rest, xs = text (next xs) ++ rest)
    (hne : ∀ xs, xs ≠ [] → text (next xs) ≠ []) (xs : List α) :
    (tile next (fun b => (text b).length) 0 xs).flatMap text = xs := by
  induction hn : xs.length using Nat.strongRecOn generalizing xs with
  | _ n ih =>
      rcases eq_or_ne xs [] with rfl | hxs
      · rfl
      · obtain ⟨rest, hrest⟩ := h xs hxs
        have hpos : 0 < (text (next xs)).length := List.length_pos_iff.mpr (hne xs hxs)
        have hlt : rest.length < n := by
          have := congrArg List.length hrest
          rw [List.length_append] at this
          omega
        rw [tile_eq_cons hxs hrest (hne xs hxs), List.flatMap_cons, ih _ hlt rest rfl]
        exact hrest.symm

end Tile

section Drive

variable {step : σ → List α → Except ε (σ × ℕ)}

theorem drive_drop (k : ℕ) (s : σ) (xs : List α) : drive step k s xs = drive step 0 s (xs.drop k) := by
  induction k generalizing xs with
  | zero => rfl
  | succ k ih =>
      cases xs with
      | nil => rfl
      | cons x xs => rw [drive, ih, List.drop_succ_cons]

theorem drive_of_ok {s t : σ} {n : ℕ} {xs : List α} (hxs : xs ≠ []) (h : step s xs = .ok (t, n + 1)) :
    drive step 0 s xs = drive step 0 t (xs.drop (n + 1)) := by
  cases xs with
  | nil => exact absurd rfl hxs
  | cons x xs =>
      rw [drive, h]
      change drive step n t xs = _
      rw [drive_drop, List.drop_succ_cons]

theorem drive_of_error {s : σ} {e : ε} {xs : List α} (hxs : xs ≠ []) (h : step s xs = .error e) :
    drive step 0 s xs = .error e := by
  cases xs with
  | nil => exact absurd rfl hxs
  | cons x xs =>
      rw [drive, h]
      rfl

/-- What every step keeps, of the state and of what is left to read, holds at the end. -/
theorem drive_invariant {P : σ → List α → Prop}
    (hstep : ∀ s xs t n, P s xs → xs ≠ [] → step s xs = .ok (t, n) → 1 ≤ n ∧ P t (xs.drop n)) {s t : σ} {xs : List α}
    (hs : P s xs) (h : drive step 0 s xs = .ok t) : ∃ k, P t (xs.drop k) := by
  induction hn : xs.length using Nat.strongRecOn generalizing s xs with
  | _ n ih =>
      rcases eq_or_ne xs [] with rfl | hxs
      · cases h
        exact ⟨0, hs⟩
      cases hr : step s xs with
      | error e =>
          rw [drive_of_error hxs hr] at h
          cases h
      | ok r =>
          obtain ⟨u, m⟩ := r
          obtain ⟨hm, hu⟩ := hstep s xs u m hs hxs hr
          obtain ⟨m, rfl⟩ := Nat.exists_eq_succ_of_ne_zero (Nat.one_le_iff_ne_zero.mp hm)
          rw [drive_of_ok hxs hr] at h
          have hlt : (xs.drop (m + 1)).length < n := by
            have hpos := List.length_pos_iff.mpr hxs
            rw [List.length_drop]
            omega
          obtain ⟨k, hk⟩ := ih _ hlt hu h rfl
          exact ⟨m + 1 + k, by rwa [List.drop_drop] at hk⟩

end Drive

end Wordflow.Library.Scan
