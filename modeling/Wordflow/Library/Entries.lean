import Mathlib.Data.List.Nodup

namespace Wordflow.Library.Entries

variable {κ β : Type*} [DecidableEq κ]

/-- The value of a key among entries kept in the order they came in. -/
def value (start : β) : List (κ × β) → κ → β
  | [], _ => start
  | (k, v) :: rest, key => if k = key then v else value start rest key

/-- Change the value of a key. A new key goes to the end, with what `start` is changed to. -/
def change (start : β) (f : β → β) : List (κ × β) → κ → List (κ × β)
  | [], key => [(key, f start)]
  | (k, v) :: rest, key => if k = key then (k, f v) :: rest else (k, v) :: change start f rest key

variable {start : β} {f : β → β} {m : List (κ × β)} {key other : κ}

@[simp]
theorem value_change_self : value start (change start f m key) key = f (value start m key) := by
  induction m with
  | nil => simp [change, value]
  | cons e rest ih =>
      rcases e with ⟨k, v⟩
      by_cases hk : k = key <;> simp [change, value, hk, ih]

theorem value_change_of_ne (h : other ≠ key) : value start (change start f m key) other = value start m other := by
  induction m with
  | nil => simp [change, value, h.symm]
  | cons e rest ih =>
      rcases e with ⟨k, v⟩
      by_cases hk : k = key
      · subst hk
        simp [change, value, h.symm]
      · rw [change, if_neg hk]
        by_cases ho : k = other <;> simp [value, ho, ih]

theorem keys_change (start : β) (f : β → β) (m : List (κ × β)) (key : κ) :
    (change start f m key).map Prod.fst = if key ∈ m.map Prod.fst then m.map Prod.fst else m.map Prod.fst ++ [key] := by
  induction m with
  | nil => simp [change]
  | cons e rest ih =>
      rcases e with ⟨k, v⟩
      by_cases hk : k = key
      · simp [change, hk]
      · rw [change, if_neg hk, List.map_cons, ih, List.map_cons]
        by_cases hmem : key ∈ rest.map Prod.fst
        · rw [if_pos hmem, if_pos (List.mem_cons_of_mem _ hmem)]
        · have hcons : key ∉ k :: rest.map Prod.fst := by simpa [Ne.symm hk] using hmem
          rw [if_neg hmem, if_neg hcons, List.cons_append]

theorem nodup_change (h : (m.map Prod.fst).Nodup) : ((change start f m key).map Prod.fst).Nodup := by
  rw [keys_change]
  split
  · exact h
  · rename_i hmem
    exact List.nodup_append.mpr ⟨h, List.nodup_singleton key, by rintro a ha b hb rfl; exact hmem (List.mem_singleton.mp hb ▸ ha)⟩

theorem mem_change {e : κ × β} (h : e ∈ change start f m key) : e ∈ m ∨ ∃ v, e.2 = f v := by
  induction m with
  | nil =>
      rw [List.mem_singleton.mp h]
      exact .inr ⟨start, rfl⟩
  | cons first rest ih =>
      rcases first with ⟨k, v⟩
      simp only [change] at h
      split at h
      · rcases List.mem_cons.mp h with rfl | hrest
        · exact .inr ⟨v, rfl⟩
        · exact .inl (List.mem_cons_of_mem _ hrest)
      · rcases List.mem_cons.mp h with rfl | hrest
        · exact .inl List.mem_cons_self
        · exact (ih hrest).imp (List.mem_cons_of_mem _) id

theorem value_of_mem (h : (m.map Prod.fst).Nodup) {v : β} (hmem : (key, v) ∈ m) : value start m key = v := by
  induction m with
  | nil => cases hmem
  | cons e rest ih =>
      rcases e with ⟨k, w⟩
      obtain ⟨hnot, hrest⟩ := List.nodup_cons.mp h
      rcases List.mem_cons.mp hmem with heq | hmem
      · cases heq
        exact if_pos rfl
      · have hne : k ≠ key := by
          rintro rfl
          exact hnot (List.mem_map.mpr ⟨_, hmem, rfl⟩)
        rw [value, if_neg hne]
        exact ih hrest hmem

theorem value_of_not_key (h : key ∉ m.map Prod.fst) : value start m key = start := by
  induction m with
  | nil => rfl
  | cons e rest ih =>
      rcases e with ⟨k, v⟩
      obtain ⟨hne, hrest⟩ := not_or.mp fun hmem => h (List.mem_cons.mpr hmem)
      rw [value, if_neg (Ne.symm hne)]
      exact ih hrest

theorem exists_of_key (h : (m.map Prod.fst).Nodup) (hkey : key ∈ m.map Prod.fst) : (key, value start m key) ∈ m := by
  obtain ⟨⟨k, v⟩, hmem, rfl⟩ := List.mem_map.mp hkey
  rw [value_of_mem h hmem]
  exact hmem

end Wordflow.Library.Entries
