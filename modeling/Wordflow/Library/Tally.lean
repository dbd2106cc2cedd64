import Mathlib.Algebra.BigOperators.Group.Finset.Piecewise
import Mathlib.Data.Finset.Sort
import Wordflow.Library.OrderedMap

namespace Wordflow.Library.OrderedMap.Map

variable {κ M : Type*} [LinearOrder κ]

section Entries

variable {m : Map κ M} {key : κ} {value : M}

theorem get?_of_mem (h : (key, value) ∈ m.entries) : m.get? key = some value :=
  (OrderedMap.get?_eq_some m.sorted).mpr h

/-- A map is its keys in ascending order with what they are mapped to. -/
theorem entries_eq {keys : Finset κ} {f : κ → M} (hkeys : ∀ key, key ∈ m.keys ↔ key ∈ keys)
    (hvalues : ∀ key ∈ keys, m.get? key = some (f key)) : m.entries = keys.sort.map fun key => (key, f key) := by
  have hsorted : m.keys = keys.sort := by
    have hascending : m.keys.Pairwise (· ≤ ·) := List.pairwise_map.mpr (m.sorted.imp fun h => h.le)
    apply List.Perm.eq_of_pairwise' hascending (Finset.pairwise_sort keys _)
    apply (List.perm_ext_iff_of_nodup m.keys_nodup (Finset.sort_nodup _ _)).mpr
    intro key
    rw [hkeys, Finset.mem_sort]
  rw [← hsorted, Map.keys, List.map_map]
  symm
  calc
    m.entries.map _ = m.entries.map id := by
      apply List.map_congr_left
      intro e he
      have hkey : e.1 ∈ keys := (hkeys e.1).mp (List.mem_map_of_mem he)
      have hvalue := (get?_of_mem he).symm.trans (hvalues e.1 hkey)
      exact Prod.ext rfl (Option.some.inj hvalue).symm
    _ = m.entries := List.map_id _

end Entries

section Tally

variable [AddCommMonoid M]

/-- Count a value towards a key. -/
def add (m : Map κ M) (key : κ) (value : M) : Map κ M := m.insert key ((m.get? key).getD 0 + value)

def tally (items : List (κ × M)) : Map κ M := items.foldl (fun m e => m.add e.1 e.2) empty

/-- What items give to a key in all. -/
def amount (items : List (κ × M)) (key : κ) : M := ((items.filter fun e => e.1 = key).map Prod.snd).sum

variable {items : List (κ × M)} {key : κ}

theorem tally_concat (items : List (κ × M)) (e : κ × M) : tally (items ++ [e]) = (tally items).add e.1 e.2 :=
  List.foldl_concat _ _ _ _

theorem amount_concat (items : List (κ × M)) (e : κ × M) :
    amount (items ++ [e]) key = amount items key + if e.1 = key then e.2 else 0 := by
  rw [amount, List.filter_append, List.map_append, List.sum_append, amount]
  congr 1
  by_cases h : e.1 = key <;> simp [h]

theorem amount_of_notMem (h : key ∉ items.map Prod.fst) : amount items key = 0 := by
  have hnone : items.filter (fun e => e.1 = key) = [] := by
    apply List.filter_eq_nil_iff.mpr
    intro e he hkey
    exact h (List.mem_map.mpr ⟨e, he, of_decide_eq_true hkey⟩)
  rw [amount, hnone]
  rfl

theorem get?_tally (items : List (κ × M)) :
    (tally items).get? key = if key ∈ items.map Prod.fst then some (amount items key) else none := by
  induction items using List.reverseRecOn with
  | nil => rfl
  | append_singleton items e ih =>
      rw [tally_concat, add, get?_insert, amount_concat]
      by_cases hkey : e.1 = key
      · subst hkey
        have hsome : ((tally items).get? e.1).getD 0 = amount items e.1 := by
          by_cases hmem : e.1 ∈ items.map Prod.fst
          · rw [ih, if_pos hmem, Option.getD_some]
          · rw [ih, if_neg hmem, Option.getD_none, amount_of_notMem hmem]
        rw [if_pos rfl, hsome, if_pos rfl, if_pos (by simp)]
      · have hne : key ≠ e.1 := Ne.symm hkey
        have hmem : key ∈ (items ++ [e]).map Prod.fst ↔ key ∈ items.map Prod.fst := by
          rw [List.map_append, List.mem_append, List.map_singleton, List.mem_singleton, or_iff_left hne]
        rw [if_neg hne, if_neg hkey, add_zero, ih]
        simp only [hmem]

theorem mem_keys_tally : key ∈ (tally items).keys ↔ key ∈ items.map Prod.fst := by
  rw [mem_keys, get?_tally]
  by_cases h : key ∈ items.map Prod.fst <;> simp [h]

theorem entries_tally (items : List (κ × M)) :
    (tally items).entries = (items.map Prod.fst).toFinset.sort.map fun key => (key, amount items key) := by
  apply entries_eq
  · intro key
    rw [mem_keys_tally, List.mem_toFinset]
  · intro key hkey
    rw [get?_tally, if_pos (List.mem_toFinset.mp hkey)]

theorem sum_entries_tally {N : Type*} [AddCommMonoid N] (items : List (κ × M)) (f : κ → M → N) :
    ((tally items).entries.map fun e => f e.1 e.2).sum = ∑ key ∈ (items.map Prod.fst).toFinset, f key (amount items key) := by
  rw [entries_tally, List.map_map, ← List.sum_toFinset _ (Finset.sort_nodup _ _), Finset.sort_toFinset]
  rfl

/-- Over keys that pass a test, the amounts add up to the items that pass it. -/
theorem sum_amount {keys : Finset κ} (h : ∀ e ∈ items, e.1 ∈ keys) (p : κ → Bool) :
    ((keys.sort.filter p).map fun key => amount items key).sum = ((items.filter fun e => p e.1).map Prod.snd).sum := by
  have hnodup : (keys.sort.filter p).Nodup := (Finset.sort_nodup keys _).filter _
  rw [← List.sum_toFinset _ hnodup, List.toFinset_filter, Finset.sort_toFinset]
  induction items with
  | nil => exact Finset.sum_const_zero
  | cons e items ih =>
      obtain ⟨he, hitems⟩ := List.forall_mem_cons.mp h
      have hcons : ∀ key, amount (e :: items) key = (if key = e.1 then e.2 else 0) + amount items key := by
        intro key
        by_cases hkey : e.1 = key
        · simp [amount, hkey]
        · simp [amount, hkey, Ne.symm hkey]
      rw [Finset.sum_congr rfl fun key _ => hcons key, Finset.sum_add_distrib, ih hitems, Finset.sum_ite_eq']
      by_cases hp : p e.1 = true
      · simp [hp, he]
      · simp [hp]

end Tally

section First

/-- Enter a value under a key that has none. -/
def insertNew (m : Map κ M) (key : κ) (value : M) : Map κ M := if m.contains key then m else m.insert key value

def firsts (items : List (κ × M)) : Map κ M := items.foldl (fun m e => m.insertNew e.1 e.2) empty

variable {items : List (κ × M)} {key : κ}

theorem get?_firsts (items : List (κ × M)) :
    (firsts items).get? key = (items.find? fun e => e.1 = key).map Prod.snd := by
  induction items using List.reverseRecOn with
  | nil => rfl
  | append_singleton items e ih =>
      have hconcat : firsts (items ++ [e]) = (firsts items).insertNew e.1 e.2 := List.foldl_concat _ _ _ _
      rw [hconcat, insertNew, contains, List.find?_append]
      cases hfind : items.find? fun e => e.1 = key with
      | some found =>
          rw [hfind] at ih
          split
          · exact ih
          · rename_i hnone
            have hne : key ≠ e.1 := by
              rintro rfl
              exact hnone (by simp [ih])
            rw [get?_insert_of_ne hne, ih]
            rfl
      | none =>
          rw [hfind] at ih
          by_cases hkey : e.1 = key
          · subst hkey
            rw [ih]
            simp
          · split <;> simp [get?_insert_of_ne (Ne.symm hkey), ih, hkey]

/-- The first values of items are listed by their keys in ascending order. -/
theorem entries_firsts {keys : List κ} (hsorted : keys.Pairwise (· < ·)) (hkeys : ∀ key, key ∈ keys ↔ key ∈ items.map Prod.fst)
    {f : κ → M} (hf : ∀ key ∈ keys, (items.find? fun e => e.1 = key).map Prod.snd = some (f key)) :
    (firsts items).entries = keys.map fun key => (key, f key) := by
  have hnodup : keys.Nodup := hsorted.imp fun h => h.ne
  have hsort : keys.toFinset.sort = keys := (List.toFinset_sort (· ≤ ·) hnodup).mpr (hsorted.imp fun h => h.le)
  rw [← hsort]
  apply entries_eq
  · intro key
    rw [mem_keys, get?_firsts, List.mem_toFinset, hkeys, List.mem_map]
    constructor
    · rintro ⟨value, hvalue⟩
      obtain ⟨e, he, -⟩ := Option.map_eq_some_iff.mp hvalue
      have hpass := List.find?_some he
      exact ⟨e, List.mem_of_find?_eq_some he, of_decide_eq_true hpass⟩
    · intro hmem
      exact ⟨f key, hf key ((hkeys key).mpr (List.mem_map.mpr hmem))⟩
  · intro key hkey
    rw [get?_firsts, hf key (List.mem_toFinset.mp hkey)]

end First

end Wordflow.Library.OrderedMap.Map
