import Mathlib.Data.List.Basic
import Mathlib.Order.Basic
import Mathlib.Order.Lattice

namespace Wordflow.Library.OrderedMap

variable {κ β : Type*} [LinearOrder κ]

/-- Set the value of a key in a list kept in ascending order of its keys. -/
def insert (m : List (κ × β)) (key : κ) (value : β) : List (κ × β) :=
  match m with
  | [] => [(key, value)]
  | (k, v) :: rest =>
      if key < k then (key, value) :: (k, v) :: rest
      else if k < key then (k, v) :: insert rest key value
      else (key, value) :: rest

def get? (m : List (κ × β)) (key : κ) : Option β := (m.find? fun e => e.1 = key).map Prod.snd

def Sorted (m : List (κ × β)) : Prop := m.Pairwise fun a b => a.1 < b.1

variable {m : List (κ × β)} {key other : κ} {value : β}

theorem mem_insert {e : κ × β} (h : Sorted m) :
    e ∈ insert m key value ↔ e = (key, value) ∨ (e ∈ m ∧ e.1 ≠ key) := by
  induction m with
  | nil => simp [insert]
  | cons first rest ih =>
      rcases first with ⟨k, v⟩
      obtain ⟨hfirst, hrest⟩ := List.pairwise_cons.mp h
      have hgt : ∀ a ∈ rest, k < a.1 := hfirst
      rw [insert]
      split
      · rename_i hlt
        have hne : ∀ a ∈ (k, v) :: rest, a.1 ≠ key := by
          intro a ha
          rcases List.mem_cons.mp ha with rfl | ha
          · exact hlt.ne'
          · exact (hlt.trans (hgt a ha)).ne'
        simp only [List.mem_cons] at hne ⊢
        constructor
        · rintro (rfl | he)
          · exact .inl rfl
          · exact .inr ⟨he, hne e he⟩
        · rintro (rfl | ⟨he, -⟩)
          · exact .inl rfl
          · exact .inr he
      · split
        · rename_i hlt
          rw [List.mem_cons, ih hrest, List.mem_cons]
          constructor
          · rintro (rfl | rfl | ⟨he, hne⟩)
            · exact .inr ⟨.inl rfl, hlt.ne⟩
            · exact .inl rfl
            · exact .inr ⟨.inr he, hne⟩
          · rintro (rfl | ⟨rfl | he, hne⟩)
            · exact .inr (.inl rfl)
            · exact .inl rfl
            · exact .inr (.inr ⟨he, hne⟩)
        · rename_i hnlt hngt
          obtain rfl := le_antisymm (not_lt.mp hnlt) (not_lt.mp hngt)
          simp only [List.mem_cons]
          constructor
          · rintro (rfl | he)
            · exact .inl rfl
            · exact .inr ⟨.inr he, (hgt e he).ne'⟩
          · rintro (rfl | ⟨rfl | he, hne⟩)
            · exact .inl rfl
            · exact absurd rfl hne
            · exact .inr he

theorem length_insert_le : (insert m key value).length ≤ m.length + 1 := by
  induction m with
  | nil => simp [insert]
  | cons first rest ih =>
      rcases first with ⟨k, v⟩
      rw [insert]
      split
      · simp
      · split <;> simp [ih]

theorem sorted_insert (h : Sorted m) : Sorted (insert m key value) := by
  induction m with
  | nil => simp [insert, Sorted]
  | cons first rest ih =>
      rcases first with ⟨k, v⟩
      obtain ⟨hfirst, hrest⟩ := List.pairwise_cons.mp h
      rw [insert]
      split
      · rename_i hlt
        refine List.pairwise_cons.mpr ⟨?_, h⟩
        intro a ha
        rcases List.mem_cons.mp ha with rfl | ha
        · exact hlt
        · exact hlt.trans (hfirst a ha)
      · split
        · rename_i hlt
          refine List.pairwise_cons.mpr ⟨?_, ih hrest⟩
          intro a ha
          rcases (mem_insert hrest).mp ha with rfl | ⟨ha, -⟩
          · exact hlt
          · exact hfirst a ha
        · rename_i hnlt hngt
          obtain rfl := le_antisymm (not_lt.mp hnlt) (not_lt.mp hngt)
          exact List.pairwise_cons.mpr ⟨hfirst, hrest⟩

theorem Sorted.eq_of_key {a b : κ × β} (h : Sorted m) (ha : a ∈ m) (hb : b ∈ m) (hkey : a.1 = b.1) : a = b := by
  induction m with
  | nil => simp at ha
  | cons first rest ih =>
      obtain ⟨hfirst, hrest⟩ := List.pairwise_cons.mp h
      rcases List.mem_cons.mp ha with rfl | ha'
      · rcases List.mem_cons.mp hb with rfl | hb'
        · rfl
        · exact absurd hkey (hfirst b hb').ne
      · rcases List.mem_cons.mp hb with rfl | hb'
        · exact absurd hkey (hfirst a ha').ne'
        · exact ih hrest ha' hb'

theorem get?_eq_some (h : Sorted m) : get? m key = some value ↔ (key, value) ∈ m := by
  simp only [get?, Option.map_eq_some_iff]
  constructor
  · rintro ⟨e, he, rfl⟩
    have hkey : e.1 = key := by simpa using List.find?_some he
    exact hkey ▸ List.mem_of_find?_eq_some he
  · intro hmem
    cases hfind : m.find? (fun e => e.1 = key) with
    | none => simpa using List.find?_eq_none.mp hfind _ hmem
    | some e =>
        have hkey : e.1 = key := by simpa using List.find?_some hfind
        have heq := h.eq_of_key (List.mem_of_find?_eq_some hfind) hmem hkey
        exact ⟨e, rfl, by rw [heq]⟩

/-- A map whose entries are in ascending order of their keys. -/
structure Map (κ β : Type*) [LinearOrder κ] where
  entries : List (κ × β)
  sorted : Sorted entries
  deriving DecidableEq

namespace Map

def empty : Map κ β := ⟨[], List.Pairwise.nil⟩

def get? (m : Map κ β) (key : κ) : Option β := OrderedMap.get? m.entries key

def insert (m : Map κ β) (key : κ) (value : β) : Map κ β :=
  ⟨OrderedMap.insert m.entries key value, sorted_insert m.sorted⟩

def remove (m : Map κ β) (key : κ) : Map κ β :=
  ⟨m.entries.filter fun e => e.1 ≠ key, m.sorted.sublist List.filter_sublist⟩

/-- Change the value of a key that is there. -/
def modify (m : Map κ β) (key : κ) (change : β → β) : Map κ β :=
  match m.get? key with
  | some value => m.insert key (change value)
  | none => m

/-- Keep the entries that pass a test. -/
def filter (m : Map κ β) (keep : κ → β → Bool) : Map κ β :=
  ⟨m.entries.filter fun e => keep e.1 e.2, m.sorted.sublist List.filter_sublist⟩

def keys (m : Map κ β) : List κ := m.entries.map Prod.fst

def contains (m : Map κ β) (key : κ) : Bool := (m.get? key).isSome

def size (m : Map κ β) : Nat := m.entries.length

variable {m : Map κ β}

@[simp]
theorem get?_empty : (empty : Map κ β).get? key = none := rfl

@[simp]
theorem get?_insert_self : (m.insert key value).get? key = some value :=
  (OrderedMap.get?_eq_some (m.insert key value).sorted).mpr ((mem_insert m.sorted).mpr (.inl rfl))

theorem get?_insert_of_ne (h : other ≠ key) : (m.insert key value).get? other = m.get? other := by
  apply Option.ext
  intro found
  simp only [get?, OrderedMap.get?_eq_some m.sorted, OrderedMap.get?_eq_some (m.insert key value).sorted]
  simp [insert, mem_insert m.sorted, h]

theorem get?_remove_self : (m.remove key).get? key = none := by
  rw [Option.eq_none_iff_forall_ne_some]
  intro value hvalue
  simp only [get?, OrderedMap.get?_eq_some (m.remove key).sorted] at hvalue
  simp [remove] at hvalue

theorem get?_remove_of_ne (h : other ≠ key) : (m.remove key).get? other = m.get? other := by
  apply Option.ext
  intro found
  simp only [get?, OrderedMap.get?_eq_some m.sorted, OrderedMap.get?_eq_some (m.remove key).sorted]
  simp [remove, h]

theorem get?_filter (keep : κ → β → Bool) :
    (m.filter keep).get? key = some value ↔ m.get? key = some value ∧ keep key value = true := by
  simp only [get?, OrderedMap.get?_eq_some m.sorted, OrderedMap.get?_eq_some (m.filter keep).sorted]
  simp [filter]

theorem get?_remove : (m.remove key).get? other = some value ↔ m.get? other = some value ∧ other ≠ key := by
  by_cases heq : other = key
  · subst heq
    simp [get?_remove_self]
  · simp [get?_remove_of_ne heq, heq]

theorem get?_insert : (m.insert key value).get? other = if other = key then some value else m.get? other := by
  by_cases heq : other = key
  · subst heq
    rw [get?_insert_self, if_pos rfl]
  · rw [get?_insert_of_ne heq, if_neg heq]

/-- Maps with the same values are the same. -/
theorem ext_get? {n : Map κ β} (h : ∀ key, m.get? key = n.get? key) : m = n := by
  have hmem : ∀ e : κ × β, e ∈ m.entries ↔ e ∈ n.entries := by
    intro e
    rw [← OrderedMap.get?_eq_some m.sorted, ← OrderedMap.get?_eq_some n.sorted]
    exact Iff.of_eq (congrArg (· = some e.2) (h e.1))
  have hnodup : ∀ m : Map κ β, m.entries.Nodup := fun m => m.sorted.imp fun hlt heq => absurd (congrArg Prod.fst heq) hlt.ne
  have hperm := (List.perm_ext_iff_of_nodup (hnodup m) (hnodup n)).mpr hmem
  have hentries : m.entries = n.entries := by
    refine hperm.eq_of_pairwise (fun a b _ _ hlt hgt => absurd hlt hgt.not_gt) m.sorted n.sorted
  obtain ⟨entries, hsorted⟩ := m
  cases hentries
  rfl

theorem get?_modify (change : β → β) :
    (m.modify key change).get? other = if other = key then (m.get? other).map change else m.get? other := by
  simp only [modify]
  by_cases heq : other = key
  · subst heq
    rw [if_pos rfl]
    cases hvalue : m.get? other with
    | none => exact hvalue
    | some value => exact get?_insert_self
  · rw [if_neg heq]
    cases m.get? key with
    | none => rfl
    | some value => exact get?_insert_of_ne heq

theorem keys_nodup (m : Map κ β) : m.keys.Nodup := by
  rw [keys, List.nodup_iff_pairwise_ne, List.pairwise_map]
  exact m.sorted.imp fun h => h.ne

theorem length_keys (m : Map κ β) : m.keys.length = m.size := List.length_map _

theorem mem_keys : key ∈ m.keys ↔ ∃ value, m.get? key = some value := by
  simp only [keys, List.mem_map, get?, OrderedMap.get?_eq_some m.sorted]
  constructor
  · rintro ⟨⟨k, v⟩, he, rfl⟩
    exact ⟨v, he⟩
  · rintro ⟨v, hv⟩
    exact ⟨(key, v), hv, rfl⟩

theorem contains_iff : m.contains key = true ↔ key ∈ m.keys := by
  rw [contains, Option.isSome_iff_exists, mem_keys]

theorem mem_keys_insert : other ∈ (m.insert key value).keys ↔ other = key ∨ other ∈ m.keys := by
  simp only [keys, insert, List.mem_map, mem_insert m.sorted]
  constructor
  · rintro ⟨e, rfl | ⟨he, -⟩, rfl⟩
    · exact .inl rfl
    · exact .inr ⟨e, he, rfl⟩
  · rintro (rfl | ⟨e, he, rfl⟩)
    · exact ⟨_, .inl rfl, rfl⟩
    · by_cases heq : e.1 = key
      · exact ⟨_, .inl rfl, heq.symm⟩
      · exact ⟨e, .inr ⟨he, heq⟩, rfl⟩

theorem mem_keys_remove : other ∈ (m.remove key).keys ↔ other ∈ m.keys ∧ other ≠ key := by
  simp only [keys, remove, List.mem_map, List.mem_filter, decide_eq_true_eq]
  constructor
  · rintro ⟨e, ⟨he, hne⟩, rfl⟩
    exact ⟨⟨e, he, rfl⟩, hne⟩
  · rintro ⟨⟨e, he, rfl⟩, hne⟩
    exact ⟨e, ⟨he, hne⟩, rfl⟩

/-- A new key goes in among the others. -/
theorem keys_insert_perm (h : key ∉ m.keys) : (m.insert key value).keys.Perm (key :: m.keys) := by
  rw [List.perm_ext_iff_of_nodup (keys_nodup _) (List.nodup_cons.mpr ⟨h, m.keys_nodup⟩)]
  intro other
  rw [mem_keys_insert, List.mem_cons]

theorem keys_remove_perm (h : key ∈ m.keys) : m.keys.Perm (key :: (m.remove key).keys) := by
  have hfresh : key ∉ (m.remove key).keys := fun hmem => (mem_keys_remove.mp hmem).2 rfl
  rw [List.perm_ext_iff_of_nodup m.keys_nodup (List.nodup_cons.mpr ⟨hfresh, keys_nodup _⟩)]
  intro other
  rw [List.mem_cons, mem_keys_remove]
  by_cases heq : other = key
  · simp [heq, h]
  · simp [heq]

end Map

end Wordflow.Library.OrderedMap
