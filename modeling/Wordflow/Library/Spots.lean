import Mathlib.Data.List.Nodup

namespace Wordflow.Library.Spots

variable {F G κ κ' : Type*}

/-- An item of a forest with the positions and the names on the way to it. -/
inductive Spot (name : F → κ) (children : F → List F) : List F → List Nat → List κ → F → Prop
  | here {items : List F} {i : Nat} {item : F} (h : items[i]? = some item) :
      Spot name children items [i] [name item] item
  | under {items : List F} {i : Nat} {item target : F} {p : List Nat} {path : List κ} (h : items[i]? = some item)
      (hrest : Spot name children (children item) p path target) :
      Spot name children items (i :: p) (name item :: path) target

/-- A forest in which no two siblings share a name. -/
inductive Distinct (name : F → κ) (children : F → List F) : List F → Prop
  | mk {items : List F} (hnames : (items.map name).Nodup)
      (hbelow : ∀ item ∈ items, Distinct name children (children item)) : Distinct name children items

/-- Two forests with as many items at every position. -/
inductive Alike (children : F → List F) (children' : G → List G) : List F → List G → Prop
  | mk {items : List F} {others : List G} (hlength : items.length = others.length)
      (hbelow : ∀ (i : Nat) (a : F) (b : G), items[i]? = some a → others[i]? = some b → Alike children children' (children a) (children' b)) :
      Alike children children' items others

variable {name : F → κ} {children : F → List F} {name' : G → κ'} {children' : G → List G}
variable {items : List F} {p q : List Nat} {path : List κ} {a b : F}

theorem Spot.path_ne_nil (h : Spot name children items p path a) : path ≠ [] := by
  cases h with
  | here => exact List.cons_ne_nil _ _
  | under => exact List.cons_ne_nil _ _

/-- A path starts with the name of an item of the forest. -/
theorem Spot.head (h : Spot name children items p path a) : ∃ first ∈ items, path.head? = some (name first) := by
  cases h with
  | here h => exact ⟨a, List.mem_of_getElem? h, rfl⟩
  | under h hrest => exact ⟨_, List.mem_of_getElem? h, rfl⟩

theorem Spot.last (h : Spot name children items p path a) : path.dropLast ++ [name a] = path := by
  induction h with
  | here => rfl
  | under h hrest ih => rw [List.dropLast_cons_of_ne_nil hrest.path_ne_nil, List.cons_append, ih]

theorem not_spot_nil : ¬Spot name children [] p path a := by
  intro h
  cases h with
  | here h => simp at h
  | under h hrest => simp at h

/-- What is in a forest is its first item, below its first item, or in the rest. -/
theorem exists_spot_cons {P : List κ → F → Prop} {first : F} :
    (∃ p path b, Spot name children (first :: items) p path b ∧ P path b) ↔
      (P [name first] first ∨ ∃ p path b, Spot name children (children first) p path b ∧ P (name first :: path) b) ∨
        ∃ p path b, Spot name children items p path b ∧ P path b := by
  constructor
  · rintro ⟨p, path, b, hspot, hP⟩
    cases hspot with
    | @here _ i _ h =>
        cases i with
        | zero =>
            cases Option.some.inj h
            exact .inl (.inl hP)
        | succ i => exact .inr ⟨_, _, _, .here (i := i) h, hP⟩
    | @under _ i item _ q rest h hrest =>
        cases i with
        | zero =>
            cases Option.some.inj h
            exact .inl (.inr ⟨_, _, _, hrest, hP⟩)
        | succ i => exact .inr ⟨_, _, _, .under (i := i) h hrest, hP⟩
  · rintro ((hP | ⟨p, path, b, hspot, hP⟩) | ⟨p, path, b, hspot, hP⟩)
    · exact ⟨[0], _, _, .here rfl, hP⟩
    · exact ⟨0 :: p, _, _, .under rfl hspot, hP⟩
    · cases hspot with
      | @here _ i _ h => exact ⟨[i + 1], _, _, .here h, hP⟩
      | @under _ i item _ q rest h hrest => exact ⟨(i + 1) :: q, _, _, .under h hrest, hP⟩

/-- A position leads to one item. -/
theorem Spot.same_position {path' : List κ} (h : Spot name children items p path a)
    (h' : Spot name children items p path' b) : path = path' ∧ a = b := by
  induction h generalizing path' with
  | here h =>
      cases h' with
      | here h' =>
          cases h.symm.trans h'
          exact ⟨rfl, rfl⟩
      | under h' hrest => nomatch hrest
  | under h hrest ih =>
      cases h' with
      | here h' => nomatch hrest
      | under h' hrest' =>
          cases h.symm.trans h'
          obtain ⟨rfl, rfl⟩ := ih hrest'
          exact ⟨rfl, rfl⟩

theorem Distinct.index {i j : Nat} (hd : Distinct name children items) (ha : items[i]? = some a)
    (hb : items[j]? = some b) (h : name a = name b) : i = j := by
  cases hd with
  | mk hnames hbelow =>
      obtain ⟨hi, rfl⟩ := List.getElem?_eq_some_iff.mp ha
      obtain ⟨hj, rfl⟩ := List.getElem?_eq_some_iff.mp hb
      have hsame : (items.map name).get ⟨i, by simpa using hi⟩ = (items.map name).get ⟨j, by simpa using hj⟩ := by simpa using h
      exact (List.Nodup.getElem_inj_iff hnames).mp hsame

theorem Distinct.child {i : Nat} (hd : Distinct name children items) (h : items[i]? = some a) :
    Distinct name children (children a) := by
  cases hd with
  | mk hnames hbelow => exact hbelow a (List.mem_of_getElem? h)

/-- Among distinct siblings the names lead to one position. -/
theorem Spot.same_path {path' : List κ} (hd : Distinct name children items) (h : Spot name children items p path a)
    (h' : Spot name children items q path' b) (hpath : path = path') : p = q ∧ a = b := by
  induction h generalizing q path' with
  | here h =>
      cases h' with
      | here h' =>
          have hindex := hd.index h h' (List.cons.inj hpath).1
          subst hindex
          exact ⟨rfl, Option.some.inj (h.symm.trans h')⟩
      | under h' hrest => exact absurd (List.cons.inj hpath).2.symm hrest.path_ne_nil
  | under h hrest ih =>
      cases h' with
      | here h' => exact absurd (List.cons.inj hpath).2 hrest.path_ne_nil
      | under h' hrest' =>
          obtain ⟨hname, htail⟩ := List.cons.inj hpath
          have hindex := hd.index h h' hname
          subst hindex
          cases h.symm.trans h'
          obtain ⟨rfl, rfl⟩ := ih (hd.child h) hrest' htail
          exact ⟨rfl, rfl⟩

theorem Alike.symm {others : List G} (h : Alike children children' items others) :
    Alike children' children others items := by
  induction h with
  | mk hlength hbelow ih => exact .mk hlength.symm fun i a b ha hb => ih i b a hb ha

/-- Forests alike have the same positions. -/
theorem Spot.alike {others : List G} (h : Spot name children items p path a) (hs : Alike children children' items others) :
    ∃ path' b, Spot name' children' others p path' b := by
  induction h generalizing others with
  | @here items i item h =>
      cases hs with
      | mk hlength hbelow =>
          have hlt : i < others.length := hlength ▸ (List.getElem?_eq_some_iff.mp h).1
          exact ⟨_, _, .here (List.getElem?_eq_getElem hlt)⟩
  | @under items i item target p path h hrest ih =>
      cases hs with
      | mk hlength hbelow =>
          have hlt : i < others.length := hlength ▸ (List.getElem?_eq_some_iff.mp h).1
          obtain ⟨path', b, hspot⟩ := ih (hbelow i item _ h (List.getElem?_eq_getElem hlt))
          exact ⟨_, _, .under (List.getElem?_eq_getElem hlt) hspot⟩

section Map

variable {g : List κ → F → F} {parent : List κ}

/-- A change of every item that keeps its name and reaches its children keeps the positions and the names. -/
theorem Spot.map (hname : ∀ parent a, name (g parent a) = name a)
    (hchildren : ∀ parent a, children (g parent a) = (children a).map (g (parent ++ [name a])))
    (h : Spot name children items p path a) :
    Spot name children (items.map (g parent)) p path (g (parent ++ path.dropLast) a) := by
  induction h generalizing parent with
  | @here items i item h =>
      have hitem : (items.map (g parent))[i]? = some (g parent item) := by rw [List.getElem?_map, h, Option.map_some]
      have hspot := @Spot.here F _ name children _ _ _ hitem
      rw [hname] at hspot
      simpa using hspot
  | @under items i item target p path h hrest ih =>
      have hitem : (items.map (g parent))[i]? = some (g parent item) := by rw [List.getElem?_map, h, Option.map_some]
      have hbelow := @ih (parent ++ [name item])
      rw [← hchildren] at hbelow
      have hspot := Spot.under hitem hbelow
      rw [hname] at hspot
      simpa [List.dropLast_cons_of_ne_nil hrest.path_ne_nil] using hspot

theorem Spot.of_map (hname : ∀ parent a, name (g parent a) = name a)
    (hchildren : ∀ parent a, children (g parent a) = (children a).map (g (parent ++ [name a])))
    (h : Spot name children (items.map (g parent)) p path b) :
    ∃ a, Spot name children items p path a ∧ b = g (parent ++ path.dropLast) a := by
  generalize hmapped : items.map (g parent) = mapped at h
  induction h generalizing items parent with
  | @here mapped i item h =>
      subst hmapped
      obtain ⟨a, ha, rfl⟩ := Option.map_eq_some_iff.mp (List.getElem?_map .. ▸ h)
      rw [hname]
      exact ⟨a, .here ha, by simp⟩
  | @under mapped i item target p path h hrest ih =>
      subst hmapped
      obtain ⟨a, ha, rfl⟩ := Option.map_eq_some_iff.mp (List.getElem?_map .. ▸ h)
      obtain ⟨b, hb, rfl⟩ := ih (hchildren parent a).symm
      rw [hname]
      exact ⟨b, .under ha hb, by simp [List.dropLast_cons_of_ne_nil hrest.path_ne_nil]⟩

end Map

end Wordflow.Library.Spots
