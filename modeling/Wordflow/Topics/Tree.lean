import Mathlib.Data.Finset.Card
import Wordflow.Library.Fallible
import Wordflow.Topics.Hierarchy

namespace Wordflow.Topics

open Library Library.Fallible

variable {Point Embedding Distance : Type} {num : Numerics Point Embedding Distance}

/-- Every merge takes two active nodes, and puts the next node in their place. -/
def Merging (active : Finset Nat) (node : Nat) : List Merge → Prop
  | [] => True
  | m :: rest =>
      m.left ∈ active ∧ m.right ∈ active ∧ m.left ≠ m.right ∧
        Merging (insert node ((active.erase m.left).erase m.right)) (node + 1) rest

/-- The nodes that a list of merges takes. -/
def merged (merges : List Merge) : List Nat := merges.flatMap fun m => [m.left, m.right]

section Merging

variable {active : Finset Nat} {node : Nat} {merges : List Merge}

theorem merged_from (h : Merging active node merges) {taken : Nat} (htaken : taken ∈ merged merges) :
    taken ∈ active ∨ node ≤ taken := by
  induction merges generalizing active node with
  | nil => exact absurd htaken List.not_mem_nil
  | cons m rest ih =>
      obtain ⟨hleft, hright, -, hrest⟩ := h
      rw [merged, List.flatMap_cons, List.mem_append] at htaken
      rcases htaken with htaken | htaken
      · simp only [List.mem_cons, List.not_mem_nil, or_false] at htaken
        rcases htaken with rfl | rfl
        · exact .inl hleft
        · exact .inl hright
      · rcases ih hrest htaken with h | h
        · rcases Finset.mem_insert.mp h with rfl | h
          · exact .inr (Nat.le_refl _)
          · exact .inl (Finset.mem_of_mem_erase (Finset.mem_of_mem_erase h))
        · exact .inr (Nat.le_of_succ_le h)

/-- No node is merged twice. -/
theorem merged_nodup (h : Merging active node merges) (hactive : ∀ x ∈ active, x < node) : (merged merges).Nodup := by
  induction merges generalizing active node with
  | nil => exact List.nodup_nil
  | cons m rest ih =>
      obtain ⟨hleft, hright, hne, hrest⟩ := h
      have hgone : ∀ x, x ∈ active → (x = m.left ∨ x = m.right) → x ∉ merged rest := by
        intro x hx htaken hmem
        rcases merged_from hrest hmem with h | h
        · rcases Finset.mem_insert.mp h with rfl | h
          · exact absurd (hactive _ hx) (Nat.lt_irrefl _)
          · obtain ⟨hxright, h⟩ := Finset.mem_erase.mp h
            exact htaken.elim (Finset.ne_of_mem_erase h) hxright
        · exact absurd (hactive x hx) (Nat.not_lt.mpr (Nat.le_of_succ_le h))
      have hactive' : ∀ x ∈ insert node ((active.erase m.left).erase m.right), x < node + 1 := by
        intro x hx
        rcases Finset.mem_insert.mp hx with rfl | hx
        · exact Nat.lt_succ_self _
        · exact Nat.lt_succ_of_lt (hactive x (Finset.mem_of_mem_erase (Finset.mem_of_mem_erase hx)))
      change (m.left :: m.right :: merged rest).Nodup
      refine List.nodup_cons.mpr ⟨?_, List.nodup_cons.mpr ⟨hgone _ hright (.inr rfl), ih hrest hactive'⟩⟩
      rw [List.mem_cons, not_or]
      exact ⟨hne, hgone _ hleft (.inl rfl)⟩

end Merging

section Rounds

variable {s t : Linkage Distance} {count : Nat}

theorem pairs_pairwise {α : Type} {R : α → α → Prop} {items : List α} (h : items.Pairwise R) {p : α × α}
    (hp : p ∈ pairs items) : p.1 ∈ items ∧ p.2 ∈ items ∧ R p.1 p.2 := by
  induction items with
  | nil => exact absurd hp List.not_mem_nil
  | cons a rest ih =>
      obtain ⟨ha, hrest⟩ := List.pairwise_cons.mp h
      rw [pairs, List.mem_append, List.mem_map] at hp
      rcases hp with ⟨b, hb, rfl⟩ | hp
      · exact ⟨List.mem_cons_self, List.mem_cons_of_mem _ hb, ha b hb⟩
      · obtain ⟨h₁, h₂, hR⟩ := ih hrest hp
        exact ⟨List.mem_cons_of_mem _ h₁, List.mem_cons_of_mem _ h₂, hR⟩

theorem closest_mem {candidates : List (Candidate Distance)} {best : Option (Candidate Distance)}
    {c : Candidate Distance} (h : closest num candidates best = some c) : c ∈ candidates ∨ best = some c := by
  induction candidates generalizing best with
  | nil => exact .inr h
  | cons d rest ih =>
      cases best with
      | none =>
          rcases ih h with h | h
          · exact .inl (List.mem_cons_of_mem _ h)
          · exact .inl (List.mem_cons.mpr (.inl (Option.some.inj h).symm))
      | some b =>
          rcases ih h with h | h
          · exact .inl (List.mem_cons_of_mem _ h)
          · split at h
            · exact .inl (List.mem_cons.mpr (.inl (Option.some.inj h).symm))
            · exact .inr h

/-- A candidate is a pair of distinct active nodes. -/
theorem candidate_active {candidates : List (Candidate Distance)}
    (h : (pairs s.active.entries).mapM (fun pair => candidate s.distances pair.1 pair.2) = .ok candidates)
    {c : Candidate Distance} (hc : c ∈ candidates) :
    c.left ∈ s.active.keys ∧ c.right ∈ s.active.keys ∧ c.left ≠ c.right := by
  obtain ⟨p, hp, hcandidate⟩ := forall₂_mem_right (mapM_eq_ok.mp h) hc
  obtain ⟨h₁, h₂, hlt⟩ := pairs_pairwise s.active.sorted hp
  simp only [candidate] at hcandidate
  split at hcandidate
  · cases hcandidate
  · obtain rfl := Except.ok.inj hcandidate
    exact ⟨List.mem_map_of_mem h₁, List.mem_map_of_mem h₂, hlt.ne⟩

/-- One round merges two active nodes into the next node. -/
theorem mergeClosest_spec (h : mergeClosest num count s = .ok t) :
    ∃ m, t.merges = s.merges ++ [m] ∧ m.left ∈ s.active.keys ∧ m.right ∈ s.active.keys ∧ m.left ≠ m.right ∧
      ∀ x, x ∈ t.active.keys ↔
        x = count + s.merges.length ∨ (x ∈ s.active.keys ∧ x ≠ m.left) ∧ x ≠ m.right := by
  obtain ⟨candidates, hcandidates, h⟩ := bind_eq_ok.mp h
  split at h
  · cases h
  rename_i best hbest
  obtain ⟨hleft, hright, hne⟩ :=
    candidate_active hcandidates ((closest_mem hbest).resolve_right (Option.some_ne_none _).symm)
  split at h
  · cases h
  · cases h
  split at h
  · cases h
  obtain ⟨distances, -, h⟩ := bind_eq_ok.mp h
  obtain rfl := Except.ok.inj h
  refine ⟨_, rfl, hleft, hright, hne, fun x => ?_⟩
  rw [OrderedMap.Map.mem_keys_insert, OrderedMap.Map.mem_keys_remove, OrderedMap.Map.mem_keys_remove]

def activeSet (active : OrderedMap.Map Nat ActiveNode) : Finset Nat := active.keys.toFinset

theorem card_activeSet (active : OrderedMap.Map Nat ActiveNode) : (activeSet active).card = active.size := by
  rw [activeSet, List.toFinset_card_of_nodup active.keys_nodup, OrderedMap.Map.length_keys]

theorem mergeClosest_active (h : mergeClosest num count s = .ok t)
    (hbelow : ∀ x ∈ s.active.keys, x < count + s.merges.length) :
    ∃ m, t.merges = s.merges ++ [m] ∧ m.left ∈ activeSet s.active ∧ m.right ∈ activeSet s.active ∧ m.left ≠ m.right ∧
      activeSet t.active = insert (count + s.merges.length) (((activeSet s.active).erase m.left).erase m.right) ∧
        t.active.size + 1 = s.active.size ∧ ∀ x ∈ t.active.keys, x < count + t.merges.length := by
  obtain ⟨m, hmerges, hleft, hright, hne, hkeys⟩ := mergeClosest_spec h
  have hleft' : m.left ∈ activeSet s.active := List.mem_toFinset.mpr hleft
  have hright' : m.right ∈ (activeSet s.active).erase m.left :=
    Finset.mem_erase.mpr ⟨hne.symm, List.mem_toFinset.mpr hright⟩
  have hactive : activeSet t.active =
      insert (count + s.merges.length) (((activeSet s.active).erase m.left).erase m.right) := by
    ext x
    rw [activeSet, List.mem_toFinset, hkeys x, Finset.mem_insert, Finset.mem_erase, Finset.mem_erase, activeSet,
      List.mem_toFinset]
    tauto
  refine ⟨m, hmerges, hleft', List.mem_toFinset.mpr hright, hne, hactive, ?_, fun x hx => ?_⟩
  · have hfresh : count + s.merges.length ∉ ((activeSet s.active).erase m.left).erase m.right := by
      intro hmem
      have hold := List.mem_toFinset.mp (Finset.mem_of_mem_erase (Finset.mem_of_mem_erase hmem))
      exact absurd (hbelow _ hold) (Nat.lt_irrefl _)
    have h₁ := Finset.card_erase_add_one hleft'
    have h₂ := Finset.card_erase_add_one hright'
    rw [← card_activeSet, ← card_activeSet, hactive, Finset.card_insert_of_notMem hfresh]
    omega
  · rw [hmerges, List.length_append, List.length_singleton]
    rcases (hkeys x).mp hx with rfl | ⟨⟨hx, -⟩, -⟩
    · omega
    · have := hbelow x hx
      omega

/-- All rounds: one merge fewer than there are active nodes. -/
theorem linkage_spec {rounds : Nat} {out : List Merge} (h : linkage num count rounds s = .ok out)
    (hbelow : ∀ x ∈ s.active.keys, x < count + s.merges.length) (hsome : 1 ≤ s.active.size)
    (hrounds : s.active.size ≤ rounds + 1) :
    ∃ rest, out = s.merges ++ rest ∧ rest.length + 1 = s.active.size ∧
      Merging (activeSet s.active) (count + s.merges.length) rest := by
  induction rounds generalizing s with
  | zero =>
      obtain rfl := Except.ok.inj h
      exact ⟨[], (List.append_nil _).symm, Nat.le_antisymm hsome hrounds, trivial⟩
  | succ rounds ih =>
      rw [linkage] at h
      split at h
      · rename_i hone
        obtain rfl := Except.ok.inj h
        exact ⟨[], (List.append_nil _).symm, Nat.le_antisymm hsome hone, trivial⟩
      · rename_i hmore
        cases hround : mergeClosest num count s with
        | error e =>
            rw [hround] at h
            cases h
        | ok t =>
            rw [hround] at h
            obtain ⟨m, hmerges, hleft, hright, hne, hactive, hsize, hbelow'⟩ := mergeClosest_active hround hbelow
            obtain ⟨rest, hout, hlength, hrest⟩ := ih h hbelow' (by omega) (by omega)
            refine ⟨m :: rest, ?_, ?_, hleft, hright, hne, ?_⟩
            · rw [hout, hmerges, List.append_assoc, List.singleton_append]
            · rw [List.length_cons]
              omega
            · rw [hmerges, List.length_append, List.length_singleton, hactive, ← Nat.add_assoc] at hrest
              exact hrest

end Rounds

section Build

variable {leaves : List (Leaf Embedding)} {merges : List Merge}

theorem mem_leafNodes {x : Nat} : x ∈ (leafNodes leaves).keys ↔ x ∈ leaves.map Leaf.id := by
  have hall : ∀ (active : OrderedMap.Map Nat ActiveNode),
      x ∈ (leaves.foldl (fun active leaf => active.insert leaf.id ⟨leaf.id, 1⟩) active).keys ↔
        x ∈ active.keys ∨ x ∈ leaves.map Leaf.id := by
    induction leaves with
    | nil => simp
    | cons leaf rest ih =>
        intro active
        rw [List.foldl_cons, ih, OrderedMap.Map.mem_keys_insert, List.map_cons, List.mem_cons]
        tauto
  exact (hall .empty).trans (or_iff_right List.not_mem_nil)

/-- The tree over the leaves `0..n`. -/
theorem build_spec (h : buildAverageLinkageTree num leaves = .ok merges)
    (hids : leaves.map Leaf.id = List.range leaves.length) (hsome : leaves ≠ []) :
    merges.length + 1 = leaves.length ∧ Merging (Finset.range leaves.length) leaves.length merges := by
  obtain ⟨distances, -, h⟩ := bind_eq_ok.mp h
  have hactive : activeSet (leafNodes leaves) = Finset.range leaves.length := by
    ext x
    rw [activeSet, List.mem_toFinset, mem_leafNodes, hids, List.mem_range, Finset.mem_range]
  have hsize : (leafNodes leaves).size = leaves.length := by
    rw [← card_activeSet, hactive, Finset.card_range]
  have hpos : 1 ≤ leaves.length := List.length_pos_iff.mpr hsome
  obtain ⟨rest, hout, hlength, hrest⟩ := linkage_spec h
    (fun x hx => by simpa [mem_leafNodes, hids] using hx) (by rw [hsize]; exact hpos)
    (by rw [hsize]; exact Nat.le_succ _)
  rw [List.nil_append] at hout
  subst hout
  rw [hactive] at hrest
  exact ⟨hlength.trans hsize, hrest⟩

end Build

end Wordflow.Topics
