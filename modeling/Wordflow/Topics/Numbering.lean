import Mathlib.Data.List.Pairwise
import Wordflow.Topics.Cuts

namespace Wordflow.Topics

open Library Library.Fallible

variable {Embedding : Type} {context : TopicProjectionContext Embedding} {f : Forest}

/-- The ids that a cut assigns: the nodes in the order of their smallest
leaves, each leaf under the number of its node. -/
structure Numbered (f : Forest) (ordered : List (Nat × Nat)) (ids : List Int) : Prop where
  nodes : (ordered.map Prod.snd).Perm f.active.keys
  minimum : ∀ p ∈ ordered, (f.leavesOf p.2).min? = some p.1
  sorted : ordered.Pairwise fun p q => p.1 < q.1
  numbers : ∀ i (h : i < ordered.length), ∀ leaf ∈ f.leavesOf ordered[i].2, ids[leaf]? = some (i : Int)

section Order

variable {ordered : List (Nat × Nat)}

instance : Std.Total Precedes := ⟨fun a b => by unfold Precedes; omega⟩

instance : IsTrans (Nat × Nat) Precedes := ⟨fun a b c => by unfold Precedes; omega⟩

theorem minimum_some {leaves : List Nat} (h : leaves ≠ []) : ∃ minimum, leaves.min? = some minimum := by
  cases hmin : leaves.min? with
  | none => exact absurd (List.min?_eq_none_iff.mp hmin) h
  | some minimum => exact ⟨minimum, rfl⟩

/-- Nodes that share no leaf have different smallest leaves. -/
theorem orderedNodes_spec (hvalid : Valid context f) : ∃ ordered, orderedNodes f = .ok ordered ∧
    (ordered.map Prod.snd).Perm f.active.keys ∧ (∀ p ∈ ordered, (f.leavesOf p.2).min? = some p.1) ∧
      ordered.Pairwise fun p q => p.1 < q.1 := by
  have hminimum : ∀ node ∈ f.active.keys, ∃ minimum, (f.leavesOf node).min? = some minimum := by
    intro node hnode
    have hlt := hvalid.below node hnode
    rw [Forest.leavesOf, List.getD_eq_getElem _ _ hlt]
    exact minimum_some (hvalid.nonempty _ (List.getElem_mem hlt))
  have hordered : orderedNodes f =
      .ok ((f.active.keys.map fun node => ((f.leavesOf node).min?.getD 0, node)).insertionSort Precedes) := by
    refine bind_eq_ok.mpr ⟨f.active.keys.map fun node => ((f.leavesOf node).min?.getD 0, node), ?_, rfl⟩
    rw [mapM_eq_ok, List.forall₂_map_right_iff, List.forall₂_same]
    intro node hnode
    obtain ⟨minimum, hmin⟩ := hminimum node hnode
    rw [hmin]
    rw [Forest.leavesOf] at hmin
    rw [hmin]
    rfl
  have hperm := List.perm_insertionSort Precedes (f.active.keys.map fun node => ((f.leavesOf node).min?.getD 0, node))
  have hall : ∀ p ∈ (f.active.keys.map fun node => ((f.leavesOf node).min?.getD 0, node)).insertionSort Precedes,
      p.2 ∈ f.active.keys ∧ (f.leavesOf p.2).min? = some p.1 := by
    intro p hp
    obtain ⟨node, hnode, rfl⟩ := List.mem_map.mp (hperm.subset hp)
    obtain ⟨minimum, hmin⟩ := hminimum node hnode
    exact ⟨hnode, by rw [hmin]; rfl⟩
  have hnodes : (((f.active.keys.map fun node => ((f.leavesOf node).min?.getD 0, node)).insertionSort
      Precedes).map Prod.snd).Perm f.active.keys := by
    have h := hperm.map Prod.snd
    rwa [List.map_map, show Prod.snd ∘ (fun node => ((f.leavesOf node).min?.getD 0, node)) = id from rfl,
      List.map_id] at h
  refine ⟨_, hordered, hnodes, fun p hp => (hall p hp).2, ?_⟩
  · have hdistinct : (((f.active.keys.map fun node => ((f.leavesOf node).min?.getD 0, node)).insertionSort
        Precedes)).Pairwise fun p q => p.2 ≠ q.2 := by
      have h := hnodes.nodup_iff.mpr f.active.keys_nodup
      rwa [List.nodup_iff_pairwise_ne, List.pairwise_map] at h
    have hsorted := List.pairwise_insertionSort Precedes
      (f.active.keys.map fun node => ((f.leavesOf node).min?.getD 0, node))
    refine (hsorted.and hdistinct).imp_of_mem fun {p q} hp hq hpq => ?_
    obtain ⟨hprecedes, hne⟩ := hpq
    rcases hprecedes with h | ⟨h, -⟩
    · exact h
    · exfalso
      obtain ⟨hpnode, hpmin⟩ := hall p hp
      obtain ⟨hqnode, hqmin⟩ := hall q hq
      have hpleaf := List.min?_mem hpmin
      have hqleaf := List.min?_mem hqmin
      have hnodup : (f.active.keys.flatMap f.leavesOf).Nodup := hvalid.shared.nodup_iff.mpr List.nodup_range
      have : Std.Symm (Function.onFun List.Disjoint f.leavesOf) := ⟨fun _ _ hdisjoint => hdisjoint.symm⟩
      have hdisjoint := (List.nodup_flatMap.mp hnodup).2.forall hpnode hqnode hne
      rw [h] at hpleaf
      exact hdisjoint hpleaf hqleaf

end Order

section Numbers

theorem getElem?_foldl_set {leaves : List Nat} {value : Int} {projected : List Int} {leaf : Nat} :
    (leaves.foldl (fun projected leaf => projected.set leaf value) projected)[leaf]? =
      if leaf ∈ leaves ∧ leaf < projected.length then some value else projected[leaf]? := by
  induction leaves generalizing projected with
  | nil => simp
  | cons first rest ih =>
      rw [List.foldl_cons, ih, List.length_set, List.getElem?_set]
      simp only [List.mem_cons]
      by_cases hfirst : first = leaf
      · subst hfirst
        by_cases hlt : first < projected.length <;> simp [hlt]
      · simp [hfirst, Ne.symm hfirst]

theorem length_foldl_set {leaves : List Nat} {value : Int} {projected : List Int} :
    (leaves.foldl (fun projected leaf => projected.set leaf value) projected).length = projected.length := by
  induction leaves generalizing projected with
  | nil => rfl
  | cons first rest ih => rw [List.foldl_cons, ih, List.length_set]

/-- Each topic writes its number, and no later one writes over it. -/
theorem numberLeaves_spec {ordered : List (Nat × Nat)} {start : Nat} {projected : List Int}
    (hbound : start + ordered.length ≤ i32Max + 1) :
    ∃ ids, numberLeaves f start ordered projected = .ok ids ∧ ids.length = projected.length ∧
      (∀ leaf, leaf ∉ ordered.flatMap (fun p => f.leavesOf p.2) → ids[leaf]? = projected[leaf]?) ∧
        ((ordered.flatMap fun p => f.leavesOf p.2).Nodup → ∀ i (h : i < ordered.length),
          ∀ leaf ∈ f.leavesOf ordered[i].2, leaf < projected.length → ids[leaf]? = some ((start + i : Nat) : Int)) := by
  induction ordered generalizing start projected with
  | nil =>
      refine ⟨projected, rfl, rfl, fun _ _ => rfl, fun _ i h => ?_⟩
      simp at h
  | cons p rest ih =>
      rw [List.length_cons] at hbound
      obtain ⟨ids, hids, hlength, houtside, hinside⟩ := @ih (start + 1)
        ((f.leavesOf p.2).foldl (fun projected leaf => projected.set leaf (start : Int)) projected) (by omega)
      rw [length_foldl_set] at hlength
      refine ⟨ids, ?_, hlength, fun leaf hleaf => ?_, fun hnodup i hi leaf hleaf hlt => ?_⟩
      · rw [numberLeaves, if_neg (by omega)]
        exact hids
      · rw [List.flatMap_cons, List.mem_append, not_or] at hleaf
        rw [houtside leaf hleaf.2, getElem?_foldl_set, if_neg fun h => hleaf.1 h.1]
      · rw [List.flatMap_cons, List.nodup_append'] at hnodup
        obtain ⟨-, hnodup, hdisjoint⟩ := hnodup
        cases i with
        | zero =>
            rw [List.getElem_cons_zero] at hleaf
            rw [houtside leaf (hdisjoint hleaf), getElem?_foldl_set, if_pos ⟨hleaf, hlt⟩, Nat.add_zero]
        | succ i =>
            rw [List.getElem_cons_succ] at hleaf
            rw [hinside hnodup i (Nat.lt_of_succ_lt_succ hi) leaf hleaf (by rwa [length_foldl_set])]
            congr 2
            omega

theorem forest_numbered (hvalid : Valid context f) (hsize : f.size ≤ i32Max + 1) :
    ∃ ordered ids, (orderedNodes f).bind (fun ordered =>
        numberLeaves f 0 ordered (List.replicate context.naturalClusterCount outlierLabel)) = .ok ids ∧
      ids.length = context.naturalClusterCount ∧ Numbered f ordered ids := by
  obtain ⟨ordered, hordered, hnodes, hminimum, hsorted⟩ := orderedNodes_spec hvalid
  have hlength : ordered.length = f.size := by
    rw [← List.length_map Prod.snd, hnodes.length_eq, OrderedMap.Map.length_keys]
    rfl
  obtain ⟨ids, hids, hidsLength, -, hinside⟩ := @numberLeaves_spec f ordered 0
    (List.replicate context.naturalClusterCount outlierLabel) (by omega)
  rw [List.length_replicate] at hidsLength
  have hperm : (ordered.flatMap fun p => f.leavesOf p.2).Perm (List.range context.naturalClusterCount) := by
    rw [show (ordered.flatMap fun p => f.leavesOf p.2) = (ordered.map Prod.snd).flatMap f.leavesOf from
      (List.flatMap_map ..).symm]
    exact (hnodes.flatMap_right _).trans hvalid.shared
  refine ⟨ordered, ids, ?_, hidsLength, hnodes, hminimum, hsorted, fun i hi leaf hleaf => ?_⟩
  · rw [hordered]
    exact hids
  · have hlt : leaf < context.naturalClusterCount :=
      List.mem_range.mp (hperm.subset (List.mem_flatMap.mpr ⟨_, List.getElem_mem hi, hleaf⟩))
    have h := hinside (hperm.nodup_iff.mpr List.nodup_range) i hi leaf hleaf (by rwa [List.length_replicate])
    rwa [Nat.zero_add] at h

end Numbers

end Wordflow.Topics
