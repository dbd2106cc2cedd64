import Mathlib.Data.List.GetD
import Wordflow.Library.Cut
import Wordflow.Topics.Tree

namespace Wordflow.Topics

open Library Library.Fallible Library.Cut

variable {Point Embedding Distance : Type} {num : Numerics Point Embedding Distance}
  {context : TopicProjectionContext Embedding}

def Forest.leavesOf (f : Forest) (node : Nat) : List Nat := f.members.getD node []

def Forest.size (f : Forest) : Nat := f.active.size

/-- The merges ahead speak of earlier nodes. -/
def Ahead : Nat → List Merge → Prop
  | _, [] => True
  | node, m :: rest => m.left < node ∧ m.right < node ∧ m.left ≠ m.right ∧ Ahead (node + 1) rest

theorem Merging.ahead {active : Finset Nat} {node : Nat} {merges : List Merge} (h : Merging active node merges)
    (hactive : ∀ x ∈ active, x < node) : Ahead node merges := by
  induction merges generalizing active node with
  | nil => trivial
  | cons m rest ih =>
      obtain ⟨hleft, hright, hne, hrest⟩ := h
      refine ⟨hactive _ hleft, hactive _ hright, hne, ih hrest fun x hx => ?_⟩
      rcases Finset.mem_insert.mp hx with rfl | hx
      · exact Nat.lt_succ_self _
      · exact Nat.lt_succ_of_lt (hactive x (Finset.mem_of_mem_erase (Finset.mem_of_mem_erase hx)))

/-- The active nodes share the leaves out, and those that merge others keep to
the segment cap. -/
structure Valid (context : TopicProjectionContext Embedding) (f : Forest) : Prop where
  below : ∀ node ∈ f.active.keys, node < f.members.length
  nonempty : ∀ leaves ∈ f.members, leaves ≠ []
  shared : (f.active.keys.flatMap f.leavesOf).Perm (List.range context.naturalClusterCount)
  capped : ∀ node ∈ f.active.keys, 2 ≤ (f.leavesOf node).length → ∀ maximum,
    context.maximumTopicSize = some maximum → segmentsOf context (f.leavesOf node) ≤ maximum

section Join

variable {f g : Forest} {m : Merge}

theorem leavesOf_of_lt {node : Nat} {leaves : List Nat} (hmembers : g.members = f.members ++ [leaves])
    (h : node < f.members.length) : g.leavesOf node = f.leavesOf node := by
  rw [Forest.leavesOf, hmembers, List.getD_append _ _ _ _ h]
  rfl

theorem leavesOf_last {leaves : List Nat} (hmembers : g.members = f.members ++ [leaves]) :
    g.leavesOf f.members.length = leaves := by
  rw [Forest.leavesOf, hmembers, List.getD_append_right _ _ _ _ (Nat.le_refl _)]
  simp

/-- The two outcomes of a merge. -/
theorem joinMerge_spec (hleft : m.left < f.members.length) (hright : m.right < f.members.length) :
    ∃ g, joinMerge context f.members.length m f = .ok g ∧
      g.members = f.members ++ [f.leavesOf m.left ++ f.leavesOf m.right] ∧
      (g.active = f.active ∧
          (m.left ∈ f.active.keys → m.right ∈ f.active.keys →
            exceeds context (segmentsOf context (f.leavesOf m.left ++ f.leavesOf m.right)) = true) ∨
        m.left ∈ f.active.keys ∧ m.right ∈ f.active.keys ∧
          exceeds context (segmentsOf context (f.leavesOf m.left ++ f.leavesOf m.right)) = false ∧
            g.active = ((f.active.remove m.left).remove m.right).insert f.members.length ()) := by
  have hl : f.members[m.left]? = some (f.leavesOf m.left) := by
    rw [Forest.leavesOf, List.getD_eq_getElem _ _ hleft, List.getElem?_eq_getElem hleft]
  have hr : f.members[m.right]? = some (f.leavesOf m.right) := by
    rw [Forest.leavesOf, List.getD_eq_getElem _ _ hright, List.getElem?_eq_getElem hright]
  simp only [joinMerge, hl, hr, ne_eq, not_true_eq_false, if_false]
  split
  · rename_i hinactive
    refine ⟨_, rfl, rfl, .inl ⟨rfl, fun hleft hright => ?_⟩⟩
    rw [← OrderedMap.Map.contains_iff] at hleft hright
    rcases hinactive with h | h
    · rw [hleft] at h
      cases h
    · rw [hright] at h
      cases h
  · rename_i hactive
    rw [not_or, Bool.not_eq_false, Bool.not_eq_false, OrderedMap.Map.contains_iff, OrderedMap.Map.contains_iff]
      at hactive
    split
    · rename_i hexceeds
      exact ⟨_, rfl, rfl, .inl ⟨rfl, fun _ _ => hexceeds⟩⟩
    · rename_i hfits
      exact ⟨_, rfl, rfl, .inr ⟨hactive.1, hactive.2, Bool.eq_false_iff.mpr hfits, rfl⟩⟩

/-- Taking a merge puts one node in the place of two. -/
theorem keys_join (hvalid : Valid context f) (hleft : m.left ∈ f.active.keys) (hright : m.right ∈ f.active.keys)
    (hne : m.left ≠ m.right) : ∃ others, f.active.keys.Perm (m.left :: m.right :: others) ∧
      (((f.active.remove m.left).remove m.right).insert f.members.length ()).keys.Perm (f.members.length :: others) := by
  have hright' : m.right ∈ (f.active.remove m.left).keys := OrderedMap.Map.mem_keys_remove.mpr ⟨hright, hne.symm⟩
  have hfresh : f.members.length ∉ ((f.active.remove m.left).remove m.right).keys := by
    intro hmem
    have hold := (OrderedMap.Map.mem_keys_remove.mp (OrderedMap.Map.mem_keys_remove.mp hmem).1).1
    exact absurd (hvalid.below _ hold) (Nat.lt_irrefl _)
  refine ⟨((f.active.remove m.left).remove m.right).keys, ?_, OrderedMap.Map.keys_insert_perm hfresh⟩
  exact (OrderedMap.Map.keys_remove_perm hleft).trans ((OrderedMap.Map.keys_remove_perm hright').cons _)

def join (context : TopicProjectionContext Embedding) (f : Forest) (m : Merge) : Forest :=
  ((joinMerge context f.members.length m f).toOption).getD f

def Good (context : TopicProjectionContext Embedding) (f : Forest) (merges : List Merge) : Prop :=
  Valid context f ∧ Ahead f.members.length merges

variable {rest : List Merge}

theorem join_spec (h : Good context f (m :: rest)) :
    joinMerge context f.members.length m f = .ok (join context f m) ∧
      (join context f m).members = f.members ++ [f.leavesOf m.left ++ f.leavesOf m.right] ∧
      ((join context f m).active = f.active ∧
          (m.left ∈ f.active.keys → m.right ∈ f.active.keys →
            exceeds context (segmentsOf context (f.leavesOf m.left ++ f.leavesOf m.right)) = true) ∨
        (m.left ∈ f.active.keys ∧ m.right ∈ f.active.keys ∧
          exceeds context (segmentsOf context (f.leavesOf m.left ++ f.leavesOf m.right)) = false ∧
            ∃ others, f.active.keys.Perm (m.left :: m.right :: others) ∧
              (join context f m).active.keys.Perm (f.members.length :: others))) := by
  obtain ⟨hvalid, hleft, hright, hne, -⟩ := h
  obtain ⟨g, hg, hmembers, hactive⟩ := joinMerge_spec hleft hright
  have hjoin : join context f m = g := by
    rw [join, hg]
    rfl
  rw [hjoin]
  refine ⟨hg, hmembers, hactive.imp_right ?_⟩
  rintro ⟨hl, hr, hfits, hactive⟩
  rw [hactive]
  exact ⟨hl, hr, hfits, keys_join hvalid hl hr hne⟩

theorem join_good (h : Good context f (m :: rest)) : Good context (join context f m) rest := by
  obtain ⟨-, hmembers, hactive⟩ := join_spec h
  obtain ⟨hvalid, hleft, hright, hne, hahead⟩ := h
  have hold : ∀ node ∈ f.active.keys, (join context f m).leavesOf node = f.leavesOf node :=
    fun node hnode => leavesOf_of_lt hmembers (hvalid.below node hnode)
  have hlength : (join context f m).members.length = f.members.length + 1 := by
    rw [hmembers, List.length_append, List.length_singleton]
  have hpart : ∀ {node}, node < f.members.length → f.leavesOf node ≠ [] := by
    intro node hnode
    rw [Forest.leavesOf, List.getD_eq_getElem _ _ hnode]
    exact hvalid.nonempty _ (List.getElem_mem hnode)
  refine ⟨⟨fun node hnode => ?_, fun leaves hleaves => ?_, ?_, fun node hnode => ?_⟩, ?_⟩
  · rw [hlength]
    rcases hactive with ⟨hsame, -⟩ | ⟨-, -, -, others, hbefore, hafter⟩
    · rw [hsame] at hnode
      exact Nat.lt_succ_of_lt (hvalid.below node hnode)
    · rcases List.mem_cons.mp (hafter.subset hnode) with rfl | hnode
      · exact Nat.lt_succ_self _
      · exact Nat.lt_succ_of_lt (hvalid.below node
          (hbefore.symm.subset (List.mem_cons_of_mem _ (List.mem_cons_of_mem _ hnode))))
  · rw [hmembers, List.mem_append, List.mem_singleton] at hleaves
    rcases hleaves with hleaves | rfl
    · exact hvalid.nonempty leaves hleaves
    · exact List.append_ne_nil_of_left_ne_nil (hpart hleft) _
  · rcases hactive with ⟨hsame, -⟩ | ⟨-, -, -, others, hbefore, hafter⟩
    · rw [hsame, List.flatMap_congr hold]
      exact hvalid.shared
    · have hothers : others.flatMap (join context f m).leavesOf = others.flatMap f.leavesOf :=
        List.flatMap_congr fun node hnode =>
          hold node (hbefore.symm.subset (List.mem_cons_of_mem _ (List.mem_cons_of_mem _ hnode)))
      refine (hafter.flatMap_right _).trans (List.Perm.trans ?_ hvalid.shared)
      refine List.Perm.trans ?_ (hbefore.flatMap_right _).symm
      rw [List.flatMap_cons, List.flatMap_cons, List.flatMap_cons, leavesOf_last hmembers, hothers, List.append_assoc]
  · rcases hactive with ⟨hsame, -⟩ | ⟨-, -, hfits, others, hbefore, hafter⟩
    · rw [hsame] at hnode
      rw [hold node hnode]
      exact hvalid.capped node hnode
    · rcases List.mem_cons.mp (hafter.subset hnode) with rfl | hnode
      · intro _ maximum hmaximum
        rw [leavesOf_last hmembers]
        simpa [exceeds, hmaximum] using hfits
      · have hnode' := hbefore.symm.subset (List.mem_cons_of_mem _ (List.mem_cons_of_mem _ hnode))
        rw [hold node hnode']
        exact hvalid.capped node hnode'
  · rw [hlength]
    exact hahead

theorem join_size (h : Good context f (m :: rest)) :
    (join context f m).active = f.active ∨ (join context f m).size + 1 = f.size := by
  obtain ⟨-, -, hactive⟩ := join_spec h
  rcases hactive with ⟨hsame, -⟩ | ⟨-, -, -, others, hbefore, hafter⟩
  · exact .inl hsame
  · right
    have h₁ := hbefore.length_eq
    have h₂ := hafter.length_eq
    simp only [List.length_cons, OrderedMap.Map.length_keys] at h₁ h₂
    rw [Forest.size, Forest.size]
    omega

theorem shrinking (context : TopicProjectionContext Embedding) :
    Shrinking (join context) Forest.size (Good context) where
  good := join_good
  le h := by
    rcases join_size h with h | h
    · rw [Forest.size, Forest.size, h]
    · omega
  ge h := by
    rcases join_size h with h | h
    · rw [Forest.size, Forest.size, h]
      exact Nat.le_succ _
    · omega

/-- The walk of the code is the cut of the library. -/
theorem cutLoop_eq {k index : Nat} {merges : List Merge} (h : Good context f merges)
    (hindex : f.members.length = context.naturalClusterCount + index) :
    cutLoop context k index merges f = .ok (cut (join context) Forest.size k f merges) := by
  induction merges generalizing f index with
  | nil => rfl
  | cons m rest ih =>
      rw [cutLoop]
      split
      · rename_i hsmall
        rw [cut_of_le (show f.size ≤ k from hsmall)]
      · rename_i hlarge
        obtain ⟨hjoin, hmembers, -⟩ := join_spec h
        rw [← hindex, hjoin, cut_of_lt (show k < f.size from Nat.not_le.mp hlarge)]
        refine ih (join_good h) ?_
        rw [hmembers, List.length_append, List.length_singleton, hindex, Nat.add_assoc]

end Join

end Wordflow.Topics
