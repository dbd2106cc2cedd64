import Wordflow.Topics.Numbering

namespace Wordflow.Topics

open Library Library.Fallible Library.Cut

variable {Point Embedding Distance : Type} {num : Numerics Point Embedding Distance}
  {context : TopicProjectionContext Embedding}

/-- What the preparation of a context establishes about its tree. -/
structure Fitted (context : TopicProjectionContext Embedding) : Prop where
  ids : context.leaves.map Leaf.id = List.range context.naturalClusterCount
  some : context.naturalClusterCount ≠ 0
  few : context.naturalClusterCount ≤ i32Max + 1
  length : context.merges.length + 1 = context.naturalClusterCount
  merging : Merging (Finset.range context.naturalClusterCount) context.naturalClusterCount context.merges

def cutAt (context : TopicProjectionContext Embedding) (k : Nat) : Forest :=
  cut (join context) Forest.size k (leafForest context.naturalClusterCount) context.merges

section Start

theorem mem_leafForest {n node : Nat} : node ∈ (leafForest n).active.keys ↔ node < n := by
  have hall : ∀ (leaves : List Nat) (active : OrderedMap.Map Nat Unit),
      node ∈ (leaves.foldl (fun active leaf => active.insert leaf ()) active).keys ↔ node ∈ active.keys ∨ node ∈ leaves := by
    intro leaves
    induction leaves with
    | nil => simp
    | cons leaf rest ih =>
        intro active
        rw [List.foldl_cons, ih, OrderedMap.Map.mem_keys_insert, List.mem_cons]
        tauto
  rw [leafForest, hall, List.mem_range]
  exact or_iff_right List.not_mem_nil

theorem leafForest_keys (n : Nat) : (leafForest n).active.keys.Perm (List.range n) := by
  rw [List.perm_ext_iff_of_nodup (OrderedMap.Map.keys_nodup _) List.nodup_range]
  intro node
  rw [mem_leafForest, List.mem_range]

theorem leafForest_size (n : Nat) : (leafForest n).size = n := by
  rw [Forest.size, ← OrderedMap.Map.length_keys, (leafForest_keys n).length_eq, List.length_range]

theorem leafForest_leavesOf {n leaf : Nat} (h : leaf < n) : (leafForest n).leavesOf leaf = [leaf] := by
  rw [Forest.leavesOf, leafForest, List.getD_eq_getElem _ _ (by simpa using h)]
  simp

theorem leafForest_good (h : Fitted context) :
    Good context (leafForest context.naturalClusterCount) context.merges := by
  have hlength : (leafForest context.naturalClusterCount).members.length = context.naturalClusterCount := by
    simp [leafForest]
  refine ⟨⟨fun node hnode => ?_, fun leaves hleaves => ?_, ?_, fun node hnode hmany => ?_⟩, ?_⟩
  · rw [hlength]
    exact mem_leafForest.mp hnode
  · obtain ⟨leaf, -, rfl⟩ := List.mem_map.mp hleaves
    exact List.cons_ne_nil _ _
  · have hsingle : (List.range context.naturalClusterCount).flatMap
        (leafForest context.naturalClusterCount).leavesOf = List.range context.naturalClusterCount := by
      rw [List.flatMap_congr fun leaf hleaf => leafForest_leavesOf (List.mem_range.mp hleaf)]
      exact List.flatMap_singleton' _
    exact ((leafForest_keys _).flatMap_right _).trans (List.Perm.of_eq hsingle)
  · rw [leafForest_leavesOf (mem_leafForest.mp hnode)] at hmany
    exact absurd hmany (by simp)
  · rw [hlength]
    exact h.merging.ahead fun x hx => Finset.mem_range.mp hx

end Start

section Cuts

variable {k l : Nat}

theorem cutAt_valid (h : Fitted context) (k : Nat) : Valid context (cutAt context k) := by
  obtain ⟨rest, hgood⟩ := cut_good (shrinking context) (leafForest_good h) (k := k)
  exact hgood.1

theorem le_size_cutAt (h : Fitted context) (hk : k ≤ context.naturalClusterCount) : k ≤ (cutAt context k).size :=
  le_size_cut (shrinking context) (leafForest_good h) (by rwa [leafForest_size])

theorem size_cutAt_le (h : Fitted context) (k : Nat) : (cutAt context k).size ≤ context.naturalClusterCount := by
  have := size_cut_le (k := k) (shrinking context) (leafForest_good h)
  rwa [leafForest_size] at this

/-- Every node of one cut lies within a node of the other. -/
def Coarser (f g : Forest) : Prop :=
  ∀ node ∈ f.active.keys, ∃ node' ∈ g.active.keys, ∀ leaf ∈ f.leavesOf node, leaf ∈ g.leavesOf node'

def SameTopics (f g : Forest) : Prop :=
  g.active = f.active ∧ ∀ node ∈ f.active.keys, g.leavesOf node = f.leavesOf node

theorem coarser_refl (f : Forest) : Coarser f f := fun node hnode => ⟨node, hnode, fun _ h => h⟩

theorem coarser_trans {f g h : Forest} (hfg : Coarser f g) (hgh : Coarser g h) : Coarser f h := by
  intro node hnode
  obtain ⟨node', hnode', hsub⟩ := hfg node hnode
  obtain ⟨node'', hnode'', hsub'⟩ := hgh node' hnode'
  exact ⟨node'', hnode'', fun leaf hleaf => hsub' leaf (hsub leaf hleaf)⟩

theorem sameTopics_refl (f : Forest) : SameTopics f f := ⟨rfl, fun _ _ => rfl⟩

theorem sameTopics_trans {f g h : Forest} (hfg : SameTopics f g) (hgh : SameTopics g h) : SameTopics f h := by
  refine ⟨hgh.1.trans hfg.1, fun node hnode => ?_⟩
  rw [hgh.2 node (by rwa [hfg.1]), hfg.2 node hnode]

theorem join_coarser {f : Forest} {m : Merge} {rest : List Merge} (h : Good context f (m :: rest)) :
    Coarser f (join context f m) := by
  obtain ⟨-, hmembers, hactive⟩ := join_spec h
  intro node hnode
  have hold := leavesOf_of_lt hmembers (h.1.below node hnode)
  rcases hactive with ⟨hsame, -⟩ | ⟨-, -, -, others, hbefore, hafter⟩
  · refine ⟨node, by rwa [hsame], fun leaf hleaf => ?_⟩
    rwa [hold]
  · have hnew : f.members.length ∈ (join context f m).active.keys := hafter.symm.subset List.mem_cons_self
    rcases List.mem_cons.mp (hbefore.subset hnode) with rfl | hnode'
    · refine ⟨_, hnew, fun leaf hleaf => ?_⟩
      rw [leavesOf_last hmembers]
      exact List.mem_append_left _ hleaf
    rcases List.mem_cons.mp hnode' with rfl | hnode'
    · refine ⟨_, hnew, fun leaf hleaf => ?_⟩
      rw [leavesOf_last hmembers]
      exact List.mem_append_right _ hleaf
    · refine ⟨node, hafter.symm.subset (List.mem_cons_of_mem _ hnode'), fun leaf hleaf => ?_⟩
      rwa [hold]

theorem join_sameTopics {f : Forest} {m : Merge} {rest : List Merge} (h : Good context f (m :: rest))
    (hsize : (join context f m).size = f.size) : SameTopics f (join context f m) := by
  obtain ⟨-, hmembers, -⟩ := join_spec h
  refine ⟨(join_size h).resolve_right (by omega), fun node hnode => ?_⟩
  exact leavesOf_of_lt hmembers (h.1.below node hnode)

theorem cutAt_coarser (h : Fitted context) (hkl : k ≤ l) : Coarser (cutAt context l) (cutAt context k) :=
  cut_later (shrinking context) coarser_refl coarser_trans join_coarser (leafForest_good h) hkl

theorem cutAt_again (h : Fitted context) (k : Nat) :
    SameTopics (cutAt context (cutAt context k).size) (cutAt context k) :=
  cut_again (shrinking context) sameTopics_refl sameTopics_trans join_sameTopics (leafForest_good h) rfl

/-- Without a cap the next merge of the tree is taken. -/
theorem join_uncapped {f : Forest} {m : Merge} {rest : List Merge} (h : Good context f (m :: rest))
    (hcap : context.maximumTopicSize = none) (hmerging : Merging f.active.keys.toFinset f.members.length (m :: rest)) :
    (join context f m).size < f.size ∧
      Merging (join context f m).active.keys.toFinset (join context f m).members.length rest := by
  obtain ⟨hleft, hright, hne, hrest⟩ := hmerging
  rw [List.mem_toFinset] at hleft hright
  obtain ⟨-, hmembers, hactive⟩ := join_spec h
  rcases hactive with ⟨-, hskipped⟩ | ⟨-, -, -, others, hbefore, hafter⟩
  · have := hskipped hleft hright
    simp [exceeds, hcap] at this
  · have hnodup : (m.left :: m.right :: others).Nodup := hbefore.nodup_iff.mp f.active.keys_nodup
    have hothers : others.toFinset = (f.active.keys.toFinset.erase m.left).erase m.right := by
      rw [List.toFinset_eq_of_perm _ _ hbefore, List.toFinset_cons, List.toFinset_cons, Finset.erase_insert,
        Finset.erase_insert]
      · rw [List.mem_toFinset]
        exact (List.nodup_cons.mp (List.nodup_cons.mp hnodup).2).1
      · rw [← List.toFinset_cons, List.mem_toFinset]
        exact (List.nodup_cons.mp hnodup).1
    refine ⟨?_, ?_⟩
    · have h₁ := hbefore.length_eq
      have h₂ := hafter.length_eq
      simp only [List.length_cons, OrderedMap.Map.length_keys] at h₁ h₂
      rw [Forest.size, Forest.size]
      omega
    · rw [hmembers, List.length_append, List.length_singleton, List.toFinset_eq_of_perm _ _ hafter,
        List.toFinset_cons, hothers]
      exact hrest

/-- Without a cap a cut has the topics asked for. -/
theorem size_cutAt_uncapped (h : Fitted context) (hcap : context.maximumTopicSize = none) (hk : 1 ≤ k)
    (hkn : k ≤ context.naturalClusterCount) : (cutAt context k).size = k := by
  have hstep : Shrinking (join context) Forest.size fun f merges =>
      Good context f merges ∧ Merging f.active.keys.toFinset f.members.length merges :=
    ⟨fun hgood => ⟨join_good hgood.1, (join_uncapped hgood.1 hcap hgood.2).2⟩, fun hgood => (shrinking context).le hgood.1,
      fun hgood => (shrinking context).ge hgood.1⟩
  have hmerging : Merging (leafForest context.naturalClusterCount).active.keys.toFinset
      (leafForest context.naturalClusterCount).members.length context.merges := by
    have hlength : (leafForest context.naturalClusterCount).members.length = context.naturalClusterCount := by
      simp [leafForest]
    have hrange : (leafForest context.naturalClusterCount).active.keys.toFinset =
        Finset.range context.naturalClusterCount := by
      ext node
      rw [List.mem_toFinset, mem_leafForest, Finset.mem_range]
    rw [hlength, hrange]
    exact h.merging
  have hlength := h.length
  refine size_cut_eq hstep (fun hgood => (join_uncapped hgood.1 hcap hgood.2).1) ⟨leafForest_good h, hmerging⟩ ?_ ?_
  · rwa [leafForest_size]
  · rw [leafForest_size]
    omega

end Cuts

section Ids

variable {k : Nat} {f : Forest} {ordered : List (Nat × Nat)} {ids : List Int}

theorem leafProjectionIds_eq (h : Fitted context) (hk : 1 ≤ k) (hkn : k ≤ context.naturalClusterCount) :
    leafProjectionIds context k = (orderedNodes (cutAt context k)).bind fun ordered =>
      numberLeaves (cutAt context k) 0 ordered (List.replicate context.naturalClusterCount outlierLabel) := by
  have hrange : ¬(k = 0 ∨ context.naturalClusterCount < k) := by omega
  have hloop : cutLoop context k 0 context.merges (leafForest context.naturalClusterCount) = .ok (cutAt context k) :=
    cutLoop_eq (leafForest_good h) (by simp [leafForest])
  rw [leafProjectionIds, if_neg hrange, hloop]
  rfl

/-- The ids of a cut. -/
theorem ids_of_cut (h : Fitted context) (hk : 1 ≤ k) (hkn : k ≤ context.naturalClusterCount) :
    ∃ ordered ids, leafProjectionIds context k = .ok ids ∧ ids.length = context.naturalClusterCount ∧
      Numbered (cutAt context k) ordered ids := by
  rw [leafProjectionIds_eq h hk hkn]
  exact forest_numbered (cutAt_valid h k) ((size_cutAt_le h k).trans h.few)

theorem Numbered.length_eq (h : Numbered f ordered ids) : ordered.length = f.size := by
  rw [← List.length_map Prod.snd, h.nodes.length_eq, OrderedMap.Map.length_keys]
  rfl

/-- Every leaf lies below one of the numbered nodes. -/
theorem Numbered.covers (h : Numbered f ordered ids) (hvalid : Valid context f) {leaf : Nat} :
    leaf < context.naturalClusterCount ↔ ∃ i, ∃ hi : i < ordered.length, leaf ∈ f.leavesOf ordered[i].2 := by
  rw [← List.mem_range, ← hvalid.shared.mem_iff, List.mem_flatMap]
  constructor
  · rintro ⟨node, hnode, hleaf⟩
    obtain ⟨p, hp, rfl⟩ := List.mem_map.mp (h.nodes.symm.subset hnode)
    obtain ⟨i, hi, rfl⟩ := List.getElem_of_mem hp
    exact ⟨i, hi, hleaf⟩
  · rintro ⟨i, hi, hleaf⟩
    exact ⟨_, h.nodes.subset (List.mem_map_of_mem (List.getElem_mem hi)), hleaf⟩

theorem Numbered.iff (h : Numbered f ordered ids) (hvalid : Valid context f)
    (hlength : ids.length = context.naturalClusterCount) {i leaf : Nat} (hi : i < ordered.length) :
    ids[leaf]? = some (i : Int) ↔ leaf ∈ f.leavesOf ordered[i].2 := by
  refine ⟨fun hid => ?_, fun hleaf => h.numbers i hi leaf hleaf⟩
  have hlt : leaf < context.naturalClusterCount := hlength ▸ (List.getElem?_eq_some_iff.mp hid).1
  obtain ⟨j, hj, hleaf⟩ := (h.covers hvalid).mp hlt
  have hother := h.numbers j hj leaf hleaf
  rw [hid] at hother
  obtain rfl : i = j := by exact_mod_cast Option.some.inj hother
  exact hleaf

theorem Numbered.leaf_id (h : Numbered f ordered ids) (hvalid : Valid context f) {leaf : Nat}
    (hleaf : leaf < context.naturalClusterCount) : ∃ i < ordered.length, ids[leaf]? = some (i : Int) := by
  obtain ⟨i, hi, hmem⟩ := (h.covers hvalid).mp hleaf
  exact ⟨i, hi, h.numbers i hi leaf hmem⟩

theorem Numbered.mem_iff (h : Numbered f ordered ids) (hvalid : Valid context f)
    (hlength : ids.length = context.naturalClusterCount) {id : Int} : id ∈ ids ↔ 0 ≤ id ∧ id < f.size := by
  rw [← h.length_eq]
  constructor
  · intro hid
    obtain ⟨leaf, hleaf, rfl⟩ := List.getElem_of_mem hid
    obtain ⟨i, hi, hsome⟩ := h.leaf_id hvalid (hlength ▸ hleaf)
    rw [List.getElem?_eq_getElem hleaf] at hsome
    rw [Option.some.inj hsome]
    omega
  · rintro ⟨hnonneg, hlt⟩
    obtain ⟨i, rfl⟩ := Int.eq_ofNat_of_zero_le hnonneg
    have hi : i < ordered.length := by exact_mod_cast hlt
    have hmin := List.min?_mem (h.minimum _ (List.getElem_mem hi))
    exact List.mem_of_getElem? (h.numbers i hi _ hmin)

theorem foldl_max_le {items : List Nat} {start bound : Nat} :
    items.foldl max start ≤ bound ↔ start ≤ bound ∧ ∀ x ∈ items, x ≤ bound := by
  induction items generalizing start with
  | nil => simp
  | cons a rest ih => rw [List.foldl_cons, ih, List.forall_mem_cons, Nat.max_le, and_assoc]

theorem Numbered.idCount_eq (h : Numbered f ordered ids) (hvalid : Valid context f)
    (hlength : ids.length = context.naturalClusterCount) : idCount ids = f.size := by
  apply Nat.le_antisymm
  · refine foldl_max_le.mpr ⟨Nat.zero_le _, fun x hx => ?_⟩
    obtain ⟨id, hid, rfl⟩ := List.mem_map.mp hx
    have := (h.mem_iff hvalid hlength).mp hid
    omega
  · rcases Nat.eq_zero_or_pos f.size with hzero | hpos
    · omega
    · have hlast : ((f.size - 1 : Nat) : Int) ∈ ids := (h.mem_iff hvalid hlength).mpr (by omega)
      have hbound := (foldl_max_le.mp (Nat.le_refl (idCount ids))).2 _ (List.mem_map_of_mem hlast)
      omega

/-- The first leaf with an id is the smallest leaf of its topic. -/
theorem Numbered.idxOf_eq (h : Numbered f ordered ids) (hvalid : Valid context f)
    (hlength : ids.length = context.naturalClusterCount) {i : Nat} (hi : i < ordered.length) :
    ids.idxOf (i : Int) = ordered[i].1 := by
  have hmin := h.minimum _ (List.getElem_mem hi)
  have hsome := h.numbers i hi _ (List.min?_mem hmin)
  have hlt : ordered[i].1 < ids.length := (List.getElem?_eq_some_iff.mp hsome).1
  apply Nat.le_antisymm
  · refine Nat.not_lt.mp fun hearlier => ?_
    have hother := List.not_of_lt_findIdx hearlier
    rw [List.getElem?_eq_getElem hlt] at hsome
    simp [Option.some.inj hsome] at hother
  · have hmem : ids.idxOf (i : Int) < ids.length := List.idxOf_lt_length_iff.mpr (List.mem_of_getElem? hsome)
    have hfirst : ids[ids.idxOf (i : Int)]? = some (i : Int) := by
      rw [List.getElem?_eq_getElem hmem, List.getElem_idxOf]
    exact (List.min?_eq_some_iff.mp hmin).2 _ ((h.iff hvalid hlength hi).mp hfirst)

/-- The leaves that ids put in one topic. -/
def topicLeaves (ids : List Int) (topic : Int) : List Nat :=
  (List.range ids.length).filter fun leaf => ids[leaf]? = some topic

theorem Numbered.topicLeaves_perm (h : Numbered f ordered ids) (hvalid : Valid context f)
    (hlength : ids.length = context.naturalClusterCount) {i : Nat} (hi : i < ordered.length) :
    (topicLeaves ids i).Perm (f.leavesOf ordered[i].2) := by
  have hnode : ordered[i].2 ∈ f.active.keys := h.nodes.subset (List.mem_map_of_mem (List.getElem_mem hi))
  have hnodup : (f.active.keys.flatMap f.leavesOf).Nodup := hvalid.shared.nodup_iff.mpr List.nodup_range
  have hfiltered : (topicLeaves ids i).Nodup := List.nodup_range.filter _
  rw [List.perm_ext_iff_of_nodup hfiltered ((List.nodup_flatMap.mp hnodup).1 _ hnode)]
  intro leaf
  rw [topicLeaves, List.mem_filter, List.mem_range, decide_eq_true_eq, h.iff hvalid hlength hi, hlength, h.covers hvalid]
  exact and_iff_right_of_imp fun hleaf => ⟨i, hi, hleaf⟩

theorem segmentsOf_perm {a b : List Nat} (h : a.Perm b) : segmentsOf context a = segmentsOf context b :=
  (h.map _).sum_nat

theorem Numbered.capped (h : Numbered f ordered ids) (hvalid : Valid context f)
    (hlength : ids.length = context.naturalClusterCount) {topic : Int} (htopic : topic ∈ ids)
    (hmany : 2 ≤ (topicLeaves ids topic).length) {maximum : Nat} (hmaximum : context.maximumTopicSize = some maximum) :
    segmentsOf context (topicLeaves ids topic) ≤ maximum := by
  obtain ⟨hnonneg, hlt⟩ := (h.mem_iff hvalid hlength).mp htopic
  obtain ⟨i, rfl⟩ := Int.eq_ofNat_of_zero_le hnonneg
  have hi : i < ordered.length := by
    rw [h.length_eq]
    exact_mod_cast hlt
  have hperm := h.topicLeaves_perm hvalid hlength hi
  change 2 ≤ (topicLeaves ids i).length at hmany
  rw [hperm.length_eq] at hmany
  change segmentsOf context (topicLeaves ids i) ≤ maximum
  rw [segmentsOf_perm hperm]
  exact hvalid.capped _ (h.nodes.subset (List.mem_map_of_mem (List.getElem_mem hi))) hmany maximum hmaximum

/-- Leaves of one topic of a finer cut are of one topic of a coarser one. -/
theorem Numbered.together {g : Forest} {ordered' : List (Nat × Nat)} {ids' : List Int} (h : Numbered f ordered ids)
    (h' : Numbered g ordered' ids') (hvalid' : Valid context g)
    (hlength' : ids'.length = context.naturalClusterCount) (hcoarser : Coarser g f) {a b : Nat}
    (ha : a < context.naturalClusterCount) (hab : ids'[a]? = ids'[b]?) : ids[a]? = ids[b]? := by
  obtain ⟨i, hi, hida⟩ := h'.leaf_id hvalid' ha
  have hidb := hab.symm.trans hida
  have hamem := (h'.iff hvalid' hlength' hi).mp hida
  have hbmem := (h'.iff hvalid' hlength' hi).mp hidb
  obtain ⟨node, hnode, hsub⟩ := hcoarser _ (h'.nodes.subset (List.mem_map_of_mem (List.getElem_mem hi)))
  obtain ⟨p, hp, rfl⟩ := List.mem_map.mp (h.nodes.symm.subset hnode)
  obtain ⟨j, hj, rfl⟩ := List.getElem_of_mem hp
  rw [h.numbers j hj a (hsub a hamem), h.numbers j hj b (hsub b hbmem)]

theorem orderedNodes_congr {g : Forest} (h : SameTopics f g) : orderedNodes f = orderedNodes g := by
  rw [orderedNodes, orderedNodes, h.1]
  congr 1
  apply mapM_congr
  intro node hnode
  have hleaves : g.members.getD node [] = f.members.getD node [] := h.2 node hnode
  rw [hleaves]

theorem numberLeaves_congr {g : Forest} {start : Nat} {projected : List Int}
    (h : ∀ p ∈ ordered, g.leavesOf p.2 = f.leavesOf p.2) :
    numberLeaves f start ordered projected = numberLeaves g start ordered projected := by
  induction ordered generalizing start projected with
  | nil => rfl
  | cons p rest ih =>
      obtain ⟨hp, hrest⟩ := List.forall_mem_cons.mp h
      have hleaves : g.members.getD p.2 [] = f.members.getD p.2 [] := hp
      rw [numberLeaves, numberLeaves, hleaves]
      split
      · rfl
      · exact ih hrest

/-- The ids depend on the active nodes and their leaves only. -/
theorem numbering_congr {g : Forest} (hvalid : Valid context f) (h : SameTopics f g) (projected : List Int) :
    ((orderedNodes f).bind fun ordered => numberLeaves f 0 ordered projected) =
      (orderedNodes g).bind fun ordered => numberLeaves g 0 ordered projected := by
  obtain ⟨ordered, hordered, hnodes, -⟩ := orderedNodes_spec hvalid
  rw [← orderedNodes_congr h, hordered]
  exact numberLeaves_congr fun p hp => h.2 p.2 (hnodes.subset (List.mem_map_of_mem hp))

/-- Asking for the number of topics achieved gives the same ids again. -/
theorem ids_again (h : Fitted context) (hk : 1 ≤ k) (hkn : k ≤ context.naturalClusterCount) :
    leafProjectionIds context (cutAt context k).size = leafProjectionIds context k := by
  have hle := le_size_cutAt h hkn
  rw [leafProjectionIds_eq h hk hkn, leafProjectionIds_eq h (hk.trans hle) (size_cutAt_le h k)]
  exact numbering_congr (cutAt_valid h _) (cutAt_again h k) _

end Ids

end Wordflow.Topics
