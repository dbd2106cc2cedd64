import Mathlib.Algebra.Ring.Int.Defs
import Wordflow.Topics.Projection

namespace Wordflow.Topics

open Library Library.Fallible

variable {Point Embedding Distance : Type} {num : Numerics Point Embedding Distance}
  {input : ProjectionInput Point} {context limited : TopicProjectionContext Embedding}

section Prepare

theorem label_below {label : Int32} {labels : List Int32} (hlabel : label ∈ labels) (hreal : 0 ≤ label.toInt) :
    label.toInt.toNat < naturalClusterCount labels := by
  have hmem : label.toInt.toNat + 1 ∈ (labels.filter fun label => 0 ≤ label.toInt).map fun label => label.toInt.toNat + 1 :=
    List.mem_map.mpr ⟨label, List.mem_filter.mpr ⟨hlabel, by simpa using hreal⟩, rfl⟩
  exact (foldl_max_le.mp (Nat.le_refl (naturalClusterCount labels))).2 _ hmem

theorem naturalClusterCount_le (labels : List Int32) : naturalClusterCount labels ≤ i32Max + 1 := by
  refine foldl_max_le.mpr ⟨Nat.zero_le _, fun x hx => ?_⟩
  obtain ⟨label, -, rfl⟩ := List.mem_map.mp hx
  have := label.toInt_lt
  rw [i32Max]
  omega

theorem prepareLeaf_spec {words : List String} {id : Nat} {leaf : Leaf Embedding}
    (h : prepareLeaf num input words id = .ok leaf) : leaf.id = id ∧ num.normal leaf.embeddingSum = true := by
  simp only [prepareLeaf] at h
  split at h
  · cases h
  · obtain ⟨_, hnormal, h⟩ := bind_eq_ok.mp h
    obtain rfl := Except.ok.inj h
    refine ⟨rfl, ?_⟩
    simp only [validateNonzeroVector] at hnormal
    split at hnormal
    · assumption
    · cases hnormal

/-- What a prepared context holds. -/
structure Prepared (num : Numerics Point Embedding Distance) (context : TopicProjectionContext Embedding) : Prop where
  version : context.version = contextVersion
  count : context.naturalClusterCount ≠ 0
  few : context.naturalClusterCount ≤ i32Max + 1
  ids : context.leaves.map Leaf.id = List.range context.naturalClusterCount
  normal : ∀ leaf ∈ context.leaves, num.normal leaf.embeddingSum = true
  tree : buildAverageLinkageTree num context.leaves = .ok context.merges
  segments : ∀ fact ∈ context.segments, fact.span.isSome ∧ outlierLabel ≤ fact.leafId.toInt ∧
    (0 ≤ fact.leafId.toInt → fact.leafId.toInt.toNat < context.naturalClusterCount)

theorem segmentFacts_spec {fact : SegmentFact} (h : fact ∈ segmentFacts input) :
    fact.span.isSome ∧ fact.leafId ∈ input.labels := by
  obtain ⟨s, hs, rfl⟩ := List.mem_map.mp h
  exact ⟨rfl, (List.of_mem_zip (List.of_mem_zip (List.of_mem_zip hs).1).1).1⟩

theorem prepareContext_prepared (h : prepareContext num input = .ok context) : Prepared num context := by
  simp only [prepareContext] at h
  split at h
  · cases h
  split at h
  · cases h
  split at h
  · cases h
  split at h
  · cases h
  split at h
  · cases h
  split at h
  · cases h
  split at h
  · cases h
  rename_i hcount _ _ _ hlabels
  obtain ⟨leaves, hleaves, h⟩ := bind_eq_ok.mp h
  obtain ⟨merges, hmerges, h⟩ := bind_eq_ok.mp h
  obtain rfl := Except.ok.inj h
  have hall := mapM_eq_ok.mp hleaves
  refine ⟨rfl, hcount, naturalClusterCount_le _, ?_, fun leaf hleaf => ?_, hmerges, fun fact hfact => ?_⟩
  · change leaves.map Leaf.id = List.range (naturalClusterCount input.labels)
    rw [forall₂_map_eq hall fun id leaf hid => (prepareLeaf_spec hid).1]
    exact List.map_id' _
  · obtain ⟨id, -, hid⟩ := forall₂_mem_right hall hleaf
    exact (prepareLeaf_spec hid).2
  · obtain ⟨hspan, hlabel⟩ := segmentFacts_spec hfact
    refine ⟨hspan, ?_, label_below hlabel⟩
    exact Int.not_lt.mp fun hlt => hlabels (List.any_eq_true.mpr ⟨_, hlabel, by simpa using hlt⟩)

theorem Prepared.limit {maximum : Option Nat} (h : Prepared num context)
    (hlimit : limitTopicSize context maximum = .ok limited) :
    Prepared num limited ∧ limited.maximumTopicSize = maximum := by
  simp only [limitTopicSize] at hlimit
  split at hlimit
  · cases hlimit
  · obtain rfl := Except.ok.inj hlimit
    exact ⟨⟨h.version, h.count, h.few, h.ids, h.normal, h.tree, h.segments⟩, rfl⟩

theorem Prepared.fitted (h : Prepared num context) : Fitted context := by
  have hlength : context.leaves.length = context.naturalClusterCount := by
    rw [← List.length_map Leaf.id, h.ids, List.length_range]
  have hsome : context.leaves ≠ [] := by
    intro hnil
    rw [hnil] at hlength
    exact h.count hlength.symm
  have htree := build_spec h.tree (by rw [hlength]; exact h.ids) hsome
  rw [hlength] at htree
  exact ⟨h.ids, h.count, h.few, htree.1, htree.2⟩

theorem Prepared.validate (h : Prepared num context) : validateContext num context = .ok () := by
  have hfitted := h.fitted
  have hlength : context.leaves.length = context.naturalClusterCount := by
    rw [← List.length_map Leaf.id, h.ids, List.length_range]
  rw [validateContext, if_neg (by rw [h.version]; decide), if_neg, forM_eq_ok]
  · intro leaf hleaf
    rw [validateNonzeroVector, if_pos (h.normal leaf hleaf)]
  · have hmerges := hfitted.length
    rintro (hzero | hleaves | hmerges' | hids)
    · exact h.count hzero
    · exact hleaves hlength
    · omega
    · obtain ⟨p, hp, hne⟩ := List.any_eq_true.mp hids
      have hleaf := List.mem_zipIdx_iff_getElem?.mp hp
      have hid : (context.leaves.map Leaf.id)[p.2]? = some p.1.id := by
        rw [List.getElem?_map, hleaf]
        rfl
      rw [h.ids] at hid
      obtain ⟨hlt, hid⟩ := List.getElem?_eq_some_iff.mp hid
      rw [List.getElem_range] at hid
      simp [hid] at hne

/-- The topic of a segment under the ids of a cut. -/
def topicOf (ids : List Int) (fact : SegmentFact) : Int :=
  if fact.leafId.toInt = outlierLabel then outlierLabel else ids.getD fact.leafId.toInt.toNat outlierLabel

theorem Prepared.segmentTopic_eq (h : Prepared num context) {ids : List Int}
    (hlength : ids.length = context.naturalClusterCount) {invalidLeaf unknownLeaf : String} {fact : SegmentFact}
    (hfact : fact ∈ context.segments) : segmentTopic invalidLeaf unknownLeaf ids fact = .ok (topicOf ids fact) := by
  obtain ⟨-, hlow, hhigh⟩ := h.segments fact hfact
  rw [segmentTopic, topicOf]
  split
  · rfl
  · rename_i hreal
    have hnonneg : 0 ≤ fact.leafId.toInt := by
      rw [outlierLabel] at hlow hreal
      omega
    have hlt : fact.leafId.toInt.toNat < ids.length := hlength ▸ hhigh hnonneg
    rw [if_neg (Int.not_lt.mpr hnonneg), List.getElem?_eq_getElem hlt, List.getD_eq_getElem _ _ hlt]

end Prepare

section Results

variable {Word Coordinate DocumentTopics : Type} {reports : Reports Embedding Word Coordinate DocumentTopics}
  {ids : List Int} {k : Nat}

theorem Prepared.projectDocuments_eq (h : Prepared num context) (hids : leafProjectionIds context k = .ok ids)
    (hlength : ids.length = context.naturalClusterCount) :
    projectDocuments num reports context k = .ok ((reports.rollup context.documentCount
      (context.segments.map SegmentFact.documentIndex) (context.segments.map (topicOf ids))
      (context.segments.map SegmentFact.ownedCharacterWeight)).zipIdx.map Prod.swap) := by
  have hlabels : context.segments.mapM (segmentTopic "Topic projection segment leaf id is invalid"
      "Topic projection segment leaf id is outside the context" ids) = .ok (context.segments.map (topicOf ids)) := by
    rw [mapM_eq_ok, List.forall₂_map_right_iff, List.forall₂_same]
    exact fun fact hfact => h.segmentTopic_eq hlength hfact
  simp only [projectDocuments, h.validate, hids, hlabels, bind, Except.bind]

theorem Prepared.projectSegments_eq (h : Prepared num context) (hids : leafProjectionIds context k = .ok ids)
    (hlength : ids.length = context.naturalClusterCount) :
    projectSegments num context k = .ok (context.segments.map fun fact =>
      (fact.documentIndex, (fact.span.getD (0, 0)).1, (fact.span.getD (0, 0)).2, topicOf ids fact)) := by
  simp only [projectSegments, h.validate, hids, bind, Except.bind]
  rw [mapM_eq_ok, List.forall₂_map_right_iff, List.forall₂_same]
  intro fact hfact
  obtain ⟨span, hspan⟩ := Option.isSome_iff_exists.mp (h.segments fact hfact).1
  rw [hspan, h.segmentTopic_eq hlength hfact]
  rfl

end Results

/-- The cut for `k` topics: its ids, and the number of topics it achieves. -/
structure IsCut (num : Numerics Point Embedding Distance) (context : TopicProjectionContext Embedding) (k : Nat)
    (ids : List Int) (m : Nat) : Prop where
  assigned : leafProjectionIds context k = .ok ids
  length : ids.length = context.naturalClusterCount
  count : projectedTopicCount num context k = .ok m
  enough : k ≤ m
  uncapped : context.maximumTopicSize = none → m = k
  range : ∀ id : Int, id ∈ ids ↔ 0 ≤ id ∧ id < m
  ordered : ∀ a b : Nat, a < b → b < m → ids.idxOf (a : Int) < ids.idxOf (b : Int)
  capped : ∀ topic ∈ ids, 2 ≤ (topicLeaves ids topic).length → ∀ maximum,
    context.maximumTopicSize = some maximum → segmentsOf context (topicLeaves ids topic) ≤ maximum
  again : leafProjectionIds context m = .ok ids

theorem Prepared.isCut (h : Prepared num context) {k : Nat} (hk : 1 ≤ k) (hkn : k ≤ context.naturalClusterCount) :
    ∃ ordered ids m, IsCut num context k ids m ∧ Numbered (cutAt context k) ordered ids := by
  have hfitted := h.fitted
  have hvalid := cutAt_valid hfitted k
  obtain ⟨ordered, ids, hids, hlength, hnumbered⟩ := ids_of_cut hfitted hk hkn
  refine ⟨ordered, ids, (cutAt context k).size, ⟨hids, hlength, ?_, le_size_cutAt hfitted hkn,
    fun hcap => size_cutAt_uncapped hfitted hcap hk hkn, fun id => hnumbered.mem_iff hvalid hlength,
    fun a b hab hb => ?_, fun topic htopic hmany maximum => hnumbered.capped hvalid hlength htopic hmany,
    (ids_again hfitted hk hkn).trans hids⟩, hnumbered⟩
  · simp only [projectedTopicCount, h.validate, hids, bind, Except.bind]
    rw [hnumbered.idCount_eq hvalid hlength]
  · rw [← hnumbered.length_eq] at hb
    rw [hnumbered.idxOf_eq hvalid hlength (hab.trans hb), hnumbered.idxOf_eq hvalid hlength hb]
    exact List.pairwise_iff_getElem.mp hnumbered.sorted a b _ _ hab

section Sample

def dot (a b : List Int) : Int := ((a.zip b).map fun p => p.1 * p.2).sum

def norm (a : List Int) : Int := Nat.sqrt (dot a a).toNat

/-- Vectors of integers with an integer norm, and distances as fractions. -/
def sampleNumerics : Numerics (List Int) (List Int) (Int × Int) where
  usable points := points.all fun point => point.length = 2
  sum points := points.foldl (fun a b => List.zipWith (· + ·) a b) [0, 0]
  total embeddings := embeddings.foldl (fun a b => List.zipWith (· + ·) a b) [0, 0]
  width := List.length
  normal a := dot a a ≠ 0
  cosine a b := (norm a * norm b - dot a b, norm a * norm b)
  totalCmp a b := compare (a.1 * b.2) (b.1 * a.2)
  mean a m b n := (a.1 * m * b.2 + b.1 * n * a.2, a.2 * b.2 * (m + n))

/-- Three topics and an outlier; the first two are close. -/
def sampleInput : ProjectionInput (List Int) where
  documentCount := 2
  labels := [0, 0, 1, 2, -1]
  embeddingPoints := [[3, 4], [3, 4], [4, 3], [0, -5], [5, 0]]
  documentIndices := [0, 0, 1, 1, 1]
  ownedCharacterWeights := [10, 12, 8, 9, 4]
  characterSpans := [(0, 10), (10, 22), (0, 8), (8, 17), (17, 21)]
  perLeafTermCounts := [[("tax", 2)], [("tax", 1)], [("sea", 3)]]
  seed := 7

def sampleReports : Reports (List Int) String Nat (List Int) where
  representativeWords counts excluded := counts.map fun topic => topic.keys.filter (· ∉ excluded)
  topicCoordinates sums _ := .ok (List.range sums.length)
  rollup count documents labels _ :=
    (List.range count).map fun document => ((documents.zip labels).filter fun p => p.1 = document).map Prod.snd

def sampleLimited : Except String (TopicProjectionContext (List Int)) :=
  (prepareContext sampleNumerics sampleInput).bind fun context => limitTopicSize context (some 3)

end Sample

end Wordflow.Topics
