import Mathlib.Algebra.BigOperators.Ring.Finset
import Mathlib.Data.List.MinMax
import Mathlib.Data.Prod.Lex
import Mathlib.Data.Rat.Cast.Defs
import Mathlib.Algebra.Order.Field.Rat
import Wordflow.Library.Tally
import Wordflow.Topics.Consistency

namespace Wordflow.Topics

open Library

structure TopicCoverage where
  topicId : Int
  coverage : ℚ
  deriving DecidableEq

structure DocumentTopics where
  topicCoverage : List TopicCoverage
  dominantTopic : Int
  deriving DecidableEq

/-- The order in which topics dominate a document: more weight, then the smaller id. -/
def dominance (topic : Int × Nat) : ℕᵒᵈ ×ₗ ℤ := toLex (OrderDual.toDual topic.2, topic.1)

/-- The computable order on the integers, wherever a complete order on them is known as well. -/
instance dominanceOrder : LinearOrder (ℕᵒᵈ ×ₗ ℤ) :=
  @Prod.Lex.instLinearOrder ℕᵒᵈ ℤ (@OrderDual.instLinearOrder ℕ Nat.instLinearOrder) Int.instLinearOrder

instance dominancePreorder : Preorder (ℕᵒᵈ ×ₗ ℤ) := dominanceOrder.toPartialOrder.toPreorder

/-- The topics of a document with the weights of its segments. -/
def documentTopics (weights : OrderedMap.Map Int Nat) : DocumentTopics :=
  let total := (weights.entries.map Prod.snd).sum
  if total = 0 then ⟨[], outlierLabel⟩
  else
    { topicCoverage := weights.entries.map fun topic => ⟨topic.1, topic.2 / total⟩
      dominantTopic := ((weights.entries.argmin dominance).map Prod.fst).getD outlierLabel }

/-- The topic weights of each document. -/
def perDocument (nDocs : Nat) (segments : List ((Nat × Int) × Nat)) : List (OrderedMap.Map Int Nat) :=
  segments.foldl (fun perDoc segment =>
    if segment.1.1 < nDocs then perDoc.modify segment.1.1 fun weights => weights.add segment.1.2 segment.2
    else perDoc) (List.replicate nDocs .empty)

def rollup (nDocs : Nat) (segmentDocIndex : List Nat) (segmentLabels : List Int) (segmentWeights : List Nat) :
    List DocumentTopics :=
  (perDocument nDocs ((segmentDocIndex.zip segmentLabels).zip segmentWeights)).map documentTopics

/-- A segment as it counts towards a document. -/
structure LabelledSegment where
  document : Nat
  label : Int
  weight : Nat

section Shares

variable (segments : List LabelledSegment) (document : Nat)

/-- The labels and weights of the segments of a document. -/
def ownSegments : List (Int × Nat) :=
  (segments.filter fun s => s.document = document).map fun s => (s.label, s.weight)

/-- The owned characters of a document. -/
def owned : Nat := ((ownSegments segments document).map Prod.snd).sum

/-- The owned characters of the segments of a document with a label. -/
def share (label : Int) : Nat := OrderedMap.Map.amount (ownSegments segments document) label

def rollupSegments (nDocs : Nat) : List DocumentTopics :=
  rollup nDocs (segments.map LabelledSegment.document) (segments.map LabelledSegment.label)
    (segments.map LabelledSegment.weight)

end Shares

/-- The coverages of the topics that are sent to one id are added up. -/
def addUp (g : Int → Int) (coverage : List TopicCoverage) : List TopicCoverage :=
  (coverage.map fun topic => g topic.topicId).toFinset.sort.map fun id =>
    ⟨id, ((coverage.filter fun topic => g topic.topicId = id).map TopicCoverage.coverage).sum⟩

theorem addUp_nil (g : Int → Int) : addUp g [] = [] := by simp [addUp]

def LabelledSegment.relabel (g : Int → Int) (s : LabelledSegment) : LabelledSegment := { s with label := g s.label }

section Documents

variable {segments : List LabelledSegment} {nDocs document : Nat}

theorem zip_segments (segments : List LabelledSegment) :
    ((segments.map LabelledSegment.document).zip (segments.map LabelledSegment.label)).zip
      (segments.map LabelledSegment.weight) = segments.map fun s => ((s.document, s.label), s.weight) := by
  rw [List.zip_map', List.zip_map']

theorem perDocument_concat (items : List ((Nat × Int) × Nat)) (item : (Nat × Int) × Nat) :
    perDocument nDocs (items ++ [item]) =
      if item.1.1 < nDocs then (perDocument nDocs items).modify item.1.1 fun weights => weights.add item.1.2 item.2
      else perDocument nDocs items :=
  List.foldl_concat _ _ _ _

theorem ownSegments_concat (segments : List LabelledSegment) (s : LabelledSegment) :
    ownSegments (segments ++ [s]) document =
      ownSegments segments document ++ if s.document = document then [(s.label, s.weight)] else [] := by
  rw [ownSegments, List.filter_append, List.map_append, ownSegments, List.filter_singleton]
  by_cases h : s.document = document <;> simp [h]

/-- Each document is left with the weights of its own segments. -/
theorem getElem?_perDocument (h : document < nDocs) (segments : List LabelledSegment) :
    (perDocument nDocs (segments.map fun s => ((s.document, s.label), s.weight)))[document]? =
      some (.tally (ownSegments segments document)) := by
  induction segments using List.reverseRecOn with
  | nil =>
      rw [perDocument, List.map_nil, List.foldl_nil, List.getElem?_replicate, if_pos h]
      rfl
  | append_singleton segments s ih =>
      rw [List.map_append, List.map_singleton, perDocument_concat, ownSegments_concat]
      by_cases hown : s.document = document
      · rw [if_pos hown, if_pos (hown ▸ h), OrderedMap.Map.tally_concat, List.getElem?_modify, ih]
        exact congrArg some (if_pos hown)
      · rw [if_neg hown, List.append_nil]
        split
        · rw [List.getElem?_modify, ih]
          exact congrArg some (if_neg hown)
        · exact ih

theorem length_perDocument (items : List ((Nat × Int) × Nat)) : (perDocument nDocs items).length = nDocs := by
  induction items using List.reverseRecOn with
  | nil => exact List.length_replicate
  | append_singleton items item ih =>
      rw [perDocument_concat]
      split
      · rw [List.length_modify, ih]
      · exact ih

theorem length_rollupSegments : (rollupSegments segments nDocs).length = nDocs := by
  rw [rollupSegments, rollup, List.length_map, length_perDocument]

theorem getElem?_rollupSegments (h : document < nDocs) :
    (rollupSegments segments nDocs)[document]? = some (documentTopics (.tally (ownSegments segments document))) := by
  rw [rollupSegments, rollup, zip_segments, List.getElem?_map, getElem?_perDocument h]
  rfl

end Documents

section Coverage

variable {items : List (Int × Nat)}

/-- The labels of a document in ascending order. -/
def labels (items : List (Int × Nat)) : List Int := (items.map Prod.fst).toFinset.sort

theorem mem_labels {id : Int} : id ∈ labels items ↔ ∃ item ∈ items, item.1 = id := by
  rw [labels, Finset.mem_sort, List.mem_toFinset, List.mem_map]

/-- Counting by topic loses no segment. -/
theorem sum_labels (p : Int → Bool) :
    (((labels items).filter p).map fun id => OrderedMap.Map.amount items id).sum =
      ((items.filter fun item => p item.1).map Prod.snd).sum := by
  apply OrderedMap.Map.sum_amount
  intro item hitem
  exact List.mem_toFinset.mpr (List.mem_map_of_mem hitem)

theorem sum_all_labels :
    ((labels items).map fun id => OrderedMap.Map.amount items id).sum = (items.map Prod.snd).sum := by
  have hall := @sum_labels items fun _ => true
  rwa [List.filter_true, List.filter_true] at hall

theorem documentTopics_tally (items : List (Int × Nat)) :
    documentTopics (.tally items) =
      if (items.map Prod.snd).sum = 0 then ⟨[], outlierLabel⟩
      else
        { topicCoverage := (labels items).map fun id => ⟨id, OrderedMap.Map.amount items id / (items.map Prod.snd).sum⟩
          dominantTopic := ((((labels items).map fun id => (id, OrderedMap.Map.amount items id)).argmin dominance).map
            Prod.fst).getD outlierLabel } := by
  have hentries := OrderedMap.Map.entries_tally items
  change _ = (labels items).map _ at hentries
  have htotal : ((OrderedMap.Map.tally items).entries.map Prod.snd).sum = (items.map Prod.snd).sum := by
    rw [hentries, List.map_map, ← sum_all_labels]
    rfl
  simp only [documentTopics, htotal]
  rw [hentries, List.map_map]
  rfl

theorem amount_relabel (g : Int → Int) (id : Int) :
    OrderedMap.Map.amount (items.map fun item => (g item.1, item.2)) id =
      ((items.filter fun item => g item.1 = id).map Prod.snd).sum := by
  rw [OrderedMap.Map.amount, List.filter_map, List.map_map]
  rfl

/-- Relabelling the segments adds up the coverages of the topics. -/
theorem relabel_addUp (g : Int → Int) (items : List (Int × Nat)) :
    (documentTopics (.tally (items.map fun item => (g item.1, item.2)))).topicCoverage =
      addUp g (documentTopics (.tally items)).topicCoverage := by
  have htotal : (items.map fun item => (g item.1, item.2)).map Prod.snd = items.map Prod.snd := by
    rw [List.map_map]
    rfl
  rw [documentTopics_tally, documentTopics_tally, htotal]
  split
  · exact (addUp_nil g).symm
  · have hids : (((labels items).map fun id => TopicCoverage.mk id
          (OrderedMap.Map.amount items id / (items.map Prod.snd).sum)).map fun topic => g topic.topicId).toFinset =
        ((items.map fun item => (g item.1, item.2)).map Prod.fst).toFinset := by
      ext id
      simp [mem_labels]
    rw [addUp, hids]
    change ((items.map fun item => (g item.1, item.2)).map Prod.fst).toFinset.sort.map _ = _
    apply List.map_congr_left
    intro id _
    have hshares := @sum_labels items fun label => g label = id
    have hfilter : ((labels items).map fun id => TopicCoverage.mk id
          (OrderedMap.Map.amount items id / (items.map Prod.snd).sum)).filter (fun topic => g topic.topicId = id) =
        ((labels items).filter fun label => g label = id).map fun id =>
          TopicCoverage.mk id (OrderedMap.Map.amount items id / (items.map Prod.snd).sum) := by
      rw [List.filter_map]
      rfl
    rw [hfilter, List.map_map, amount_relabel, ← hshares, Nat.cast_list_sum, List.map_map, div_eq_mul_inv,
      ← List.sum_map_mul_right]
    rfl

/-- The weights add up to the owned characters, and the coverage of a topic is its share of them. -/
theorem coverage_share (items : List (Int × Nat)) :
    ((documentTopics (.tally items)).topicCoverage.map fun topic => OrderedMap.Map.amount items topic.topicId).sum =
      (items.map Prod.snd).sum ∧
    ∀ topic ∈ (documentTopics (.tally items)).topicCoverage,
      topic.coverage = OrderedMap.Map.amount items topic.topicId / (items.map Prod.snd).sum := by
  rw [documentTopics_tally]
  split
  · rename_i hzero
    exact ⟨hzero.symm, fun topic htopic => nomatch htopic⟩
  · constructor
    · rw [List.map_map, ← sum_all_labels]
      rfl
    · intro topic htopic
      obtain ⟨id, -, rfl⟩ := List.mem_map.mp htopic
      rfl

/-- A document without weight has no topics. -/
theorem documentTopics_weightless (h : (items.map Prod.snd).sum = 0) :
    documentTopics (.tally items) = ⟨[], outlierLabel⟩ := by
  rw [documentTopics_tally, if_pos h]

/-- Otherwise its topic is one of its own, and none comes before it. -/
theorem dominant_least (h : (items.map Prod.snd).sum ≠ 0) :
    (documentTopics (.tally items)).dominantTopic ∈
      (documentTopics (.tally items)).topicCoverage.map TopicCoverage.topicId ∧
    ∀ topic ∈ (documentTopics (.tally items)).topicCoverage,
      OrderedMap.Map.amount items topic.topicId <
          OrderedMap.Map.amount items (documentTopics (.tally items)).dominantTopic ∨
        OrderedMap.Map.amount items topic.topicId =
            OrderedMap.Map.amount items (documentTopics (.tally items)).dominantTopic ∧
          (documentTopics (.tally items)).dominantTopic ≤ topic.topicId := by
  rw [documentTopics_tally, if_neg h]
  cases hfound : ((labels items).map fun id => (id, OrderedMap.Map.amount items id)).argmin dominance with
  | none =>
      have hempty : labels items = [] := List.map_eq_nil_iff.mp (List.argmin_eq_none.mp hfound)
      rw [← sum_all_labels, hempty] at h
      exact absurd rfl h
  | some topic =>
      obtain ⟨dominant, hdominant, rfl⟩ := List.mem_map.mp (List.argmin_mem hfound)
      constructor
      · rw [List.map_map]
        exact List.mem_map.mpr ⟨dominant, hdominant, rfl⟩
      · intro topic htopic
        obtain ⟨id, hid, rfl⟩ := List.mem_map.mp htopic
        have hle := List.le_of_mem_argmin (List.mem_map_of_mem (f := fun id => (id, OrderedMap.Map.amount items id)) hid) hfound
        rw [dominance, dominance, Prod.Lex.toLex_le_toLex] at hle
        exact hle.imp (fun hlt => hlt) fun heq => ⟨heq.1.symm, heq.2⟩

end Coverage

theorem ownSegments_relabel (g : Int → Int) (segments : List LabelledSegment) (document : Nat) :
    ownSegments (segments.map (LabelledSegment.relabel g)) document =
      (ownSegments segments document).map fun item => (g item.1, item.2) := by
  rw [ownSegments, ownSegments, List.filter_map, List.map_map, List.map_map]
  rfl

/-- Documents are covered by their segments, and merging topics adds their
coverages up. -/
theorem rollup_merges (nDocs : Nat) (segments : List LabelledSegment) (g : Int → Int) :
    (rollupSegments segments nDocs).length = nDocs ∧
    ∀ document < nDocs, ∃ topics merged, (rollupSegments segments nDocs)[document]? = some topics ∧
      (rollupSegments (segments.map (LabelledSegment.relabel g)) nDocs)[document]? = some merged ∧
      (topics.topicCoverage.map fun topic => share segments document topic.topicId).sum = owned segments document ∧
      (∀ topic ∈ topics.topicCoverage, topic.coverage = share segments document topic.topicId / owned segments document) ∧
      merged.topicCoverage = addUp g topics.topicCoverage ∧
      (owned segments document = 0 → topics.topicCoverage = [] ∧ topics.dominantTopic = outlierLabel) ∧
      (owned segments document ≠ 0 → topics.dominantTopic ∈ topics.topicCoverage.map TopicCoverage.topicId ∧
        ∀ topic ∈ topics.topicCoverage,
          share segments document topic.topicId < share segments document topics.dominantTopic ∨
            share segments document topic.topicId = share segments document topics.dominantTopic ∧
              topics.dominantTopic ≤ topic.topicId) := by
  refine ⟨length_rollupSegments, fun document hdocument => ⟨_, _, getElem?_rollupSegments hdocument,
    getElem?_rollupSegments hdocument, ?_⟩⟩
  rw [ownSegments_relabel]
  obtain ⟨hsum, hshare⟩ := coverage_share (ownSegments segments document)
  refine ⟨hsum, hshare, relabel_addUp g _, fun hzero => ?_, fun hweight => dominant_least hweight⟩
  rw [documentTopics_weightless hzero]
  exact ⟨rfl, rfl⟩

section Projected

variable {Point Embedding Distance Word Coordinate : Type} {num : Numerics Point Embedding Distance}
  {context : TopicProjectionContext Embedding} {reports : Reports Embedding Word Coordinate DocumentTopics}

/-- The segments of a context with their leaves as labels. -/
def leafSegments (context : TopicProjectionContext Embedding) : List LabelledSegment :=
  context.segments.map fun fact => ⟨fact.documentIndex, fact.leafId.toInt, fact.ownedCharacterWeight⟩

/-- The topic that a leaf is projected to; the outliers stay what they are. -/
def topicOfLeaf (ids : List Int) (leaf : Int) : Int :=
  if leaf = outlierLabel then outlierLabel else ids.getD leaf.toNat outlierLabel

/-- In projected documents the coverages of the leaves are added up by topic. -/
theorem Prepared.projectDocuments_addUp (h : Prepared num context) (hreports : reports.rollup = rollup) {k : Nat}
    {ids : List Int} (hids : leafProjectionIds context k = .ok ids) (hlength : ids.length = context.naturalClusterCount) :
    ∃ documents : List DocumentTopics, projectDocuments num reports context k = .ok (documents.zipIdx.map Prod.swap) ∧
      ∀ document < context.documentCount, ∃ leaves topics,
        (rollupSegments (leafSegments context) context.documentCount)[document]? = some leaves ∧
        documents[document]? = some topics ∧ topics.topicCoverage = addUp (topicOfLeaf ids) leaves.topicCoverage := by
  refine ⟨rollupSegments ((leafSegments context).map (LabelledSegment.relabel (topicOfLeaf ids))) context.documentCount,
    ?_, fun document hdocument => ⟨_, _, getElem?_rollupSegments hdocument, getElem?_rollupSegments hdocument, ?_⟩⟩
  · rw [h.projectDocuments_eq hids hlength, hreports, rollupSegments, leafSegments]
    simp only [List.map_map]
    rfl
  · rw [ownSegments_relabel]
    exact relabel_addUp _ _

end Projected

end Wordflow.Topics
