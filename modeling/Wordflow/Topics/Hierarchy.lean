import Mathlib.Algebra.GroupWithZero.Nat
import Mathlib.Data.List.Sort
import Mathlib.Data.String.Basic
import Wordflow.Library.OrderedMap

namespace Wordflow.Topics

open Library

/-- The floating-point computations on points, embeddings and distances. -/
structure Numerics (Point Embedding Distance : Type) where
  usable : List Point → Bool
  sum : List Point → Embedding
  total : List Embedding → Embedding
  width : Embedding → Nat
  normal : Embedding → Bool
  cosine : Embedding → Embedding → Distance
  totalCmp : Distance → Distance → Ordering
  mean : Distance → Nat → Distance → Nat → Distance

structure Leaf (Embedding : Type) where
  id : Nat
  segmentCount : Nat
  embeddingSum : Embedding
  termCounts : List (Nat × Nat)

structure SegmentFact where
  documentIndex : Nat
  leafId : Int32
  ownedCharacterWeight : Nat
  span : Option (Nat × Nat)

structure Merge where
  left : Nat
  right : Nat
  minimumLeafId : Nat
  deriving DecidableEq

structure TopicProjectionContext (Embedding : Type) where
  version : Nat
  documentCount : Nat
  naturalClusterCount : Nat
  maximumTopicSize : Option Nat
  vocabulary : List String
  leaves : List (Leaf Embedding)
  merges : List Merge
  segments : List SegmentFact
  nSegments : Nat
  seed : Nat

structure ProjectionInput (Point : Type) where
  documentCount : Nat
  labels : List Int32
  embeddingPoints : List Point
  documentIndices : List Nat
  ownedCharacterWeights : List Nat
  characterSpans : List (Nat × Nat)
  perLeafTermCounts : List (List (String × Nat))
  seed : Nat

variable {Point Embedding Distance : Type} (num : Numerics Point Embedding Distance)

def outlierLabel : Int := -1

def i32Max : Nat := 2147483647

def u32Max : Nat := 4294967295

def contextVersion : Nat := 4

def minReadableContextVersion : Nat := 2

def usizeMax : Nat := 18446744073709551615

def validateNonzeroVector (vector : Embedding) (name : String) : Except String Unit :=
  if num.normal vector then .ok () else .error ("Topic projection " ++ name ++ " has zero or invalid norm")

def cosineDistance (left right : Embedding) : Except String Distance := do
  if num.width left ≠ num.width right ∨ num.width left = 0 then .error "Topic projection embedding dimensions differ"
  else
    validateNonzeroVector num left "left embedding"
    validateNonzeroVector num right "right embedding"
    .ok (num.cosine left right)

section Tree

structure ActiveNode where
  minimumLeafId : Nat
  leafCount : Nat

def pairKey (left right : Nat) : Nat × Nat := if left < right then (left, right) else (right, left)

/-- All pairs of a list, each in the order of the list. -/
def pairs {α : Type} : List α → List (α × α)
  | [] => []
  | a :: rest => rest.map (fun b => (a, b)) ++ pairs rest

structure Candidate (Distance : Type) where
  distance : Distance
  minimumLeft : Nat
  minimumRight : Nat
  left : Nat
  right : Nat

/-- The lexicographic order of the four ids. -/
def Candidate.idsBefore (a b : Candidate Distance) : Bool :=
  a.minimumLeft < b.minimumLeft || a.minimumLeft = b.minimumLeft &&
    (a.minimumRight < b.minimumRight || a.minimumRight = b.minimumRight &&
      (a.left < b.left || a.left = b.left && a.right < b.right))

def Candidate.before (a b : Candidate Distance) : Bool :=
  match num.totalCmp a.distance b.distance with
  | .lt => true
  | .eq => a.idsBefore b
  | .gt => false

structure Linkage (Distance : Type) where
  active : OrderedMap.Map Nat ActiveNode
  distances : Nat × Nat → Option Distance
  merges : List Merge

def candidate (distances : Nat × Nat → Option Distance) (left right : Nat × ActiveNode) :
    Except String (Candidate Distance) :=
  match distances (pairKey left.1 right.1) with
  | none => .error "Topic projection linkage distance is missing"
  | some distance =>
      .ok ⟨distance, min left.2.minimumLeafId right.2.minimumLeafId, max left.2.minimumLeafId right.2.minimumLeafId,
        left.1, right.1⟩

def closest : List (Candidate Distance) → Option (Candidate Distance) → Option (Candidate Distance)
  | [], best => best
  | c :: rest, none => closest rest (some c)
  | c :: rest, some best => closest rest (some (if c.before num best then c else best))

/-- The distances from a new node, each the mean of those from its parents. -/
def linkDistances (newId : Nat) (left right : Nat × ActiveNode) (others : List Nat)
    (distances : Nat × Nat → Option Distance) : Except String (Nat × Nat → Option Distance) :=
  others.foldlM (fun distances other =>
    match distances (pairKey left.1 other), distances (pairKey right.1 other) with
    | none, _ => .error "Topic projection left linkage distance is missing"
    | _, none => .error "Topic projection right linkage distance is missing"
    | some leftDistance, some rightDistance =>
        .ok (Function.update distances (pairKey newId other)
          (some (num.mean leftDistance left.2.leafCount rightDistance right.2.leafCount)))) distances

/-- One round of the linkage, over a number of leaves. -/
def mergeClosest (count : Nat) (s : Linkage Distance) : Except String (Linkage Distance) := do
  let candidates ← (pairs s.active.entries).mapM fun pair => candidate s.distances pair.1 pair.2
  match closest num candidates none with
  | none => .error "Topic projection linkage tree has no merge pair"
  | some best =>
      match s.active.get? best.left, (s.active.remove best.left).get? best.right with
      | none, _ => .error "Topic projection left merge node is missing"
      | _, none => .error "Topic projection right merge node is missing"
      | some left, some right =>
          let active := (s.active.remove best.left).remove best.right
          let newId := count + s.merges.length
          let minimumLeafId := min left.minimumLeafId right.minimumLeafId
          if usizeMax < left.leafCount + right.leafCount then .error "Topic projection leaf count overflow"
          else
            let distances ← linkDistances num newId (best.left, left) (best.right, right) active.keys s.distances
            .ok ⟨active.insert newId ⟨minimumLeafId, left.leafCount + right.leafCount⟩, distances,
              s.merges ++ [⟨best.left, best.right, minimumLeafId⟩]⟩

/-- Rounds until one node is active. Every round leaves one node fewer, so that
there are fewer rounds than leaves. -/
def linkage (count : Nat) : Nat → Linkage Distance → Except String (List Merge)
  | 0, s => .ok s.merges
  | rounds + 1, s => if s.active.size ≤ 1 then .ok s.merges else (mergeClosest num count s).bind (linkage count rounds)

def leafDistances (leaves : List (Leaf Embedding)) : Except String (Nat × Nat → Option Distance) :=
  (pairs leaves.zipIdx).foldlM (fun distances pair => do
    let distance ← cosineDistance num pair.1.1.embeddingSum pair.2.1.embeddingSum
    .ok (Function.update distances (pair.1.2, pair.2.2) (some distance))) fun _ => none

def leafNodes (leaves : List (Leaf Embedding)) : OrderedMap.Map Nat ActiveNode :=
  leaves.foldl (fun active leaf => active.insert leaf.id ⟨leaf.id, 1⟩) .empty

def buildAverageLinkageTree (leaves : List (Leaf Embedding)) : Except String (List Merge) := do
  let distances ← leafDistances num leaves
  linkage num leaves.length leaves.length ⟨leafNodes leaves, distances, []⟩

end Tree

section Prepare

def naturalClusterCount (labels : List Int32) : Nat :=
  ((labels.filter fun label => 0 ≤ label.toInt).map fun label => label.toInt.toNat + 1).foldl max 0

def vocabulary (perLeafTermCounts : List (List (String × Nat))) : List String :=
  ((perLeafTermCounts.flatMap fun counts => counts.map Prod.fst).foldl
    (fun (words : OrderedMap.Map String Unit) term => words.insert term ()) .empty).keys

/-- A leaf of the tree from the segments with its label. -/
def prepareLeaf (input : ProjectionInput Point) (words : List String) (id : Nat) : Except String (Leaf Embedding) := do
  let points := ((input.labels.zip input.embeddingPoints).filter fun p => p.1.toInt = (id : Int)).map Prod.snd
  if points = [] then .error "Topic projection real Topic leaf has no Topic Segments"
  else
    validateNonzeroVector num (num.sum points) "natural Topic embedding"
    .ok ⟨id, points.length, num.sum points, (input.perLeafTermCounts.getD id []).map fun t => (words.idxOf t.1, t.2)⟩

def segmentFacts (input : ProjectionInput Point) : List SegmentFact :=
  (((input.labels.zip input.documentIndices).zip input.ownedCharacterWeights).zip input.characterSpans).map fun s =>
    ⟨s.1.1.2, s.1.1.1, s.1.2, some s.2⟩

def prepareContext (input : ProjectionInput Point) : Except String (TopicProjectionContext Embedding) := do
  let segmentCount := input.labels.length
  if input.embeddingPoints.length ≠ segmentCount ∨ input.documentIndices.length ≠ segmentCount ∨
      input.ownedCharacterWeights.length ≠ segmentCount ∨ input.characterSpans.length ≠ segmentCount then
    .error "Topic projection inputs must align by Topic Segment"
  else if input.documentIndices.any fun index => input.documentCount ≤ index then
    .error "Topic projection document index is outside the corpus"
  else if naturalClusterCount input.labels = 0 then .error "Topic projection requires at least one real Topic"
  else if input.perLeafTermCounts.length ≠ naturalClusterCount input.labels then
    .error "Topic projection term counts must align with real Topic leaves"
  else if num.usable input.embeddingPoints = false then
    .error "Topic projection embeddings must be finite, non-empty, and rectangular"
  else if u32Max < (vocabulary input.perLeafTermCounts).length - 1 then
    .error "Topic projection vocabulary is too large"
  else if input.labels.any fun label => label.toInt < outlierLabel then .error "Topic projection label is invalid"
  else
    let words := vocabulary input.perLeafTermCounts
    let leaves ← (List.range (naturalClusterCount input.labels)).mapM (prepareLeaf num input words)
    let merges ← buildAverageLinkageTree num leaves
    .ok ⟨contextVersion, input.documentCount, naturalClusterCount input.labels, none, words, leaves, merges,
      segmentFacts input, segmentCount, input.seed⟩

end Prepare

section Cut

variable (context : TopicProjectionContext Embedding)

/-- The leaves below each node so far, and the nodes of the cut. -/
structure Forest where
  members : List (List Nat)
  active : OrderedMap.Map Nat Unit

def leafForest (natural : Nat) : Forest where
  members := (List.range natural).map fun leaf => [leaf]
  active := (List.range natural).foldl (fun active leaf => active.insert leaf ()) .empty

/-- The segments of some leaves; a valid context has every leaf. -/
def segmentsOf (leaves : List Nat) : Nat :=
  (leaves.map fun leaf => (context.leaves[leaf]?).elim 0 Leaf.segmentCount).sum

def exceeds (segments : Nat) : Bool := context.maximumTopicSize.any fun maximum => maximum < segments

/-- One merge of the walk: the node is always entered, and taken where both its
parents are active and it is not too large. -/
def joinMerge (nodeId : Nat) (merge : Merge) (forest : Forest) : Except String Forest :=
  match forest.members[merge.left]?, forest.members[merge.right]? with
  | none, _ => .error "Topic projection merge references an unknown left node"
  | _, none => .error "Topic projection merge references an unknown right node"
  | some left, some right =>
      if forest.members.length ≠ nodeId then .error "Topic projection merge ordering is invalid"
      else
        let members := forest.members ++ [left ++ right]
        if forest.active.contains merge.left = false ∨ forest.active.contains merge.right = false then
          .ok ⟨members, forest.active⟩
        else if exceeds context (segmentsOf context (left ++ right)) then .ok ⟨members, forest.active⟩
        else .ok ⟨members, ((forest.active.remove merge.left).remove merge.right).insert nodeId ()⟩

def cutLoop (topicCount : Nat) : Nat → List Merge → Forest → Except String Forest
  | _, [], forest => .ok forest
  | mergeIndex, merge :: rest, forest =>
      if forest.active.size ≤ topicCount then .ok forest
      else
        (joinMerge context (context.naturalClusterCount + mergeIndex) merge forest).bind
          (cutLoop topicCount (mergeIndex + 1) rest)

/-- The order of the topics: by smallest leaf, then by node. -/
def Precedes (a b : Nat × Nat) : Prop := a.1 < b.1 ∨ a.1 = b.1 ∧ a.2 ≤ b.2

instance : DecidableRel Precedes := fun a b => by
  unfold Precedes
  infer_instance

def orderedNodes (forest : Forest) : Except String (List (Nat × Nat)) := do
  let ordered ← forest.active.keys.mapM fun node =>
    match (forest.members.getD node []).min? with
    | none => .error "Topic projection node has no leaves"
    | some minimum => .ok (minimum, node)
  .ok (ordered.insertionSort Precedes)

/-- Write the number of each node to its leaves. -/
def numberLeaves (forest : Forest) : Nat → List (Nat × Nat) → List Int → Except String (List Int)
  | _, [], projected => .ok projected
  | projectedId, (_, node) :: rest, projected =>
      if i32Max < projectedId then .error "Topic projection count exceeds i32"
      else
        numberLeaves forest (projectedId + 1) rest
          ((forest.members.getD node []).foldl (fun projected leaf => projected.set leaf projectedId) projected)

def leafProjectionIds (topicCount : Nat) : Except String (List Int) := do
  if topicCount = 0 ∨ context.naturalClusterCount < topicCount then
    .error ("topic_count " ++ toString topicCount ++ " is outside the supported range 1..=" ++
      toString context.naturalClusterCount)
  else
    let forest ← cutLoop context topicCount 0 context.merges (leafForest context.naturalClusterCount)
    let ordered ← orderedNodes forest
    numberLeaves forest 0 ordered (List.replicate context.naturalClusterCount outlierLabel)

/-- One more than the largest id. -/
def idCount (ids : List Int) : Nat := (ids.map fun id => id.toNat + 1).foldl max 0

def validateContext : Except String Unit :=
  if context.version < minReadableContextVersion ∨ contextVersion < context.version then
    .error ("unsupported Topic projection context version " ++ toString context.version)
  else if context.naturalClusterCount = 0 ∨ context.leaves.length ≠ context.naturalClusterCount ∨
      context.merges.length ≠ context.naturalClusterCount - 1 ∨
        (context.leaves.zipIdx.any fun p => p.1.id ≠ p.2) then
    .error "Topic projection context structure is invalid"
  else context.leaves.forM fun leaf => validateNonzeroVector num leaf.embeddingSum "stored leaf embedding"

def projectedTopicCount (requested : Nat) : Except String Nat := do
  validateContext num context
  let ids ← leafProjectionIds context requested
  .ok (idCount ids)

def limitTopicSize (maximum : Option Nat) : Except String (TopicProjectionContext Embedding) :=
  if maximum.any fun maximum => context.leaves.any fun leaf => maximum < leaf.segmentCount then
    .error "A fitted Topic exceeds the maximum segment size"
  else .ok { context with maximumTopicSize := maximum }

end Cut

section Project

/-- What the results are computed with: the word scores, the layout and the
coverage of documents. -/
structure Reports (Embedding Word Coordinate DocumentTopics : Type) where
  representativeWords : List (OrderedMap.Map String Nat) → List String → List (List Word)
  topicCoordinates : List Embedding → Nat → Except String (List Coordinate)
  rollup : Nat → List Nat → List Int → List Nat → List DocumentTopics

structure TopicInfo (Word Coordinate : Type) where
  id : Nat
  representativeWords : List Word
  place : Option Coordinate

structure TopicModelingResult (Word Coordinate DocumentTopics : Type) where
  topics : List (TopicInfo Word Coordinate)
  documents : List (Nat × DocumentTopics)
  nSegments : Nat

variable {Word Coordinate DocumentTopics : Type} (reports : Reports Embedding Word Coordinate DocumentTopics)
  (context : TopicProjectionContext Embedding)

/-- The terms of each topic, with their occurrences in its leaves. -/
def countTerms (unknownTerm : String) (ids : List Int) : Except String (List (OrderedMap.Map String Nat)) :=
  (context.leaves.flatMap fun leaf => leaf.termCounts.map fun t => (leaf.id, t)).foldlM (fun counts entry =>
    match context.vocabulary[entry.2.1]? with
    | none => .error unknownTerm
    | some term =>
        .ok (counts.modify (ids.getD entry.1 outlierLabel).toNat fun topic =>
          topic.insert term ((topic.get? term).getD 0 + entry.2.2)))
    (List.replicate (idCount ids) .empty)

/-- The topic of a segment, with the errors of the function that asks. -/
def segmentTopic (invalidLeaf unknownLeaf : String) (ids : List Int) (fact : SegmentFact) : Except String Int :=
  if fact.leafId.toInt = outlierLabel then .ok outlierLabel
  else if fact.leafId.toInt < 0 then .error invalidLeaf
  else
    match ids[fact.leafId.toInt.toNat]? with
    | none => .error unknownLeaf
    | some topic => .ok topic

def projectDocuments (topicCount : Nat) : Except String (List (Nat × DocumentTopics)) := do
  validateContext num context
  let ids ← leafProjectionIds context topicCount
  let labels ← context.segments.mapM (segmentTopic "Topic projection segment leaf id is invalid"
    "Topic projection segment leaf id is outside the context" ids)
  .ok ((reports.rollup context.documentCount (context.segments.map SegmentFact.documentIndex) labels
    (context.segments.map SegmentFact.ownedCharacterWeight)).zipIdx.map Prod.swap)

def project (topicCount : Nat) : Except String (TopicModelingResult Word Coordinate DocumentTopics) := do
  validateContext num context
  let ids ← leafProjectionIds context topicCount
  if ids.any fun id => id < 0 then .error "Topic projection produced an invalid Topic id"
  else
    let counts ← countTerms context "Topic projection term index is outside the vocabulary" ids
    let sums := (List.range (idCount ids)).map fun (topic : Nat) =>
      num.total ((context.leaves.filter fun leaf => ids.getD leaf.id outlierLabel = topic).map Leaf.embeddingSum)
    let words := reports.representativeWords counts []
    let coordinates ← reports.topicCoordinates sums context.seed
    let documents ← projectDocuments num reports context (idCount ids)
    .ok ⟨(List.range (idCount ids)).map fun id => ⟨id, words.getD id [], coordinates[id]?⟩, documents, context.nSegments⟩

/-- The document, the span and the topic of each segment. -/
def projectSegments (topicCount : Nat) : Except String (List (Nat × Nat × Nat × Int)) := do
  validateContext num context
  let ids ← leafProjectionIds context topicCount
  context.segments.mapM fun fact =>
    match fact.span with
    | none =>
        .error "Topic projection context has no segment spans; re-run the analysis to detach per topic"
    | some (start, stop) =>
        (segmentTopic "Topic projection segment has an invalid leaf"
          "Topic projection segment references an unknown leaf" ids fact).map fun topic =>
            (fact.documentIndex, start, stop, topic)

def projectWords (topicCount : Nat) (excluded : List String) : Except String (List (List Word)) := do
  validateContext num context
  let ids ← leafProjectionIds context topicCount
  let counts ← countTerms context "Topic term outside vocabulary" ids
  .ok (reports.representativeWords counts excluded)

end Project

end Wordflow.Topics
