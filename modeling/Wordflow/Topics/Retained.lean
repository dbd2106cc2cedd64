import Mathlib.Data.List.MinMax
import Wordflow.Segmentation.Segments
import Wordflow.Topics.Rollup

namespace Wordflow.Topics

open Library Library.Fallible Segmentation

inductive TopicSizeLimit
  | uncapped
  | auto
  | fixed (size : Nat)
  deriving DecidableEq

/-- A fixed limit that is not over the least size of a topic. -/
def TopicSizeLimit.tooSmall (minClusterSize : Nat) : TopicSizeLimit → Bool
  | .fixed requested => requested ≤ minClusterSize
  | _ => false

structure ClusterResult where
  labels : List Int32
  nTopics : Nat
  maxClusterSize : Option Nat

/-- The density clustering, with the least and the greatest size of a cluster. It
gives one label for each point. -/
structure Hdbscan (Point : Type) where
  labels : List Point → Nat → Option Nat → Except String (List Int32)
  length : ∀ points minimum maximum found, labels points minimum maximum = .ok found → found.length = points.length

section Cluster

variable {Point : Type} (hdbscan : Hdbscan Point)

/-- The label and size of the largest topic. -/
def largestTopic (labels : List Int32) : Option (Int × Nat) :=
  (OrderedMap.Map.tally (((labels.map Int32.toInt).filter (· ≠ outlierLabel)).map (·, 1))).entries.argmin dominance

def runHdbscan (points : List Point) (minClusterSize : Nat) (maxClusterSize : Option Nat) : Except String ClusterResult := do
  let applied := maxClusterSize.filter fun cap => cap < points.length
  let labels ← hdbscan.labels points minClusterSize applied
  if ∃ maximum ∈ maxClusterSize, ∃ largest ∈ largestTopic labels, maximum < largest.2 then
    .error "HDBSCAN returned a Topic larger than the maximum segment size"
  else .ok ⟨labels, (labels.filter fun label => label.toInt ≠ outlierLabel).dedup.length, applied⟩

def acceptCapped (previous capped : ClusterResult) (dominant : Int) : Bool :=
  if capped.nTopics ≤ previous.nTopics then false
  else
    let members := (previous.labels.zip capped.labels).filter fun p => p.1.toInt = dominant
    let kept := members.filter fun p => p.2.toInt ≠ outlierLabel
    members.length ≤ kept.length * 2

def autoMaxPasses : Nat := 8

/-- The passes of Auto: while one topic has more than half of the points, the cap is put below its size. -/
def refineAuto (points : List Point) (minClusterSize : Nat) : Nat → ClusterResult → Except String ClusterResult
  | 0, best => .ok best
  | passes + 1, best =>
      match largestTopic best.labels with
      | none => .ok best
      | some (dominant, dominantSize) =>
          let cap := max (dominantSize - 1) (minClusterSize + 1)
          if dominantSize * 2 ≤ points.length ∨ dominantSize ≤ cap then .ok best
          else do
            let capped ← runHdbscan hdbscan points minClusterSize (some cap)
            if acceptCapped best capped dominant then refineAuto points minClusterSize passes capped else .ok best

def cluster (points : List Point) (minClusterSize : Nat) (limit : TopicSizeLimit) : Except String ClusterResult :=
  if limit.tooSmall minClusterSize then
    .error "Maximum topic size must exceed the minimum topic size"
  else if points.length < 2 then .ok ⟨List.replicate points.length (-1), 0, none⟩
  else
    let minClusterSize := min (max 2 minClusterSize) points.length
    match limit with
    | .uncapped => runHdbscan hdbscan points minClusterSize none
    | .fixed requested => runHdbscan hdbscan points minClusterSize (some requested)
    | .auto => do
        let best ← runHdbscan hdbscan points minClusterSize none
        refineAuto hdbscan points minClusterSize autoMaxPasses best

end Cluster

structure RunConfig where
  seed : Nat
  minClusterSize : Nat
  topicSizeLimit : TopicSizeLimit
  vectorizerModelId : Option String
  lowercase : Bool

structure CacheScope where
  modelId : String
  fingerprint : String
  providerId : String

structure RetainedStages (Point : Type) where
  version : Nat
  segments : List TopicSegment
  reduced : List Point
  labels : List Int32
  seed : Nat
  minimumTopicSize : Nat
  maximumTopicSize : Option Nat
  automaticLimit : Bool
  tokenizer : String
  lowercase : Bool
  scope : CacheScope

structure Adjustment where
  minimumTopicSize : Nat
  maximumTopicSize : Option Nat
  tokenizer : String
  deriving DecidableEq

def plainWordsEnModelId : String := "native:plain_words_en"

def RetainedStages.new {Point : Type} (segments : List TopicSegment) (reduced : List Point) (cfg : RunConfig) (scope : CacheScope) :
    RetainedStages Point where
  version := 1
  segments := segments
  reduced := reduced
  labels := []
  seed := cfg.seed
  minimumTopicSize := cfg.minClusterSize
  maximumTopicSize :=
    match cfg.topicSizeLimit with
    | .fixed size => some size
    | _ => none
  automaticLimit := cfg.topicSizeLimit = .auto
  tokenizer := cfg.vectorizerModelId.getD plainWordsEnModelId
  lowercase := cfg.lowercase
  scope := scope

/-- What a model is computed with: the clustering, the word counts, the cache of
embeddings, the numbers and reports of the projection and its encoding. -/
structure Engine (Point Embedding Distance Word Coordinate Topics Bytes : Type) where
  hdbscan : Hdbscan Point
  countTopicTerms : Nat → List (Int32 × Document) → String → Bool → Except String (List (List (String × Nat)))
  cached : CacheScope → List Document → Except String (List Point)
  numerics : Numerics Point Embedding Distance
  reports : Reports Embedding Word Coordinate Topics
  serializeContext : TopicProjectionContext Embedding → Except String Bytes

structure Model (Point Word Coordinate Topics Bytes : Type) extends TopicModelingResult Word Coordinate Topics where
  maxTopicSize : Option Nat
  projectionContext : Option Bytes
  retainedStages : Option (RetainedStages Point)

section Finish

variable {Point Embedding Distance Word Coordinate Topics Bytes : Type}
  (engine : Engine Point Embedding Distance Word Coordinate Topics Bytes) (documents : List Document)

def segmentText (segment : TopicSegment) : Except String Document :=
  match documents[segment.docIndex]? with
  | none => .error "Retained Topic source is unavailable. Rerun this analysis."
  | some document =>
      match slice? document segment.startByte segment.endByte with
      | none =>
          .error ("Topic Segment byte range " ++ toString segment.startByte ++ ".." ++ toString segment.endByte ++
            " is invalid for document " ++ toString segment.docIndex)
      | some text => .ok text

/-- The characters of a segment in its document. -/
def segmentSpan (segment : TopicSegment) : Except String (Nat × Nat) :=
  match documents[segment.docIndex]? >>= fun document => slice? document 0 segment.startByte with
  | none => .error "Invalid retained Topic span"
  | some before => .ok (before.length, before.length + segment.ownedCharacterCount)

def noTopicResult (segmentDocIndices segmentWeights : List Nat) : Model Point Word Coordinate Topics Bytes where
  topics := []
  documents := (engine.reports.rollup documents.length segmentDocIndices
    (List.replicate segmentDocIndices.length outlierLabel) segmentWeights).zipIdx.map Prod.swap
  nSegments := segmentDocIndices.length
  maxTopicSize := none
  projectionContext := none
  retainedStages := none

def RetainedStages.limit (stages : RetainedStages Point) : TopicSizeLimit :=
  if stages.automaticLimit then .auto else stages.maximumTopicSize.elim .uncapped .fixed

/-- The clustering of `finish`. -/
def clusterStages (stages : RetainedStages Point) : Except String ClusterResult :=
  if stages.reduced.length < stages.minimumTopicSize then .ok ⟨List.replicate stages.reduced.length (-1), 0, none⟩
  else cluster engine.hdbscan stages.reduced stages.minimumTopicSize stages.limit

/-- The rest of `finish`: the words, the hierarchy and the projection of the labels. -/
def projectStages (stages : RetainedStages Point) (embeddings : List Point) :
    Except String (Model Point Word Coordinate Topics Bytes) := do
  let docIndices := stages.segments.map TopicSegment.docIndex
  let weights := stages.segments.map TopicSegment.ownedCharacterCount
  let count := naturalClusterCount stages.labels
  if count = 0 then .ok (noTopicResult engine documents docIndices weights)
  else
    let texts ← stages.segments.mapM (segmentText documents)
    let terms ← engine.countTopicTerms count (stages.labels.zip texts) stages.tokenizer stages.lowercase
    let spans ← stages.segments.mapM (segmentSpan documents)
    let context ← prepareContext engine.numerics
      { documentCount := documents.length
        labels := stages.labels
        embeddingPoints := embeddings
        documentIndices := docIndices
        ownedCharacterWeights := weights
        characterSpans := spans
        perLeafTermCounts := terms
        seed := stages.seed }
    let context ← limitTopicSize context stages.maximumTopicSize
    let result ← project engine.numerics engine.reports context count
    let bytes ← engine.serializeContext context
    .ok { result with maxTopicSize := none, projectionContext := some bytes, retainedStages := none }

def finish (stages : RetainedStages Point) (embeddings : List Point) (recluster : Bool) :
    Except String (Model Point Word Coordinate Topics Bytes) := do
  let (stages, maxTopicSize) ←
    if recluster then do
      let clustered ← clusterStages engine stages
      pure ({ stages with labels := clustered.labels }, clustered.maxClusterSize)
    else pure (stages, stages.maximumTopicSize)
  let result ← projectStages engine documents stages embeddings
  .ok { result with maxTopicSize := maxTopicSize, retainedStages := some stages }

/-- A run on segments that are embedded and reduced. -/
def run (segments : List TopicSegment) (reduced embeddings : List Point) (cfg : RunConfig) (scope : CacheScope) :
    Except String (Model Point Word Coordinate Topics Bytes) :=
  if cfg.minClusterSize < 2 then .error "min_cluster_size must be at least 2"
  else if segments.length < 3 then
    .ok (noTopicResult engine documents (segments.map TopicSegment.docIndex) (segments.map TopicSegment.ownedCharacterCount))
  else finish engine documents (.new segments reduced cfg scope) embeddings true

def RetainedStages.recluster (retained : RetainedStages Point) (a : Adjustment) : Bool :=
  retained.minimumTopicSize ≠ a.minimumTopicSize ∨ retained.maximumTopicSize ≠ a.maximumTopicSize ∨ retained.automaticLimit

def RetainedStages.adjusted (retained : RetainedStages Point) (a : Adjustment) : RetainedStages Point :=
  { retained with
    minimumTopicSize := a.minimumTopicSize
    maximumTopicSize := a.maximumTopicSize
    automaticLimit := false
    tokenizer := a.tokenizer }

def adjust (retained : RetainedStages Point) (a : Adjustment) : Except String (Model Point Word Coordinate Topics Bytes) := do
  if ¬(retained.version = 1 ∧ retained.segments.length = retained.reduced.length ∧
      retained.labels.length = retained.segments.length) then
    .error "Required Topic intermediates are unavailable. Rerun this analysis."
  else if ¬(2 ≤ a.minimumTopicSize ∧ ∀ size ∈ a.maximumTopicSize, a.minimumTopicSize < size) then
    .error "Maximum topic size must exceed the minimum topic size"
  else
    let texts ← retained.segments.mapM (segmentText documents)
    let embeddings ← engine.cached retained.scope texts
    finish engine documents (retained.adjusted a) embeddings (retained.recluster a)

end Finish

end Wordflow.Topics
