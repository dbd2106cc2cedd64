import Wordflow.Topics.Retained

namespace Wordflow.Topics

open Library Library.Fallible Segmentation

section Cluster

variable {Point : Type} {hdbscan : Hdbscan Point} {points : List Point} {minClusterSize passes : Nat} {best c : ClusterResult}

theorem runHdbscan_spec {maximum : Option Nat} (h : runHdbscan hdbscan points minClusterSize maximum = .ok c) :
    c.labels.length = points.length ∧ c.maxClusterSize = maximum.filter fun cap => cap < points.length := by
  rw [runHdbscan, bind_eq_ok] at h
  obtain ⟨labels, hlabels, h⟩ := h
  obtain ⟨-, h⟩ := guard_eq_ok.mp h
  obtain rfl := Except.ok.inj h
  exact ⟨hdbscan.length _ _ _ _ hlabels, rfl⟩

theorem refineAuto_length (hbest : best.labels.length = points.length)
    (h : refineAuto hdbscan points minClusterSize passes best = .ok c) : c.labels.length = points.length := by
  induction passes generalizing best with
  | zero => exact Except.ok.inj h ▸ hbest
  | succ passes ih =>
      rw [refineAuto] at h
      split at h
      · exact Except.ok.inj h ▸ hbest
      · simp only at h
        split at h
        · exact Except.ok.inj h ▸ hbest
        · obtain ⟨capped, hcapped, h⟩ := bind_eq_ok.mp h
          split at h
          · exact ih (runHdbscan_spec hcapped).1 h
          · exact Except.ok.inj h ▸ hbest

theorem cluster_length {limit : TopicSizeLimit} (h : cluster hdbscan points minClusterSize limit = .ok c) :
    c.labels.length = points.length := by
  rw [cluster] at h
  obtain ⟨-, h⟩ := guard_eq_ok.mp h
  split at h
  · obtain rfl := Except.ok.inj h
    exact List.length_replicate
  · cases limit with
    | uncapped | fixed => exact (runHdbscan_spec h).1
    | auto =>
        obtain ⟨best, hbest, h⟩ := bind_eq_ok.mp h
        exact refineAuto_length (runHdbscan_spec hbest).1 h

/-- Without Auto, the cap in the result is the one that is asked for, if it is below the number of points. -/
theorem cluster_applied {maximum : Option Nat} (hpoints : 2 ≤ points.length)
    (h : cluster hdbscan points minClusterSize (maximum.elim .uncapped .fixed) = .ok c) :
    c.maxClusterSize = maximum.filter fun cap => cap < points.length := by
  rw [cluster] at h
  obtain ⟨-, h⟩ := guard_eq_ok.mp h
  rw [if_neg (by omega)] at h
  cases maximum with
  | none | some => exact (runHdbscan_spec h).2

end Cluster

section Adjust

variable {Point Embedding Distance Word Coordinate Topics Bytes : Type}
  {engine : Engine Point Embedding Distance Word Coordinate Topics Bytes} {documents : List Document}
  {s t : RetainedStages Point} {a b : Adjustment} {embeddings : List Point} {m : Model Point Word Coordinate Topics Bytes}

theorem clusterStages_length {c : ClusterResult} (h : clusterStages engine s = .ok c) : c.labels.length = s.reduced.length := by
  rw [clusterStages] at h
  split at h
  · obtain rfl := Except.ok.inj h
    exact List.length_replicate
  · exact cluster_length h

def Adjustment.Valid (a : Adjustment) : Prop := 2 ≤ a.minimumTopicSize ∧ ∀ size ∈ a.maximumTopicSize, a.minimumTopicSize < size

/-- The maximum size has an effect on `n` segments, or there is none. -/
def Adjustment.Effective (a : Adjustment) (n : Nat) : Prop :=
  ∀ cap ∈ a.maximumTopicSize, a.minimumTopicSize ≤ n ∧ cap < n

/-- The cap that the clustering of `n` segments reports. -/
def Adjustment.applied (a : Adjustment) (n : Nat) : Option Nat :=
  if n < a.minimumTopicSize then none else a.maximumTopicSize.filter fun cap => cap < n

theorem applied_eq_iff {n : Nat} : a.applied n = a.maximumTopicSize ↔ a.Effective n := by
  rw [Adjustment.applied, Adjustment.Effective]
  cases a.maximumTopicSize with
  | none => simp
  | some cap =>
      by_cases hn : n < a.minimumTopicSize
      · simp [hn]
      · by_cases hcap : cap < n <;> simp [hn, hcap]
        omega

theorem clusterStages_applied {c : ClusterResult} (ha : a.Valid) (h : clusterStages engine (s.adjusted a) = .ok c) :
    c.maxClusterSize = a.applied s.reduced.length := by
  rw [clusterStages] at h
  rw [Adjustment.applied]
  change (if s.reduced.length < a.minimumTopicSize then _ else cluster engine.hdbscan s.reduced a.minimumTopicSize
    (a.maximumTopicSize.elim .uncapped .fixed)) = _ at h
  by_cases hn : s.reduced.length < a.minimumTopicSize
  · rw [if_pos hn] at h ⊢
    exact Except.ok.inj h ▸ rfl
  · rw [if_neg hn] at h ⊢
    have hpoints := ha.1
    exact cluster_applied (by omega) h

/-- The model as it is with another maximum size in its report. -/
def Model.reporting (m : Model Point Word Coordinate Topics Bytes) (maximum : Option Nat) : Model Point Word Coordinate Topics Bytes :=
  { m with maxTopicSize := maximum }

theorem finish_reclusters (h : finish engine documents s embeddings true = .ok m) :
    ∃ c, clusterStages engine s = .ok c ∧ m.retainedStages = some { s with labels := c.labels } ∧
      m.maxTopicSize = c.maxClusterSize := by
  obtain ⟨c, hc, h⟩ := bind_eq_ok.mp h
  obtain ⟨stages, hstages, h⟩ := bind_eq_ok.mp h
  cases hstages
  obtain ⟨result, -, h⟩ := bind_eq_ok.mp h
  obtain rfl := Except.ok.inj h
  exact ⟨c, hc, rfl, rfl⟩

/-- With the labels that the clustering would give, the clustering can be left out; the cap is then reported as it is set. -/
theorem finish_skips {c : ClusterResult} (hc : clusterStages engine s = .ok c) (hlabels : s.labels = c.labels) :
    finish engine documents s embeddings false =
      (finish engine documents s embeddings true).map fun m => m.reporting s.maximumTopicSize := by
  have hsame : { s with labels := c.labels } = s := by rw [← hlabels]
  have hskip : finish engine documents s embeddings false = (projectStages engine documents s embeddings).map fun result =>
      { result with maxTopicSize := s.maximumTopicSize, retainedStages := some s } := by
    cases hproject : projectStages engine documents s embeddings <;> simp [finish, hproject, bind, Except.bind, pure, Except.pure, Except.map]
  have hrecluster : finish engine documents s embeddings true = (projectStages engine documents s embeddings).map fun result =>
      { result with maxTopicSize := c.maxClusterSize, retainedStages := some s } := by
    cases hproject : projectStages engine documents s embeddings <;>
      simp [finish, hc, hsame, hproject, bind, Except.bind, pure, Except.pure, Except.map]
  rw [hskip, hrecluster]
  cases projectStages engine documents s embeddings <;> rfl

/-- Stages of the same run. -/
structure SameInput (s t : RetainedStages Point) : Prop where
  version : t.version = s.version
  segments : t.segments = s.segments
  reduced : t.reduced = s.reduced
  seed : t.seed = s.seed
  lowercase : t.lowercase = s.lowercase
  scope : t.scope = s.scope

/-- The labels of retained stages are those that their own settings give. -/
structure Settled (engine : Engine Point Embedding Distance Word Coordinate Topics Bytes) (s : RetainedStages Point) : Prop where
  version : s.version = 1
  aligned : s.segments.length = s.reduced.length
  enough : 3 ≤ s.segments.length
  labels : ∃ c, clusterStages engine s = .ok c ∧ s.labels = c.labels

/-- The stages that are retained by a run and after any adjustments. -/
inductive Reached (engine : Engine Point Embedding Distance Word Coordinate Topics Bytes) (documents : List Document) :
    RetainedStages Point → Prop
  | run {segments : List TopicSegment} {reduced embeddings : List Point} {cfg : RunConfig} {scope : CacheScope}
      {m : Model Point Word Coordinate Topics Bytes} {s : RetainedStages Point} (hreduced : reduced.length = segments.length)
      (h : run engine documents segments reduced embeddings cfg scope = .ok m) (hs : m.retainedStages = some s) :
      Reached engine documents s
  | adjust {s t : RetainedStages Point} {a : Adjustment} {m : Model Point Word Coordinate Topics Bytes}
      (hs : Reached engine documents s) (h : adjust engine documents s a = .ok m) (ht : m.retainedStages = some t) :
      Reached engine documents t

/-- The embeddings of the segments in the cache. -/
def embeddingsOf (engine : Engine Point Embedding Distance Word Coordinate Topics Bytes) (documents : List Document)
    (s : RetainedStages Point) : Except String (List Point) := do
  let texts ← s.segments.mapM (segmentText documents)
  engine.cached s.scope texts

/-- The adjustment with the clustering made again in any case. -/
def refit (engine : Engine Point Embedding Distance Word Coordinate Topics Bytes) (documents : List Document)
    (s : RetainedStages Point) (a : Adjustment) : Except String (Model Point Word Coordinate Topics Bytes) := do
  let embeddings ← embeddingsOf engine documents s
  finish engine documents (s.adjusted a) embeddings true

theorem finish_labels (labels : List Int32) :
    finish engine documents { s with labels := labels } embeddings true = finish engine documents s embeddings true := rfl

theorem refit_congr (h : SameInput s t) : refit engine documents t a = refit engine documents s a := by
  obtain ⟨version, segments, reduced, labels, seed, minimum, maximum, automatic, tokenizer, lowercase, scope⟩ := s
  obtain ⟨version', segments', reduced', labels', seed', minimum', maximum', automatic', tokenizer', lowercase', scope'⟩ := t
  obtain ⟨rfl, rfl, rfl, rfl, rfl, rfl⟩ := h
  rfl

theorem adjust_eq (hs : Settled engine s) (ha : a.Valid) : adjust engine documents s a =
    (refit engine documents s a).map fun m => if s.recluster a then m else m.reporting a.maximumTopicSize := by
  obtain ⟨c, hc, hlabels⟩ := hs.labels
  have hlength : s.labels.length = s.segments.length := by rw [hlabels, clusterStages_length hc, hs.aligned]
  have hfinish : ∀ embeddings, finish engine documents (s.adjusted a) embeddings (s.recluster a) =
      (finish engine documents (s.adjusted a) embeddings true).map fun m =>
        if s.recluster a then m else m.reporting a.maximumTopicSize := by
    intro embeddings
    cases hrecluster : s.recluster a with
    | true => cases finish engine documents (s.adjusted a) embeddings true <;> rfl
    | false =>
        -- the settings of the clustering are those of the stages
        rw [RetainedStages.recluster, decide_eq_false_iff_not, not_or, not_or, not_not, not_not] at hrecluster
        obtain ⟨hminimum, hmaximum, hautomatic⟩ := hrecluster
        have hsame : clusterStages engine (s.adjusted a) = .ok c := by
          rw [← hc, clusterStages, clusterStages, RetainedStages.adjusted, RetainedStages.limit, RetainedStages.limit, hminimum, hmaximum,
            Bool.eq_false_iff.mpr hautomatic]
        exact finish_skips hsame hlabels
  have hvalid : ¬¬(2 ≤ a.minimumTopicSize ∧ ∀ size ∈ a.maximumTopicSize, a.minimumTopicSize < size) := not_not_intro ha
  rw [adjust, if_neg (not_not_intro ⟨hs.version, hs.aligned, hlength⟩), if_neg hvalid, refit, embeddingsOf]
  cases s.segments.mapM (segmentText documents) with
  | error _ => rfl
  | ok texts =>
      change (engine.cached s.scope texts >>= _) = _
      cases hcached : engine.cached s.scope texts with
      | error _ => simp [bind, Except.bind, hcached, Except.map]
      | ok embeddings =>
          simp only [bind, Except.bind, hcached]
          exact hfinish embeddings

/-- The settings of a run that has those of an adjustment from the start. -/
def RetainedStages.config (s : RetainedStages Point) (a : Adjustment) : RunConfig where
  seed := s.seed
  minClusterSize := a.minimumTopicSize
  topicSizeLimit := a.maximumTopicSize.elim .uncapped .fixed
  vectorizerModelId := some a.tokenizer
  lowercase := s.lowercase

theorem run_config (hs : Settled engine s) (ha : a.Valid) :
    run engine documents s.segments s.reduced embeddings (s.config a) s.scope =
      finish engine documents (s.adjusted a) embeddings true := by
  have hminimum : ¬(s.config a).minClusterSize < 2 := Nat.not_lt_of_le ha.1
  have hnew : RetainedStages.new s.segments s.reduced (s.config a) s.scope = { s.adjusted a with labels := [] } := by
    obtain ⟨version, segments, reduced, labels, seed, minimum, maximum, automatic, tokenizer, lowercase, scope⟩ := s
    obtain rfl := hs.version
    obtain ⟨minimum', maximum', tokenizer'⟩ := a
    cases maximum' <;> rfl
  rw [run, if_neg hminimum, if_neg (Nat.not_lt_of_le hs.enough), hnew, finish_labels]

theorem retained_eq (hs : Settled engine s) (ha : a.Valid) (h : adjust engine documents s a = .ok m) :
    ∃ c, clusterStages engine (s.adjusted a) = .ok c ∧ m.retainedStages = some { s.adjusted a with labels := c.labels } := by
  rw [adjust_eq hs ha, map_eq_ok] at h
  obtain ⟨refitted, hrefit, rfl⟩ := h
  obtain ⟨embeddings, -, hfinish⟩ := bind_eq_ok.mp hrefit
  obtain ⟨c, hc, hretained, -⟩ := finish_reclusters hfinish
  refine ⟨c, hc, ?_⟩
  cases s.recluster a <;> exact hretained

theorem valid_of_adjust (h : adjust engine documents s a = .ok m) : a.Valid := by
  rw [adjust, guard_eq_ok, guard_eq_ok, not_not, not_not] at h
  exact h.2.1

/-- An adjustment leaves what belongs to the run, and its labels are those of its settings. -/
theorem adjust_settled (hs : Settled engine s) (h : adjust engine documents s a = .ok m) (ht : m.retainedStages = some t) :
    Settled engine t ∧ SameInput s t ∧ ∃ labels, t = { s.adjusted a with labels := labels } := by
  obtain ⟨c, hc, hretained⟩ := retained_eq hs (valid_of_adjust h) h
  obtain rfl := Option.some.inj (ht.symm.trans hretained)
  exact ⟨⟨hs.version, hs.aligned, hs.enough, c, hc, rfl⟩, ⟨rfl, rfl, rfl, rfl, rfl, rfl⟩, c.labels, rfl⟩

theorem Reached.settled (h : Reached engine documents s) : Settled engine s := by
  induction h with
  | @run segments reduced embeddings cfg scope m s hreduced h hs =>
      rw [Topics.run, guard_eq_ok] at h
      obtain ⟨-, h⟩ := h
      split at h
      · obtain rfl := Except.ok.inj h
        cases hs
      · rename_i henough
        obtain ⟨c, hc, hretained, -⟩ := finish_reclusters h
        obtain rfl := Option.some.inj (hs.symm.trans hretained)
        exact ⟨rfl, hreduced.symm, Nat.le_of_not_lt henough, c, hc, rfl⟩
  | adjust _ h ht ih => exact (adjust_settled ih h ht).1

/-- What an adjustment gives does not depend on the adjustments before it, nor
on the settings of the run. -/
structure PathIndependent (engine : Engine Point Embedding Distance Word Coordinate Topics Bytes) (documents : List Document)
    (s : RetainedStages Point) (a b : Adjustment) : Prop where
  after : ∀ m t, adjust engine documents s b = .ok m → m.retainedStages = some t →
    adjust engine documents t a = adjust engine documents s a
  twice : ∀ m t, adjust engine documents s a = .ok m → m.retainedStages = some t →
    adjust engine documents t a = adjust engine documents s a
  fit : ∀ embeddings, embeddingsOf engine documents s = .ok embeddings →
    run engine documents s.segments s.reduced embeddings (s.config a) s.scope = adjust engine documents s a

theorem refit_reports (ha : a.Valid) (h : refit engine documents s a = .ok m) : m.maxTopicSize = a.applied s.reduced.length := by
  obtain ⟨embeddings, -, hfinish⟩ := bind_eq_ok.mp h
  obtain ⟨c, hc, -, hmaximum⟩ := finish_reclusters hfinish
  rw [hmaximum, clusterStages_applied ha hc]

/-- With an effective maximum it makes no difference whether the clustering is left out. -/
theorem adjust_effective (hs : Settled engine s) (ha : a.Valid) (heffective : a.Effective s.segments.length) :
    adjust engine documents s a = refit engine documents s a := by
  rw [adjust_eq hs ha]
  cases hrefit : refit engine documents s a with
  | error _ => rfl
  | ok refitted =>
      have hreports : refitted.reporting a.maximumTopicSize = refitted := by
        rw [Model.reporting, ← applied_eq_iff.mpr (hs.aligned ▸ heffective), ← refit_reports ha hrefit]
      cases s.recluster a with
      | true => rfl
      | false => exact congrArg Except.ok hreports

theorem pathIndependent_of_effective (hs : Settled engine s) (ha : a.Valid) (heffective : a.Effective s.segments.length) :
    PathIndependent engine documents s a b where
  after := by
    intro m t h ht
    obtain ⟨ht, hsame, -⟩ := adjust_settled hs h ht
    rw [adjust_effective hs ha heffective, adjust_effective ht ha (hsame.segments ▸ heffective), refit_congr hsame]
  twice := by
    intro m t h ht
    obtain ⟨ht, hsame, -⟩ := adjust_settled hs h ht
    rw [adjust_effective hs ha heffective, adjust_effective ht ha (hsame.segments ▸ heffective), refit_congr hsame]
  fit := by
    intro embeddings hembeddings
    rw [run_config hs ha, adjust_effective hs ha heffective, refit, hembeddings]
    rfl

theorem effective_of_pathIndependent (hs : Settled engine s) (h : adjust engine documents s a = .ok m)
    (hindependent : PathIndependent engine documents s a b) : a.Effective s.segments.length := by
  have ha := valid_of_adjust h
  have hrefitted := h
  rw [adjust_eq hs ha, map_eq_ok] at hrefitted
  obtain ⟨refitted, hrefit, -⟩ := hrefitted
  -- the run with these settings reports the cap that the clustering has applied
  have hrun : m = refitted := by
    obtain ⟨embeddings, hembeddings, hfinish⟩ := bind_eq_ok.mp hrefit
    have hfit := hindependent.fit embeddings hembeddings
    rw [run_config hs ha, hfinish, h] at hfit
    exact (Except.ok.inj hfit).symm
  -- the second adjustment skips the clustering and reports the cap that is set
  obtain ⟨c, hc, hretained⟩ := retained_eq hs ha h
  have hagain : m = refitted.reporting a.maximumTopicSize := by
    obtain ⟨ht, hsame, -⟩ := adjust_settled hs h hretained
    have htwice := hindependent.twice _ _ h hretained
    have hskips : RetainedStages.recluster { s.adjusted a with labels := c.labels } a = false := by
      simp [RetainedStages.recluster, RetainedStages.adjusted]
    rw [adjust_eq ht ha, refit_congr hsame, hrefit, h, hskips] at htwice
    exact (Except.ok.inj htwice).symm
  rw [← applied_eq_iff, hs.aligned, ← refit_reports ha hrefit, ← hrun]
  exact congrArg Model.maxTopicSize hagain

end Adjust

end Wordflow.Topics
