import Mathlib.Algebra.BigOperators.Group.Finset.Basic
import Mathlib.Algebra.Order.BigOperators.Group.List
import Mathlib.Analysis.SpecialFunctions.Log.Base
import Mathlib.Data.String.Basic
import Wordflow.Frequency.Comparison
import Wordflow.Library.Fallible

namespace Wordflow.Frequency

open Library Library.Fallible Number Analyses Objects

section Counts

variable {τ : Type} {counts a b : Counts τ} {token : τ}

theorem foldlM_checked {values : List Nat} {start : Nat} (hstart : start < 2 ^ 64) :
    values.foldlM (fun sum n => if sum + n < 2 ^ 64 then some (sum + n) else none) start =
      if start + values.sum < 2 ^ 64 then some (start + values.sum) else none := by
  induction values generalizing start with
  | nil => exact (if_pos hstart).symm
  | cons n values ih =>
      rw [List.foldlM_cons, List.sum_cons, ← Nat.add_assoc]
      by_cases h : start + n < 2 ^ 64
      · rw [if_pos h]
        exact ih h
      · have hsum : ¬start + n + values.sum < 2 ^ 64 := by omega
        rw [if_neg h, if_neg hsum]
        rfl

theorem checkedSum_eq (values : List Nat) : checkedSum values = if values.sum < 2 ^ 64 then some values.sum else none := by
  rw [checkedSum, foldlM_checked (by norm_num), Nat.zero_add]

theorem corpusTotal_eq {counts : Counts τ} (h : counts.total < 2 ^ 64) : corpusTotal counts = .ok counts.total := by
  have hsum : checkedSum (counts.entries.map Prod.snd) = some counts.total := by
    rw [checkedSum_eq]
    exact if_pos h
  rw [corpusTotal, hsum]

variable [DecidableEq τ]

theorem frequency_of_mem {e : τ × Nat} (h : e ∈ counts.entries) : counts.frequency e.1 = e.2 := by
  rw [Counts.frequency, (FullJoin.lookup_eq_some counts.nodup).mpr h]
  rfl

theorem frequency_of_notMem (h : token ∉ counts.tokens) : counts.frequency token = 0 := by
  rw [Counts.frequency, FullJoin.lookup_eq_none.mpr h]
  rfl

theorem total_eq_sum (counts : Counts τ) : counts.total = (counts.tokens.map counts.frequency).sum := by
  rw [Counts.total, Counts.tokens, List.map_map]
  congr 1
  apply List.map_congr_left
  intro e he
  exact (frequency_of_mem he).symm

/-- The counts of tokens that differ add up to the total, where no token that occurs is left out. -/
theorem sum_frequency {tokens : List τ} (hnodup : tokens.Nodup) (hall : ∀ t, 0 < counts.frequency t → t ∈ tokens) :
    (tokens.map counts.frequency).sum = counts.total := by
  have hcounts : counts.tokens.Nodup := counts.nodup
  rw [total_eq_sum, ← List.sum_toFinset _ hnodup, ← List.sum_toFinset _ hcounts]
  have hzero : ∀ t, t ∉ tokens → counts.frequency t = 0 := fun t ht => Nat.eq_zero_of_not_pos fun h => ht (hall t h)
  calc
    ∑ t ∈ tokens.toFinset, counts.frequency t = ∑ t ∈ tokens.toFinset ∪ counts.tokens.toFinset, counts.frequency t := by
      apply Finset.sum_subset Finset.subset_union_left
      intro t _ ht
      exact hzero t fun h => ht (List.mem_toFinset.mpr h)
    _ = ∑ t ∈ counts.tokens.toFinset, counts.frequency t := by
      symm
      apply Finset.sum_subset Finset.subset_union_right
      intro t _ ht
      exact frequency_of_notMem fun h => ht (List.mem_toFinset.mpr h)

theorem frequency_le_total (counts : Counts τ) (token : τ) : counts.frequency token ≤ counts.total := by
  by_cases h : token ∈ counts.tokens
  · rw [total_eq_sum]
    exact List.single_le_sum (fun _ _ => Nat.zero_le _) _ (List.mem_map_of_mem h)
  · rw [frequency_of_notMem h]
    exact Nat.zero_le _

/-- The tokens of the one table, then those that only the other has. -/
def joined (a b : Counts τ) : List τ := a.tokens ++ b.tokens.filter (· ∉ a.tokens)

theorem mem_joined : token ∈ joined a b ↔ token ∈ a.tokens ∨ token ∈ b.tokens := by
  rw [joined, List.mem_append, List.mem_filter]
  by_cases h : token ∈ a.tokens <;> simp [h]

theorem joined_nodup (a b : Counts τ) : (joined a b).Nodup := by
  have hb : b.tokens.Nodup := b.nodup
  apply List.nodup_append.mpr
  refine ⟨a.nodup, hb.filter _, ?_⟩
  rintro t ht _ ht' rfl
  exact of_decide_eq_true (List.mem_filter.mp ht').2 ht

def counted (a b : Counts τ) (token : τ) : Counted τ := ⟨token, a.frequency token, b.frequency token⟩

/-- The join gives a row for each token that occurs. -/
theorem counts_eq (a b : Counts τ) : Frequency.counts a.entries b.entries =
    ((joined a b).map (counted a b)).filter fun row => row.freqCorpus0 > 0 ∨ row.freqCorpus1 > 0 := by
  rw [Frequency.counts, FullJoin.fullJoin_eq b.nodup, joined, List.filterMap_append, List.map_append]
  congr 2
  · rw [List.filterMap_map, Counts.tokens, List.map_map, ← List.filterMap_eq_map]
    apply List.filterMap_congr
    intro e he
    rw [Function.comp_apply, Function.comp_apply, Function.comp_apply, counted, frequency_of_mem he, Counts.frequency]
    rcases FullJoin.lookup b.entries e.1 with _ | v
    · rfl
    · rfl
  · have hfilter : b.tokens.filter (· ∉ a.tokens) = (b.entries.filter fun e => e.1 ∉ a.tokens).map Prod.fst := List.filter_map
    rw [List.filterMap_map, hfilter, List.map_map]
    change List.filterMap _ (b.entries.filter fun e => e.1 ∉ a.tokens) = _
    rw [← List.filterMap_eq_map]
    apply List.filterMap_congr
    intro e he
    obtain ⟨hmem, hnot⟩ := List.mem_filter.mp he
    have hzero := frequency_of_notMem (of_decide_eq_true hnot)
    rw [Function.comp_apply, Function.comp_apply, Function.comp_apply, counted, frequency_of_mem hmem, hzero]
    rfl

theorem mem_counts {row : Counted τ} : row ∈ Frequency.counts a.entries b.entries ↔
    row = counted a b row.token ∧ (0 < a.frequency row.token ∨ 0 < b.frequency row.token) := by
  rw [counts_eq, List.mem_filter, List.mem_map, decide_eq_true_eq]
  constructor
  · rintro ⟨⟨t, -, rfl⟩, hpos⟩
    exact ⟨rfl, hpos⟩
  · rintro ⟨hrow, hpos⟩
    rw [hrow]
    refine ⟨⟨row.token, mem_joined.mpr ?_, rfl⟩, hpos⟩
    by_contra hnot
    obtain ⟨ha, hb⟩ := not_or.mp hnot
    rw [frequency_of_notMem ha, frequency_of_notMem hb] at hpos
    exact hpos.elim (Nat.lt_irrefl 0) (Nat.lt_irrefl 0)

theorem counts_nodup (a b : Counts τ) : ((Frequency.counts a.entries b.entries).map Counted.token).Nodup := by
  have hmap : ((joined a b).map (counted a b)).map Counted.token = joined a b := by
    rw [List.map_map]
    exact List.map_id _
  rw [counts_eq]
  exact ((hmap.symm ▸ joined_nodup a b : (((joined a b).map (counted a b)).map Counted.token).Nodup)).sublist
    (List.filter_sublist.map _)

end Counts

section Rows

variable {K : Type} [Field K] [LinearOrder K] {x y : Number K}

def Positive (x : Number K) : Prop := ∃ v, 0 < v ∧ x = .real v

theorem Positive.max (v : K) (hy : Positive y) : Positive (max (.real v) y) := by
  obtain ⟨w, hw, rfl⟩ := hy
  exact ⟨_, hw.trans_le (le_max_right v w), rfl⟩

/-- Where a number is above zero, its logarithm is the same in the database and in the code. -/
theorem Positive.logarithm (h : Positive x) (f : K → K) : Frequency.logarithm f x = .ok (positive f x) := by
  obtain ⟨v, hv, rfl⟩ := h
  rw [Frequency.logarithm, positive, if_pos hv, if_pos hv]

variable [IsStrictOrderedRing K]

theorem Positive.div (hx : Positive x) (hy : Positive y) : Positive (x / y) := by
  obtain ⟨v, hv, rfl⟩ := hx
  obtain ⟨w, hw, rfl⟩ := hy
  exact ⟨v / w, div_pos hv hw, real_div v hw.ne'⟩

theorem float_positive {n : Nat} (h : 0 < n) : Positive (float n : Number K) := ⟨n, Nat.cast_pos.mpr h, rfl⟩

theorem decimal_positive {digits : Nat} (h : 0 < digits) (places : Nat) : Positive (decimal digits places : Number K) :=
  ⟨_, div_pos (Nat.cast_pos.mpr h) (pow_pos (by norm_num) places), rfl⟩

variable (ln log2 : K → K) {c0 c1 n0 n1 : Nat}

theorem surprise_eq (c : Nat) (v : K) : surprise ln c (float c) (.real v) =
    .ok (if c > 0 then float c * positive ln (float c / max (.real v) (decimal 1 10)) else float 0) := by
  rw [surprise]
  by_cases hc : c > 0
  · have hpos := (float_positive (K := K) hc).div (Positive.max v (decimal_positive one_pos 10))
    rw [if_pos hc, if_pos hc, hpos.logarithm]
    rfl
  · rw [if_neg hc, if_neg hc]

theorem expected_eq (c0 c1 n : Nat) {grand : Nat} (h : 0 < grand) :
    (float c0 + float c1) * float n / float grand = (.real ((c0 + c1) * n / grand) : Number K) :=
  real_div _ (Nat.cast_ne_zero.mpr h.ne')

theorem share_eq (c : Nat) {n : Nat} (h : 0 < n) : (float c / float n : Number K) = .real (c / n) :=
  real_div _ (Nat.cast_ne_zero.mpr h.ne')

theorem smoothed_positive (c : Nat) {n : Nat} (h : 0 < n) :
    Positive ((if c = 0 then decimal 5 1 else float c) / float n : Number K) := by
  apply Positive.div _ (float_positive h)
  by_cases hc : c = 0
  · rw [if_pos hc]
    exact decimal_positive (by norm_num) 1
  · rw [if_neg hc]
    exact float_positive (Nat.pos_of_ne_zero hc)

/-- The columns that both computations have. -/
def FrequencyStats.columns {τ : Type} (stat : FrequencyStats τ K) : Statistics τ K where
  token := stat.token
  freqCorpus0 := stat.freqCorpus0
  freqCorpus1 := stat.freqCorpus1
  expected0 := stat.expected0
  expected1 := stat.expected1
  corpus0Total := stat.corpus0Total
  corpus1Total := stat.corpus1Total
  logLikelihoodLlv := stat.logLikelihoodLlv
  bayesFactorBic := stat.bayesFactorBic
  effectSizeEll := stat.effectSizeEll
  significance := stat.significance
  percentCorpus0 := stat.percentCorpus0
  percentCorpus1 := stat.percentCorpus1
  percentDiff := stat.percentDiff
  relativeRisk := stat.relativeRisk
  logRatio := stat.logRatio
  oddsRatio := stat.oddsRatio

/-- How surprising a count is, out of two corpora. -/
def surpriseOf (ln : K → K) (c c0 c1 n grand : Nat) : K := Logarithm.surprise ln (1 / 10 ^ 10) c ((c0 + c1) * n / grand)

theorem surpriseOf_eq (c c0 c1 n grand : Nat) :
    (if c > 0 then float c * positive ln (float c / max (.real (((c0 : K) + c1) * n / grand)) (decimal 1 10)) else float 0) =
      .real (surpriseOf ln c c0 c1 n grand) := by
  have hfloor : (decimal 1 10 : Number K) = .real (1 / 10 ^ 10) := by rw [decimal, Nat.cast_one]
  rw [surpriseOf, Logarithm.surprise, hfloor, real_max, float]
  by_cases hc : c > 0
  · have hcast : (0 : K) < c := Nat.cast_pos.mpr hc
    have hmax : (0 : K) < max (((c0 : K) + c1) * n / grand) (1 / 10 ^ 10) := lt_max_of_lt_right (by positivity)
    rw [if_pos hc, if_pos hcast, real_div _ hmax.ne', positive, if_pos (div_pos hcast hmax), real_mul]
  · have hcast : ¬(0 : K) < c := fun h => hc (Nat.cast_pos.mp h)
    rw [if_neg hc, if_neg hcast, float, Nat.cast_zero]

/-- The columns of the statistics that no division leaves undefined. -/
structure Computed {τ : Type} (ln : K → K) (n0 n1 c0 c1 : Nat) (token : τ) (stat : FrequencyStats τ K) : Prop where
  token : stat.token = token
  freqCorpus0 : stat.freqCorpus0 = c0
  freqCorpus1 : stat.freqCorpus1 = c1
  corpus0Total : stat.corpus0Total = n0
  corpus1Total : stat.corpus1Total = n1
  expected0 : stat.expected0 = .real ((c0 + c1) * n0 / (n0 + n1 : Nat))
  expected1 : stat.expected1 = .real ((c0 + c1) * n1 / (n0 + n1 : Nat))
  percentCorpus0 : stat.percentCorpus0 = .real (c0 / n0 * (100 : Nat))
  percentCorpus1 : stat.percentCorpus1 = .real (c1 / n1 * (100 : Nat))
  logLikelihoodLlv : stat.logLikelihoodLlv =
    .real ((2 : Nat) * (surpriseOf ln c0 c0 c1 n0 (n0 + n1) + surpriseOf ln c1 c0 c1 n1 (n0 + n1)))

/-- The database computes a row as the code computes its statistics, and no step of either fails. -/
theorem studyRow_eq {τ : Type} (token : τ) (a b : String) (h0 : 0 < n0) (h1 : 0 < n1) (hc0 : c0 ≤ n0) (hc1 : c1 ≤ n1) :
    ∃ stat, tokenStats ln log2 n0 n1 (n0 + n1) token c0 c1 = .ok stat ∧ Computed ln n0 n1 c0 c1 token stat ∧
      studyRow ln log2 ⟨a, b, n0, n1, n0 + n1⟩ ⟨token, c0, c1⟩ = .ok (studyStatistics (frequencyStatistics stat.columns)) := by
  have hgrand : 0 < n0 + n1 := Nat.add_pos_left h0 n1
  have hleast : Positive (max (min (.real ((c0 + c1) * n0 / (n0 + n1 : Nat))) (.real ((c0 + c1) * n1 / (n0 + n1 : Nat))))
      (decimal 1 10) : Number K) := Positive.max _ (decimal_positive one_pos 10)
  have hratio := (smoothed_positive (K := K) c0 h0).div (smoothed_positive c1 h1)
  have hsub0 : checkedSub n0 c0 = .ok (n0 - c0) := if_pos hc0
  have hsub1 : checkedSub n1 c1 = .ok (n1 - c1) := if_pos hc1
  have hsubtract0 : subtract n0 c0 = .ok (n0 - c0) := if_pos hc0
  have hsubtract1 : subtract n1 c1 = .ok (n1 - c1) := if_pos hc1
  simp only [tokenStats, hsub0, hsub1, studyRow, measures, expected, floating, expected_eq c0 c1 _ hgrand, surprise_eq,
    statistics, (float_positive (K := K) hgrand).logarithm, hleast.logarithm, hratio.logarithm, hsubtract0, hsubtract1,
    bind, Except.bind, pure, Except.pure]
  refine ⟨_, rfl, ?_, rfl⟩
  constructor
  case token | freqCorpus0 | freqCorpus1 | corpus0Total | corpus1Total | expected0 | expected1 => rfl
  case percentCorpus0 => exact congrArg (· * float 100) (share_eq c0 h0)
  case percentCorpus1 => exact congrArg (· * float 100) (share_eq c1 h1)
  case logLikelihoodLlv =>
    change float 2 * (_ + _) = _
    rw [surpriseOf_eq ln c0, surpriseOf_eq ln c1]
    rfl

/-- A token with the larger share in one corpus has a likelihood above zero. -/
theorem likelihood_pos (log : Logarithm K) (h0 : 0 < n0) (h1 : 0 < n1) (h : (c1 : K) / n1 < c0 / n0) :
    0 < surpriseOf log.ln c0 c0 c1 n0 (n0 + n1) + surpriseOf log.ln c1 c0 c1 n1 (n0 + n1) := by
  have hn0 : (0 : K) < n0 := Nat.cast_pos.mpr h0
  have hn1 : (0 : K) < n1 := Nat.cast_pos.mpr h1
  have hgrand : (0 : K) < (n0 + n1 : Nat) := Nat.cast_pos.mpr (Nat.add_pos_left h0 n1)
  have hcross : (c1 : K) * n0 < c0 * n1 := (div_lt_div_iff₀ hn1 hn0).mp h
  have hc0 : 0 < c0 := by
    by_contra hzero
    rw [Nat.eq_zero_of_not_pos hzero, Nat.cast_zero, zero_mul] at hcross
    exact absurd hcross (not_lt.mpr (by positivity))
  have hcast : (1 : K) ≤ c0 := Nat.one_le_cast.mpr hc0
  have hcast' : (c1 : K) = 0 ∨ (1 : K) ≤ c1 := by
    rcases Nat.eq_zero_or_pos c1 with rfl | hc1
    · exact .inl Nat.cast_zero
    · exact .inr (Nat.one_le_cast.mpr hc1)
  have hboth : (0 : K) < c0 + c1 := add_pos_of_pos_of_nonneg (zero_lt_one.trans_le hcast) (Nat.cast_nonneg c1)
  apply log.surprise_add_pos (by positivity) (by norm_num) hcast hcast' (div_pos (mul_pos hboth hn0) hgrand)
    (div_pos (mul_pos hboth hn1) hgrand)
  · rw [← add_div, ← mul_add, ← @Nat.cast_add K _ n0, mul_div_cancel_right₀ _ hgrand.ne']
  · intro heq
    rw [eq_div_iff hgrand.ne', Nat.cast_add, mul_add, add_mul] at heq
    linarith

variable {ln log2} {τ : Type} {token : τ} {stat : FrequencyStats τ K}

theorem share_lt_iff (a b : K) : a * (100 : Nat) < b * (100 : Nat) ↔ a < b := mul_lt_mul_iff_left₀ (by norm_num)

/-- Of the first corpus and the second, the one where the token has the larger share is named. -/
theorem Computed.overuse (h : Computed ln n0 n1 c0 c1 token stat) : (frequencyStatistics stat.columns).overuse =
    if (c1 : K) / n1 < c0 / n0 then .reference else if (c0 : K) / n0 < c1 / n1 then .study else .equal := by
  simp only [frequencyStatistics, FrequencyStats.columns, h.percentCorpus0, h.percentCorpus1, above, holds, share_lt_iff,
    decide_eq_true_eq]

/-- The sign of the likelihood says whether the first corpus has the larger share. -/
theorem Computed.signedLl {log : Logarithm K} (h : Computed log.ln n0 n1 c0 c1 token stat) (h0 : 0 < n0) (h1 : 0 < n1) :
    ∃ x, (frequencyStatistics stat.columns).signedLl = .real x ∧ (0 < x ↔ (c1 : K) / n1 < c0 / n0) := by
  simp only [frequencyStatistics, FrequencyStats.columns, h.percentCorpus0, h.percentCorpus1, h.logLikelihoodLlv, real_sub,
    sign, Number.map, real_mul]
  refine ⟨_, rfl, ?_⟩
  have hsub : (0 : K) < c0 / n0 * (100 : Nat) - c1 / n1 * (100 : Nat) ↔ (c1 : K) / n1 < c0 / n0 := by
    rw [sub_pos, share_lt_iff]
  by_cases hshare : (c1 : K) / n1 < c0 / n0
  · have hpos := mul_pos (show (0 : K) < (2 : Nat) by norm_num) (likelihood_pos log h0 h1 hshare)
    rw [if_pos (hsub.mpr hshare), one_mul]
    exact ⟨fun _ => hshare, fun _ => abs_pos.mpr hpos.ne'⟩
  · rw [if_neg (mt hsub.mp hshare)]
    refine ⟨fun hx => ?_, fun hx => absurd hx hshare⟩
    split at hx
    · rw [neg_one_mul] at hx
      exact absurd (neg_pos.mp hx) (not_lt.mpr (abs_nonneg _))
    · rw [zero_mul] at hx
      exact absurd hx (lt_irrefl 0)

end Rows

section Views

variable {τ K : Type} [Field K] [LinearOrder K]

/-- A row of the View describes the reference in its first columns and the study in its second, and measures the study
against the reference. -/
structure Describes [DecidableEq τ] (reference study : Counts τ) (stat : FrequencyStats τ K) (row : StudyStatistics τ K) : Prop where
  token : stat.token = row.token
  freqCorpus0 : row.freqCorpus0 = reference.frequency row.token
  freqCorpus1 : row.freqCorpus1 = study.frequency row.token
  corpus0Total : row.corpus0Total = reference.total
  corpus1Total : row.corpus1Total = study.total
  expected0 : row.expected0 = .real ((study.frequency row.token + reference.frequency row.token) * reference.total /
    (study.total + reference.total : Nat))
  expected1 : row.expected1 = .real ((study.frequency row.token + reference.frequency row.token) * study.total /
    (study.total + reference.total : Nat))
  percentCorpus0 : row.percentCorpus0 = .real (reference.frequency row.token / reference.total * (100 : Nat))
  percentCorpus1 : row.percentCorpus1 = .real (study.frequency row.token / study.total * (100 : Nat))
  logLikelihoodLlv : row.logLikelihoodLlv = stat.logLikelihoodLlv
  bayesFactorBic : row.bayesFactorBic = stat.bayesFactorBic
  effectSizeEll : row.effectSizeEll = stat.effectSizeEll
  significance : row.significance = stat.significance
  relativeRisk : row.relativeRisk = stat.relativeRisk
  logRatio : row.logRatio = stat.logRatio
  oddsRatio : row.oddsRatio = stat.oddsRatio
  percentDiff : row.percentDiff = if reference.frequency row.token = 0 then none else some stat.percentDiff
  overuse : row.overuse =
    if (reference.frequency row.token : K) / reference.total < study.frequency row.token / study.total then .study
    else if (study.frequency row.token : K) / study.total < reference.frequency row.token / reference.total then .reference
    else .equal
  signedLl : ∃ x, row.signedLl = .real x ∧ (0 < x ↔ row.overuse = .study)

/-- The rows of a View beside the statistics of the same counts. -/
structure Compares [DecidableEq τ] (reference study : Counts τ) (rows : List (StudyStatistics τ K))
    (stats : List (FrequencyStats τ K)) : Prop where
  once : (rows.map StudyStatistics.token).Nodup
  occurs : ∀ t, t ∈ rows.map StudyStatistics.token ↔ 0 < reference.frequency t ∨ 0 < study.frequency t
  same : (stats.map FrequencyStats.token).Perm (rows.map StudyStatistics.token)
  sum0 : (rows.map StudyStatistics.freqCorpus0).sum = reference.total
  sum1 : (rows.map StudyStatistics.freqCorpus1).sum = study.total
  described : ∀ row ∈ rows, ∃ stat ∈ stats, Describes reference study stat row

/-- The row of the View for the statistics of a token. -/
def shown (stat : FrequencyStats τ K) : StudyStatistics τ K := studyStatistics (frequencyStatistics stat.columns)

variable [IsStrictOrderedRing K] {log : Logarithm K} {reference study : Counts τ} {token : τ} {stat : FrequencyStats τ K}

theorem Computed.describes [DecidableEq τ] (h : Computed log.ln study.total reference.total (study.frequency token)
    (reference.frequency token) token stat) (hr : 0 < reference.total) (hs : 0 < study.total) :
    Describes reference study stat (shown stat) := by
  have hoveruse : (shown stat).overuse =
      if (reference.frequency token : K) / reference.total < study.frequency token / study.total then .study
      else if (study.frequency token : K) / study.total < reference.frequency token / reference.total then .reference
      else .equal := by
    have hrow : (shown stat).overuse = (frequencyStatistics stat.columns).overuse.renamed := rfl
    rw [hrow, h.overuse, apply_ite Overuse.renamed, apply_ite Overuse.renamed]
    rfl
  have htoken : (shown stat).token = token := h.token
  constructor
  case token | logLikelihoodLlv | bayesFactorBic | effectSizeEll | significance | relativeRisk | logRatio | oddsRatio => rfl
  case freqCorpus0 => exact htoken ▸ h.freqCorpus1
  case freqCorpus1 => exact htoken ▸ h.freqCorpus0
  case corpus0Total => exact h.corpus1Total
  case corpus1Total => exact h.corpus0Total
  case expected0 => exact htoken ▸ h.expected1
  case expected1 => exact htoken ▸ h.expected0
  case percentCorpus0 => exact htoken ▸ h.percentCorpus1
  case percentCorpus1 => exact htoken ▸ h.percentCorpus0
  case percentDiff =>
    have hrow : (shown stat).percentDiff = if stat.freqCorpus1 = 0 then none else some stat.percentDiff := rfl
    rw [hrow, h.freqCorpus1, htoken]
  case overuse => exact htoken ▸ hoveruse
  case signedLl =>
    obtain ⟨x, hx, hpos⟩ := h.signedLl hs hr
    refine ⟨x, hx, hpos.trans ?_⟩
    rw [hoveruse]
    split
    case isTrue hshare => exact ⟨fun _ => rfl, fun _ => hshare⟩
    case isFalse hshare =>
      refine ⟨fun h => absurd h hshare, fun h => ?_⟩
      split at h
      · cases h
      · cases h

variable [LinearOrder τ]

theorem mem_occurring {a b : Counts τ} {e : τ × Nat × Nat} : e ∈ occurring a b ↔
    e = (e.1, a.frequency e.1, b.frequency e.1) ∧ (0 < a.frequency e.1 ∨ 0 < b.frequency e.1) := by
  rw [occurring, List.mem_filter, List.mem_map, decide_eq_true_eq]
  have hpos : ∀ m n : Nat, ¬(m = 0 ∧ n = 0) ↔ 0 < m ∨ 0 < n := fun m n => by omega
  constructor
  · rintro ⟨⟨t, -, rfl⟩, h⟩
    exact ⟨rfl, (hpos _ _).mp h⟩
  · rintro ⟨he, h⟩
    rw [he]
    refine ⟨⟨e.1, ?_, rfl⟩, (hpos _ _).mpr h⟩
    rw [vocabulary, Finset.mem_sort, List.mem_toFinset, List.mem_append]
    by_contra hnot
    obtain ⟨ha, hb⟩ := not_or.mp hnot
    rw [frequency_of_notMem ha, frequency_of_notMem hb] at h
    exact h.elim (Nat.lt_irrefl 0) (Nat.lt_irrefl 0)

theorem occurring_nodup (a b : Counts τ) : ((occurring a b).map Prod.fst).Nodup := by
  have hmap : ((vocabulary a b).map fun token => (token, a.frequency token, b.frequency token)).map Prod.fst =
      vocabulary a b := by
    rw [List.map_map]
    exact List.map_id _
  have hall : (((vocabulary a b).map fun token => (token, a.frequency token, b.frequency token)).map Prod.fst).Nodup := by
    rw [hmap]
    exact Finset.sort_nodup _ _
  exact hall.sublist (List.filter_sublist.map _)

/-- Corpora that can be compared are both empty or neither, and count together to what fits in 64 bits. -/
def Comparable (reference study : Counts τ) : Prop :=
  (reference.total = 0 ↔ study.total = 0) ∧ reference.total + study.total < 2 ^ 64

theorem rows_agree (log2 : K → K) (a b : String) (hr : 0 < reference.total) (hs : 0 < study.total)
    (hsum : reference.total + study.total < 2 ^ 64) : ∃ rows stats,
    (counts study.entries reference.entries).mapM
      (studyRow log.ln log2 ⟨a, b, study.total, reference.total, study.total + reference.total⟩) = .ok rows ∧
    frequencyStats log.ln log2 study reference = .ok stats ∧ Compares reference study rows stats := by
  have hall := fun t => studyRow_eq log.ln log2 t a b hs hr (frequency_le_total study t) (frequency_le_total reference t)
  choose stat hstat hcomputed hrow using hall
  have hrows : (counts study.entries reference.entries).mapM
      (studyRow log.ln log2 ⟨a, b, study.total, reference.total, study.total + reference.total⟩) =
      .ok ((counts study.entries reference.entries).map fun c => shown (stat c.token)) := by
    rw [mapM_eq_ok, List.forall₂_map_right_iff, List.forall₂_same]
    intro c hc
    rw [(mem_counts.mp hc).1]
    exact hrow c.token
  have hstats : (occurring study reference).mapM
      (fun e => tokenStats log.ln log2 study.total reference.total (study.total + reference.total) e.1 e.2.1 e.2.2) =
      .ok ((occurring study reference).map fun e => stat e.1) := by
    rw [mapM_eq_ok, List.forall₂_map_right_iff, List.forall₂_same]
    intro e he
    rw [(mem_occurring.mp he).1]
    exact hstat e.1
  have htokens : ∀ t, (shown (stat t)).token = t := fun t => (hcomputed t).token
  have hmap : ((counts study.entries reference.entries).map fun c => shown (stat c.token)).map StudyStatistics.token =
      (counts study.entries reference.entries).map Counted.token := by
    rw [List.map_map]
    exact List.map_congr_left fun c _ => htokens c.token
  have hmem : ∀ t, t ∈ (counts study.entries reference.entries).map Counted.token ↔
      0 < reference.frequency t ∨ 0 < study.frequency t := by
    intro t
    rw [List.mem_map]
    constructor
    · rintro ⟨c, hc, rfl⟩
      exact (mem_counts.mp hc).2.symm
    · intro h
      exact ⟨counted study reference t, mem_counts.mpr ⟨rfl, h.symm⟩, rfl⟩
  have hsame : ((occurring study reference).map fun e => stat e.1).map FrequencyStats.token =
      (occurring study reference).map Prod.fst := by
    rw [List.map_map]
    exact List.map_congr_left fun e _ => htokens e.1
  refine ⟨_, (occurring study reference).map fun e => stat e.1, hrows, ?_, ?_⟩
  · have hnone : ¬(study.total = 0 ∧ reference.total = 0) := fun h => hr.ne' h.2
    have hboth : ¬¬(study.total > 0 ∧ reference.total > 0) := not_not.mpr ⟨hs, hr⟩
    have hfits : ¬¬study.total + reference.total < 2 ^ 64 := not_not.mpr (by omega)
    rw [frequencyStats, corpusTotal_eq (by omega), corpusTotal_eq (by omega)]
    simp only [bind, Except.bind, if_neg hnone, if_neg hboth, if_neg hfits]
    exact hstats
  · constructor
    case once => exact hmap ▸ counts_nodup study reference
    case occurs => exact fun t => hmap ▸ hmem t
    case same =>
      rw [hsame, hmap]
      apply (List.perm_ext_iff_of_nodup (occurring_nodup study reference) (counts_nodup study reference)).mpr
      intro t
      rw [hmem, List.mem_map]
      constructor
      · rintro ⟨e, he, rfl⟩
        exact (mem_occurring.mp he).2.symm
      · intro h
        exact ⟨(t, study.frequency t, reference.frequency t), mem_occurring.mpr ⟨rfl, h.symm⟩, rfl⟩
    case sum0 =>
      have hcolumn : ((counts study.entries reference.entries).map fun c => shown (stat c.token)).map StudyStatistics.freqCorpus0 =
          ((counts study.entries reference.entries).map Counted.token).map reference.frequency := by
        rw [List.map_map, List.map_map]
        exact List.map_congr_left fun c _ => (hcomputed c.token).freqCorpus1
      rw [hcolumn]
      exact sum_frequency (counts_nodup study reference) fun t h => (hmem t).mpr (.inl h)
    case sum1 =>
      have hcolumn : ((counts study.entries reference.entries).map fun c => shown (stat c.token)).map StudyStatistics.freqCorpus1 =
          ((counts study.entries reference.entries).map Counted.token).map study.frequency := by
        rw [List.map_map, List.map_map]
        exact List.map_congr_left fun c _ => (hcomputed c.token).freqCorpus0
      rw [hcolumn]
      exact sum_frequency (counts_nodup study reference) fun t h => (hmem t).mpr (.inr h)
    case described =>
      intro row hrow
      obtain ⟨c, hc, rfl⟩ := List.mem_map.mp hrow
      refine ⟨stat c.token, List.mem_map.mpr ⟨(c.token, study.frequency c.token, reference.frequency c.token), ?_, rfl⟩,
        (hcomputed c.token).describes hr hs⟩
      exact mem_occurring.mpr ⟨rfl, (mem_counts.mp hc).2⟩

theorem counts_empty (hr : reference.total = 0) (hs : study.total = 0) : counts study.entries reference.entries = [] := by
  apply List.eq_nil_iff_forall_not_mem.mpr
  intro c hc
  have hreference := frequency_le_total reference c.token
  have hstudy := frequency_le_total study c.token
  rcases (mem_counts.mp hc).2 with h | h
  · omega
  · omega

omit [IsStrictOrderedRing K] in
theorem empty_agree (hr : reference.total = 0) (hs : study.total = 0) :
    Compares reference study ([] : List (StudyStatistics τ K)) [] := by
  refine ⟨List.nodup_nil, fun t => ?_, .nil, hr.symm, hs.symm, fun row hrow => absurd hrow List.not_mem_nil⟩
  have hreference := frequency_le_total reference t
  have hstudy := frequency_le_total study t
  exact iff_of_false List.not_mem_nil (by omega)

end Views

section Publications

variable {τ : Type} {results published : Results τ} {accepted : AcceptedAnalysis} {referenceId studyId id : Uuid}
  {reference study : Counts τ} {payload : Json} {db written : Database} {effects : List Effect}

theorem countedCorpus_eq {counts : Counts τ} (artifactId : Uuid) (h : counts.total < 2 ^ 64) :
    countedCorpus artifactId counts = .ok ⟨artifactId, counts.total, counts.entries.length⟩ := by
  have hsum : checkedSum (counts.entries.map Prod.snd) = some counts.total := by
    rw [checkedSum_eq]
    exact if_pos h
  rw [countedCorpus, hsum]

theorem publishAnalysisVersion_writes {version : Int}
    (h : publishAnalysisVersion db accepted version effects payload = .ok written) :
    ∃ before after, effects.foldlM (write accepted.id) before = .ok after := by
  obtain ⟨claimed, -, hclaim⟩ := bind_eq_ok.mp h
  obtain ⟨-, hwrite⟩ := guard_eq_ok.mp hclaim
  obtain ⟨after, hafter, -⟩ := bind_eq_ok.mp hwrite
  exact ⟨claimed, after, hafter⟩

/-- Tables that are created one after the other have names that differ. -/
theorem tables_differ {index index' : Nat} {first second : FrequencyCorpus} {rest : List Effect} {analysisId : Uuid}
    (h : (storeCorpus index first ++ storeCorpus index' second ++ rest).foldlM (write analysisId) db = .ok written) :
    artifactTable first.artifactId ≠ artifactTable second.artifactId := by
  obtain ⟨created, hcreated, h⟩ := bind_eq_ok.mp h
  obtain ⟨registered, hregistered, h⟩ := bind_eq_ok.mp h
  obtain ⟨again, hagain, -⟩ := bind_eq_ok.mp h
  obtain ⟨-, hcreated⟩ := guard_eq_ok.mp hcreated
  obtain ⟨hfree, -⟩ := guard_eq_ok.mp hagain
  obtain ⟨-, hregistered⟩ := guard_eq_ok.mp hregistered
  cases hcreated
  cases hregistered
  intro heq
  have hnone : Database.tableType ⟨db.tabs, db.analyses, _, db.relations ++ [(artifactTable first.artifactId, .baseTable)]⟩
      (artifactTable second.artifactId) = none := Option.not_isSome_iff_eq_none.mp hfree
  apply not_hasRelation_of_tableType hnone
  exact ⟨_, List.mem_append_right _ List.mem_cons_self, heq⟩

theorem comparisonSql_error {first second : FrequencyCorpus}
    (h : ¬((first.totalTokens = 0 ↔ second.totalTokens = 0) ∧ first.totalTokens + second.totalTokens < 2 ^ 64)) :
    ∃ error, comparisonSql first second = .error error := by
  rw [comparisonSql]
  by_cases hzero : first.totalTokens = 0 ↔ second.totalTokens = 0
  · have hsum : ¬first.totalTokens + second.totalTokens < 2 ^ 64 := fun hsum => h ⟨hzero, hsum⟩
    exact ⟨_, by rw [if_neg (not_not.mpr hzero), if_pos hsum]⟩
  · exact ⟨_, if_pos hzero⟩

theorem comparisonSql_ok {first second : FrequencyCorpus} (hzero : first.totalTokens = 0 ↔ second.totalTokens = 0)
    (hsum : first.totalTokens + second.totalTokens < 2 ^ 64) : comparisonSql first second =
      .ok ⟨artifactTable first.artifactId, artifactTable second.artifactId, first.totalTokens, second.totalTokens,
        max (first.totalTokens + second.totalTokens) 1⟩ := by
  rw [comparisonSql, if_neg (not_not.mpr hzero), if_neg (not_not.mpr hsum)]

/-- What a publication of two corpora that can be compared does to the database. -/
def comparisonEffects (referenceId studyId id : Uuid) : List Effect :=
  [.create referenceId .baseTable, .registerTable referenceId "corpus-0", .create studyId .baseTable,
    .registerTable studyId "corpus-1", .create id .view, .registerTable id "comparison"]

/-- The outcome of a publication whose corpora can be compared. -/
theorem publishFrequency_eq (hcomparable : Comparable reference study) :
    publishFrequency results accepted referenceId studyId id reference study payload =
      (publishAnalysisVersion results.db accepted 1 (comparisonEffects referenceId studyId id) payload).map fun db =>
        results.store db referenceId studyId id reference study ⟨artifactTable studyId, artifactTable referenceId, study.total,
          reference.total, max (study.total + reference.total) 1⟩ := by
  obtain ⟨hzero, hsum⟩ := hcomparable
  have hsql := @comparisonSql_ok ⟨studyId, study.total, study.entries.length⟩ ⟨referenceId, reference.total, reference.entries.length⟩
    hzero.symm ((Nat.add_comm _ _).trans_lt hsum)
  rw [publishFrequency, countedCorpus_eq referenceId (by omega), countedCorpus_eq studyId (by omega)]
  simp only [bind, Except.bind, storeComparison, hsql]
  have heffects : ∀ first second : FrequencyCorpus, storeCorpus 0 first ++ storeCorpus 1 second ++
      [.create id .view, .registerTable id "comparison"] = comparisonEffects first.artifactId second.artifactId id :=
    fun _ _ => rfl
  rw [heffects]
  rcases publishAnalysisVersion results.db accepted 1 (comparisonEffects referenceId studyId id) payload with _ | db
  · rfl
  · rfl

/-- Where the corpora cannot be compared, nothing is published. -/
theorem publishFrequency_error (hr : reference.total < 2 ^ 64) (hs : study.total < 2 ^ 64) (h : ¬Comparable reference study) :
    ∃ error, publishFrequency results accepted referenceId studyId id reference study payload = .error error := by
  obtain ⟨error, herror⟩ := @comparisonSql_error ⟨studyId, study.total, study.entries.length⟩
    ⟨referenceId, reference.total, reference.entries.length⟩
    fun hall => h ⟨hall.1.symm, (Nat.add_comm _ _).trans_lt hall.2⟩
  rcases hpublished : publishFrequency results accepted referenceId studyId id reference study payload with e | published
  · exact ⟨e, rfl⟩
  · rw [publishFrequency, countedCorpus_eq referenceId hr, countedCorpus_eq studyId hs] at hpublished
    simp only [bind, Except.bind, storeComparison, herror] at hpublished
    split at hpublished
    · cases hpublished
    · cases hpublished

theorem frequencyStats_error [LinearOrder τ] {K : Type} [Field K] [LinearOrder K] (ln log2 : K → K)
    (hr : reference.total < 2 ^ 64) (hs : study.total < 2 ^ 64) (h : ¬Comparable reference study) :
    ∃ error, frequencyStats ln log2 study reference = .error error := by
  rw [frequencyStats, corpusTotal_eq hs, corpusTotal_eq hr]
  simp only [bind, Except.bind]
  by_cases hboth : study.total > 0 ∧ reference.total > 0
  · have hnone : ¬(study.total = 0 ∧ reference.total = 0) := fun hnone => hboth.1.ne' hnone.1
    have hfits : ¬study.total + reference.total < 2 ^ 64 := fun hfits => h ⟨by omega, by omega⟩
    rw [if_neg hnone, if_neg (not_not.mpr hboth), if_pos hfits]
    exact ⟨_, rfl⟩
  · have hnone : ¬(study.total = 0 ∧ reference.total = 0) := fun hnone => h ⟨by omega, by omega⟩
    rw [if_neg hnone, if_pos hboth]
    exact ⟨_, rfl⟩

variable {K : Type} [Field K] [LinearOrder K] [IsStrictOrderedRing K] [LinearOrder τ]

/-- A comparison that is published agrees with the statistics of the study against the reference; where there is nothing
to compare with, nothing is stored. -/
theorem comparison_agrees (log : Logarithm K) (log2 : K → K) (results : Results τ) (accepted : AcceptedAnalysis)
    (referenceId studyId id : Uuid) (reference study : Counts τ) (payload : Json) (hr : reference.total < 2 ^ 64)
    (hs : study.total < 2 ^ 64) :
    (¬Comparable reference study →
      (∃ error, publishFrequency results accepted referenceId studyId id reference study payload = .error error) ∧
      results.after (publishFrequency results accepted referenceId studyId id reference study payload) = results ∧
      ∃ error, frequencyStats log.ln log2 study reference = .error error) ∧
    (Comparable reference study →
      (publishFrequency results accepted referenceId studyId id reference study payload).map Results.db =
        publishAnalysisVersion results.db accepted 1 (comparisonEffects referenceId studyId id) payload ∧
      ∀ published, publishFrequency results accepted referenceId studyId id reference study payload = .ok published →
        ∃ rows stats, published.read log.ln log2 id = .ok rows ∧ frequencyStats log.ln log2 study reference = .ok stats ∧
          Compares reference study rows stats ∧ (reference.total = 0 → study.total = 0 → rows = [])) := by
  constructor
  · intro h
    obtain ⟨error, herror⟩ := @publishFrequency_error _ results accepted referenceId studyId id _ _ payload hr hs h
    refine ⟨⟨error, herror⟩, ?_, frequencyStats_error log.ln log2 hr hs h⟩
    rw [herror]
    rfl
  · intro h
    have hpublish := @publishFrequency_eq _ results accepted referenceId studyId id _ _ payload h
    rw [hpublish]
    constructor
    · rcases publishAnalysisVersion results.db accepted 1 (comparisonEffects referenceId studyId id) payload with _ | db
      · rfl
      · rfl
    · intro published hpublished
      obtain ⟨db, hdb, rfl⟩ := map_eq_ok.mp hpublished
      obtain ⟨before, after, hwrites⟩ := publishAnalysisVersion_writes hdb
      have hdiffer : artifactTable referenceId ≠ artifactTable studyId :=
        @tables_differ before after 0 1 ⟨referenceId, 0, 0⟩ ⟨studyId, 0, 0⟩ _ _ hwrites
      have hread : ∀ n0 n1 grand, (results.store db referenceId studyId id reference study
          ⟨artifactTable studyId, artifactTable referenceId, n0, n1, grand⟩).read log.ln log2 id =
          (counts study.entries reference.entries).mapM
            (studyRow log.ln log2 ⟨artifactTable studyId, artifactTable referenceId, n0, n1, grand⟩) := by
        intro n0 n1 grand
        simp only [Results.read, Results.store, Function.update_self, Function.update_of_ne hdiffer]
      rw [hread]
      by_cases hempty : reference.total = 0
      · have hempty' := h.1.mp hempty
        refine ⟨[], [], ?_, ?_, empty_agree hempty hempty', fun _ _ => rfl⟩
        · rw [counts_empty hempty hempty']
          rfl
        · rw [frequencyStats, corpusTotal_eq hs, corpusTotal_eq hr]
          simp only [bind, Except.bind, hempty, hempty', and_self, if_true]
      · have hpos := Nat.pos_of_ne_zero hempty
        have hpos' := Nat.pos_of_ne_zero (mt h.1.mpr hempty)
        have hgrand : max (study.total + reference.total) 1 = study.total + reference.total := max_eq_left (by omega)
        obtain ⟨rows, stats, hrows, hstats, hcompares⟩ := @rows_agree _ K _ _ _ log reference study _ log2 (artifactTable studyId)
          (artifactTable referenceId) hpos hpos' h.2
        rw [hgrand]
        exact ⟨rows, stats, hrows, hstats, hcompares, fun hzero => absurd hzero hempty⟩

end Publications

section Examples

noncomputable def naturalLogarithm : Logarithm ℝ where
  ln := Real.log
  ln_mul _ _ hx hy := Real.log_mul hx.ne' hy.ne'
  lt_ln x hx hne := by
    have h := Real.log_lt_sub_one_of_pos (inv_pos.mpr hx) (mt inv_eq_one.mp hne)
    rw [Real.log_inv] at h
    linarith

/-- A database with one analysis that has no result. -/
def pending : Results String where
  db := ⟨[⟨⟨"1"⟩, "frequency", 0⟩], [⟨⟨"2"⟩, ⟨"1"⟩, .null, none⟩], [], []⟩
  tables _ := none
  views _ := none

def once (token : String) : Counts String := ⟨[(token, 1)], List.nodup_singleton token⟩

theorem one_token_agrees : ∃ published rows stats,
    publishFrequency pending ⟨⟨"2"⟩, ⟨"1"⟩, "frequency"⟩ ⟨"3"⟩ ⟨"4"⟩ ⟨"5"⟩ (once "sea") (once "land") .null = .ok published ∧
      published.read naturalLogarithm.ln (Real.logb 2) ⟨"5"⟩ = .ok rows ∧
      frequencyStats naturalLogarithm.ln (Real.logb 2) (once "land") (once "sea") = .ok stats ∧
      Compares (once "sea") (once "land") rows stats := by
  have hcomparable : Comparable (once "sea") (once "land") := ⟨by decide, by decide⟩
  obtain ⟨hdb, hview⟩ := (comparison_agrees naturalLogarithm (Real.logb 2) pending ⟨⟨"2"⟩, ⟨"1"⟩, "frequency"⟩ ⟨"3"⟩ ⟨"4"⟩ ⟨"5"⟩
    (once "sea") (once "land") .null (by decide) (by decide)).2 hcomparable
  have hstored : ∃ db, publishAnalysisVersion pending.db ⟨⟨"2"⟩, ⟨"1"⟩, "frequency"⟩ 1 (comparisonEffects ⟨"3"⟩ ⟨"4"⟩ ⟨"5"⟩) .null =
      .ok db := ⟨_, rfl⟩
  obtain ⟨db, hstored⟩ := hstored
  obtain ⟨published, hpublished, -⟩ := map_eq_ok.mp (hdb.trans hstored)
  obtain ⟨rows, stats, hrows, hstats, hcompares, -⟩ := hview published hpublished
  exact ⟨published, rows, stats, hpublished, hrows, hstats, hcompares⟩

end Examples

end Wordflow.Frequency
