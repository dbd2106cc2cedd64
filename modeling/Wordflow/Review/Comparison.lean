import Mathlib.Data.String.Basic
import Wordflow.Library.Agreement
import Wordflow.Library.Tally

namespace Wordflow.Review

open Library Library.OrderedMap

structure Confusion where
  annotation : String
  comparison : String
  count : Nat
deriving DecidableEq

structure Comparison where
  column : String
  included : Nat
  excluded : Nat
  agreement : Option Rat
  kappa : Option Rat
  alpha : Option Rat
  matrix : List Confusion

/-- A label of the annotation, a label of the compared column, and how many rows have both. -/
abbrev Pair := Option String × Option String × Nat

section Code

/-- What the loop over the pairs keeps. -/
structure Counts where
  included : Nat
  excluded : Nat
  agreement : Nat
  margins : Map String (Nat × Nat)
  matrix : List Confusion

def Counts.add (c : Counts) : Pair → Counts
  | (some a, some b, count) =>
      { c with
        included := c.included + count
        agreement := if a = b then c.agreement + count else c.agreement
        margins := (c.margins.add a (count, 0)).add b (0, count)
        matrix := c.matrix ++ [⟨a, b, count⟩] }
  | (_, _, count) => { c with excluded := c.excluded + count }

def countPairs (pairs : List Pair) : Counts := pairs.foldl Counts.add ⟨0, 0, 0, .empty, []⟩

def Confusion.le (x y : Confusion) : Bool :=
  x.annotation < y.annotation || (x.annotation = y.annotation && x.comparison ≤ y.comparison)

/-- Rationals stand for the floating-point numbers, and nothing for a division by zero. -/
def divide (x y : Rat) : Option Rat := if y = 0 then none else some (x / y)

def expectedAgreement (margins : Map String (Nat × Nat)) (n : Rat) : Option Rat := do
  let terms ← margins.entries.mapM fun e => do
    let a ← divide e.2.1 n
    let b ← divide e.2.2 n
    return a * b
  return terms.sum

def kappaOf (observed expected : Rat) : Option (Option Rat) :=
  if expected < 1 then (divide (observed - expected) (1 - expected)).map some else some none

def samePairs (margins : Map String (Nat × Nat)) : Rat :=
  (margins.entries.map fun e => ((e.2.1 + e.2.2 : Nat) : Rat) * (((e.2.1 + e.2.2 : Nat) : Rat) - 1)).sum

def alphaOf (margins : Map String (Nat × Nat)) (n observed : Rat) : Option (Option Rat) := do
  let ratings := 2 * n
  let same ← divide (samePairs margins) (ratings * (ratings - 1))
  if 0 < 1 - same then (divide (1 - observed) (1 - same)).map fun ratio => some (1 - ratio) else some none

def comparison (name : String) (pairs : List Pair) : Option Comparison :=
  let c := countPairs pairs
  let result := ⟨name, c.included, c.excluded, none, none, none, c.matrix.mergeSort Confusion.le⟩
  if 0 < c.included then do
    let n : Rat := c.included
    let observed ← divide c.agreement n
    let expected ← expectedAgreement c.margins n
    let kappa ← kappaOf observed expected
    let alpha ← alphaOf c.margins n observed
    return { result with agreement := some observed, kappa := kappa, alpha := alpha }
  else some result

end Code

section Textbook

/-- The pairs in which both columns have a label. -/
def paired (pairs : List Pair) : List (String × String × Nat) :=
  pairs.filterMap fun
    | (some a, some b, count) => some (a, b, count)
    | _ => none

def unpaired (pairs : List Pair) : List Pair := pairs.filter fun p => p.1 = none ∨ p.2.1 = none

def table (pairs : List Pair) : String → String → Nat := Agreement.tabulate (paired pairs)

/-- The labels of the table. -/
def labels (pairs : List Pair) : Finset String := ((paired pairs).flatMap fun g => [g.1, g.2.1]).toFinset

/-- The included rows agree. -/
def Agreeing (pairs : List Pair) : Prop := ∀ g ∈ paired pairs, 0 < g.2.2 → g.1 = g.2.1

/-- A value that an included row has in one of the columns. -/
def Value (pairs : List Pair) (v : String) : Prop := ∃ g ∈ paired pairs, 0 < g.2.2 ∧ (g.1 = v ∨ g.2.1 = v)

/-- The comparison of the textbooks: every count is of the rows, and every statistic is of the table they make. -/
structure Textbook (name : String) (pairs : List Pair) (r : Comparison) : Prop where
  column : r.column = name
  included : r.included = ((paired pairs).map fun g => g.2.2).sum
  excluded : r.excluded = ((unpaired pairs).map fun p => p.2.2).sum
  cells : ∀ a b, ((r.matrix.filter fun c => c.annotation = a ∧ c.comparison = b).map Confusion.count).sum = table pairs a b
  sum : (r.matrix.map Confusion.count).sum = r.included
  values : Agreement.pairable (labels pairs) (table pairs) = 2 * r.included
  agreement : r.agreement = if 0 < r.included then some (Agreement.observed (labels pairs) (table pairs)) else none
  kappa : r.kappa = if 0 < r.included ∧ Agreement.chance (labels pairs) (table pairs) ≠ 1 then
    some (Agreement.kappa (labels pairs) (table pairs)) else none
  alpha : ∀ x, r.alpha = some x ↔
    (∃ v w, Value pairs v ∧ Value pairs w ∧ v ≠ w) ∧ x = Agreement.alpha (labels pairs) (table pairs)
  /-- The divisors are above zero, and only an agreement worse than by chance makes a difference below zero. -/
  differences : 0 < r.included → Agreement.observed (labels pairs) (table pairs) ≤ 1 ∧
    Agreement.chance (labels pairs) (table pairs) ≤ 1 ∧ (1 : Rat) < 2 * r.included ∧
      0 ≤ Agreement.expectedDisagreement (labels pairs) (table pairs)
  kappaBound : ∀ k, r.kappa = some k → k ≤ 1 ∧ (k = 1 ↔ Agreeing pairs)
  alphaBound : ∀ k, r.alpha = some k → k ≤ 1 ∧ (k = 1 ↔ Agreeing pairs)

end Textbook

variable {pairs : List Pair}

section Counting

/-- What the margins count: every label of the first column, and every label of the second one. -/
def ratings (groups : List (String × String × Nat)) : List (String × Nat × Nat) :=
  groups.flatMap fun g => [(g.1, g.2.2, 0), (g.2.1, 0, g.2.2)]

theorem ratings_concat (groups : List (String × String × Nat)) (g : String × String × Nat) :
    ratings (groups ++ [g]) = ratings groups ++ [(g.1, g.2.2, 0)] ++ [(g.2.1, 0, g.2.2)] := by
  simp [ratings]

theorem countPairs_eq (pairs : List Pair) :
    countPairs pairs =
      { included := ((paired pairs).map fun g => g.2.2).sum
        excluded := ((unpaired pairs).map fun p => p.2.2).sum
        agreement := (((paired pairs).filter fun g => g.1 = g.2.1).map fun g => g.2.2).sum
        margins := Map.tally (ratings (paired pairs))
        matrix := (paired pairs).map fun g => ⟨g.1, g.2.1, g.2.2⟩ } := by
  induction pairs using List.reverseRecOn with
  | nil => rfl
  | append_singleton pairs p ih =>
      have hconcat : countPairs (pairs ++ [p]) = (countPairs pairs).add p := List.foldl_concat _ _ _ _
      rw [hconcat, ih]
      obtain ⟨a, b, count⟩ := p
      cases a with
      | none => simp [Counts.add, paired, unpaired]
      | some a =>
          cases b with
          | none => simp [Counts.add, paired, unpaired]
          | some b =>
              have hpaired : paired (pairs ++ [(some a, some b, count)]) = paired pairs ++ [(a, b, count)] := by simp [paired]
              have hunpaired : unpaired (pairs ++ [(some a, some b, count)]) = unpaired pairs := by simp [unpaired]
              rw [hpaired, hunpaired, ratings_concat, Map.tally_concat, Map.tally_concat]
              by_cases heq : a = b <;> simp [Counts.add, heq]

theorem mem_labels {v : String} : v ∈ labels pairs ↔ ∃ g ∈ paired pairs, g.1 = v ∨ g.2.1 = v := by
  simp [labels, eq_comm]

theorem labels_eq (pairs : List Pair) : ((ratings (paired pairs)).map Prod.fst).toFinset = labels pairs := by
  rw [ratings, List.map_flatMap]
  rfl

theorem labelled (pairs : List Pair) : ∀ g ∈ paired pairs, g.1 ∈ labels pairs ∧ g.2.1 ∈ labels pairs := by
  intro g hg
  exact ⟨mem_labels.mpr ⟨g, hg, .inl rfl⟩, mem_labels.mpr ⟨g, hg, .inr rfl⟩⟩

theorem amount_ratings {groups : List (String × String × Nat)} {known : Finset String}
    (h : ∀ g ∈ groups, g.1 ∈ known ∧ g.2.1 ∈ known) (a : String) :
    Map.amount (ratings groups) a =
      (Agreement.first known (Agreement.tabulate groups) a, Agreement.second known (Agreement.tabulate groups) a) := by
  induction groups using List.reverseRecOn with
  | nil =>
      simp [ratings, Map.amount, Agreement.first, Agreement.second, Agreement.tabulate]
      rfl
  | append_singleton groups g ih =>
      obtain ⟨hgroups, hg⟩ := List.forall_mem_append.mp h
      obtain ⟨hfirst, hsecond⟩ := hg g (List.mem_singleton_self g)
      rw [ratings_concat, Map.amount_concat, Map.amount_concat, ih hgroups, Agreement.first_concat hsecond,
        Agreement.second_concat hfirst]
      by_cases h₁ : g.1 = a <;> by_cases h₂ : g.2.1 = a <;> simp [h₁, h₂]

/-- A sum over the margins is a sum over the labels. -/
theorem sum_margins (pairs : List Pair) (f : Nat → Nat → Rat) :
    ((Map.tally (ratings (paired pairs))).entries.map fun e => f e.2.1 e.2.2).sum =
      ∑ a ∈ labels pairs, f (Agreement.first (labels pairs) (table pairs) a) (Agreement.second (labels pairs) (table pairs) a) := by
  have hsum := Map.sum_entries_tally (ratings (paired pairs)) fun _ m => f m.1 m.2
  rw [hsum, labels_eq]
  apply Finset.sum_congr rfl
  intro a _
  rw [amount_ratings (labelled pairs)]
  rfl

theorem total_table (pairs : List Pair) :
    Agreement.total (labels pairs) (table pairs) = ((paired pairs).map fun g => g.2.2).sum :=
  Agreement.total_tabulate (labelled pairs)

theorem unanimous_iff : Agreement.Unanimous (labels pairs) (table pairs) ↔ Agreeing pairs := by
  constructor
  · intro h g hg hpos
    by_contra hne
    obtain ⟨ha, hb⟩ := labelled pairs g hg
    have hcell : 0 < table pairs g.1 g.2.1 := Agreement.tabulate_pos_iff.mpr ⟨g.2.2, hpos, hg⟩
    exact hcell.ne' (h _ ha _ hb hne)
  · intro h a _ b _ hne
    by_contra hcell
    obtain ⟨count, hpos, hmem⟩ := Agreement.tabulate_pos_iff.mp (Nat.pos_of_ne_zero hcell)
    exact hne (h _ hmem hpos)

theorem values_pos_iff {v : String} :
    v ∈ labels pairs ∧ 0 < Agreement.values (labels pairs) (table pairs) v ↔ Value pairs v := by
  rw [Agreement.values, Finset.sum_pos_iff]
  constructor
  · rintro ⟨-, w, -, hpos⟩
    rcases Nat.add_pos_iff_pos_or_pos.mp hpos with hcell | hcell
    · obtain ⟨count, hcount, hmem⟩ := Agreement.tabulate_pos_iff.mp hcell
      exact ⟨_, hmem, hcount, .inl rfl⟩
    · obtain ⟨count, hcount, hmem⟩ := Agreement.tabulate_pos_iff.mp hcell
      exact ⟨_, hmem, hcount, .inr rfl⟩
  · rintro ⟨g, hg, hpos, hv⟩
    obtain ⟨ha, hb⟩ := labelled pairs g hg
    have hcell : 0 < table pairs g.1 g.2.1 := Agreement.tabulate_pos_iff.mpr ⟨g.2.2, hpos, hg⟩
    rcases hv with rfl | rfl
    · exact ⟨ha, g.2.1, hb, Nat.add_pos_left hcell _⟩
    · exact ⟨hb, g.1, ha, Nat.add_pos_right _ hcell⟩

theorem constant_iff : ¬Agreement.Constant (labels pairs) (table pairs) ↔ ∃ v w, Value pairs v ∧ Value pairs w ∧ v ≠ w := by
  rw [Agreement.Constant]
  push Not
  constructor
  · rintro ⟨v, hv, w, hw, hvpos, hwpos, hne⟩
    exact ⟨v, w, values_pos_iff.mp ⟨hv, hvpos⟩, values_pos_iff.mp ⟨hw, hwpos⟩, hne⟩
  · rintro ⟨v, w, hv, hw, hne⟩
    obtain ⟨hv, hvpos⟩ := values_pos_iff.mpr hv
    obtain ⟨hw, hwpos⟩ := values_pos_iff.mpr hw
    exact ⟨v, hv, w, hw, hvpos, hwpos, hne⟩

end Counting

section Statistics

theorem divide_of_ne {x y : Rat} (h : y ≠ 0) : divide x y = some (x / y) := if_neg h

theorem expectedAgreement_eq {n : Rat} (hn : n = Agreement.total (labels pairs) (table pairs)) (h : n ≠ 0) :
    expectedAgreement (Map.tally (ratings (paired pairs))) n = some (Agreement.chance (labels pairs) (table pairs)) := by
  have hterms : ((Map.tally (ratings (paired pairs))).entries.mapM fun e => do
        let a ← divide e.2.1 n
        let b ← divide e.2.2 n
        return a * b) =
      some ((Map.tally (ratings (paired pairs))).entries.map fun e => (e.2.1 : Rat) / n * (e.2.2 / n)) := by
    simp only [divide_of_ne h]
    exact List.mapM_pure
  rw [expectedAgreement, hterms]
  have hsum := sum_margins pairs fun a b => (a : Rat) / n * (b / n)
  rw [hn] at hsum ⊢
  exact congrArg some hsum

theorem kappaOf_eq (h : 0 < Agreement.total (labels pairs) (table pairs)) :
    kappaOf (Agreement.observed (labels pairs) (table pairs)) (Agreement.chance (labels pairs) (table pairs)) =
      some (if Agreement.chance (labels pairs) (table pairs) ≠ 1 then some (Agreement.kappa (labels pairs) (table pairs)) else none) := by
  have hle := Agreement.chance_le_one h
  rw [kappaOf]
  by_cases hone : Agreement.chance (labels pairs) (table pairs) = 1
  · rw [if_neg (not_lt.mpr hone.ge), if_neg (not_not.mpr hone)]
  · rw [if_pos (lt_of_le_of_ne hle hone), if_pos hone, divide_of_ne (sub_ne_zero.mpr (Ne.symm hone))]
    rfl

theorem alphaOf_eq {n : Rat} (hn : n = Agreement.total (labels pairs) (table pairs))
    (h : 0 < Agreement.total (labels pairs) (table pairs)) :
    alphaOf (Map.tally (ratings (paired pairs))) n (Agreement.observed (labels pairs) (table pairs)) =
      some (if 0 < Agreement.expectedDisagreement (labels pairs) (table pairs) then
        some (Agreement.alpha (labels pairs) (table pairs)) else none) := by
  have hsame : samePairs (Map.tally (ratings (paired pairs))) =
      ∑ a ∈ labels pairs, (Agreement.values (labels pairs) (table pairs) a : Rat) *
        (Agreement.values (labels pairs) (table pairs) a - 1) := by
    rw [samePairs, sum_margins pairs fun a b => ((a + b : Nat) : Rat) * (((a + b : Nat) : Rat) - 1)]
    apply Finset.sum_congr rfl
    intro a _
    rw [Agreement.values_eq]
  have hratings : 2 * n = Agreement.pairable (labels pairs) (table pairs) := by
    rw [hn, Agreement.pairable_eq, Nat.cast_mul]
    rfl
  rw [alphaOf]
  simp only [hsame, hratings, divide_of_ne (Agreement.ratings_pos h).ne', Option.bind_eq_bind, Option.bind_some,
    ← Agreement.expectedDisagreement_eq h]
  by_cases hpos : 0 < Agreement.expectedDisagreement (labels pairs) (table pairs)
  · rw [if_pos hpos, if_pos hpos, divide_of_ne hpos.ne', Agreement.alpha, Agreement.observedDisagreement_eq h]
    rfl
  · rw [if_neg hpos, if_neg hpos]

/-- The entries of the matrix in the order of the pairs. -/
def confusions (pairs : List Pair) : List Confusion := (paired pairs).map fun g => ⟨g.1, g.2.1, g.2.2⟩

/-- The comparison that the table of the pairs gives. -/
def tabulated (name : String) (pairs : List Pair) : Comparison where
  column := name
  included := Agreement.total (labels pairs) (table pairs)
  excluded := ((unpaired pairs).map fun p => p.2.2).sum
  agreement := if 0 < Agreement.total (labels pairs) (table pairs) then
    some (Agreement.observed (labels pairs) (table pairs)) else none
  kappa := if 0 < Agreement.total (labels pairs) (table pairs) ∧ Agreement.chance (labels pairs) (table pairs) ≠ 1 then
    some (Agreement.kappa (labels pairs) (table pairs)) else none
  alpha := if 0 < Agreement.total (labels pairs) (table pairs) ∧
      0 < Agreement.expectedDisagreement (labels pairs) (table pairs) then
    some (Agreement.alpha (labels pairs) (table pairs)) else none
  matrix := (confusions pairs).mergeSort Confusion.le

theorem matrix_perm (name : String) (pairs : List Pair) : (tabulated name pairs).matrix.Perm (confusions pairs) :=
  List.mergeSort_perm _ _

theorem comparison_eq (name : String) (pairs : List Pair) : comparison name pairs = some (tabulated name pairs) := by
  have hdiagonal : (((paired pairs).filter fun g => g.1 = g.2.1).map fun g => g.2.2).sum = ∑ a ∈ labels pairs, table pairs a a :=
    (Agreement.diagonal_tabulate (labelled pairs)).symm
  rw [comparison, countPairs_eq, tabulated]
  simp only [← total_table, hdiagonal]
  by_cases h : 0 < Agreement.total (labels pairs) (table pairs)
  · have hne : (Agreement.total (labels pairs) (table pairs) : Rat) ≠ 0 := Nat.cast_ne_zero.mpr h.ne'
    have hkappa := kappaOf_eq h
    have halpha := alphaOf_eq rfl h
    rw [Agreement.observed] at hkappa halpha
    simp only [h, if_true, true_and, divide_of_ne hne, expectedAgreement_eq rfl hne, hkappa, halpha, Option.bind_eq_bind,
      Option.bind_some, Agreement.observed]
    rfl
  · simp only [h, if_false, false_and]
    rfl

theorem textbook_tabulated (name : String) (pairs : List Pair) : Textbook name pairs (tabulated name pairs) := by
  have hperm := matrix_perm name pairs
  constructor
  case column => rfl
  case included => exact total_table pairs
  case excluded => rfl
  case cells =>
    intro a b
    rw [((hperm.filter _).map _).sum_eq, confusions, List.filter_map, List.map_map]
    rfl
  case sum =>
    rw [(hperm.map _).sum_eq, confusions, List.map_map]
    exact (total_table pairs).symm
  case values => exact Agreement.pairable_eq
  case agreement => rfl
  case kappa => rfl
  case alpha =>
    intro x
    rw [← constant_iff]
    by_cases h : 0 < Agreement.total (labels pairs) (table pairs)
    · rw [← Agreement.expectedDisagreement_pos_iff h]
      simp only [tabulated, h, true_and]
      by_cases hpos : 0 < Agreement.expectedDisagreement (labels pairs) (table pairs)
      · rw [if_pos hpos, Option.some_inj, eq_comm, and_iff_right hpos]
      · simp [hpos]
    · have hconstant : Agreement.Constant (labels pairs) (table pairs) := by
        by_contra hnot
        obtain ⟨v, -, hv, -⟩ := constant_iff.mp hnot
        obtain ⟨hmem, hvalue⟩ := values_pos_iff.mpr hv
        have hle : Agreement.values (labels pairs) (table pairs) v ≤ Agreement.pairable (labels pairs) (table pairs) :=
          Finset.single_le_sum (fun _ _ => Nat.zero_le _) hmem
        rw [Agreement.pairable_eq] at hle
        omega
      simp [tabulated, h, hconstant]
  case differences =>
    intro h
    have hpairable := @Agreement.one_lt_pairable _ (labels pairs) (table pairs) h
    rw [Agreement.pairable_eq, Nat.cast_mul] at hpairable
    exact ⟨Agreement.observed_le_one h, Agreement.chance_le_one h, hpairable, Agreement.expectedDisagreement_nonneg h⟩
  case kappaBound =>
    intro k hk
    obtain ⟨⟨h, hchance⟩, hk⟩ := Option.ite_none_right_eq_some.mp hk
    obtain rfl := Option.some.inj hk
    exact ⟨Agreement.kappa_le_one h hchance, (Agreement.kappa_eq_one_iff h hchance).trans unanimous_iff⟩
  case alphaBound =>
    intro k hk
    obtain ⟨⟨h, hpos⟩, hk⟩ := Option.ite_none_right_eq_some.mp hk
    obtain rfl := Option.some.inj hk
    have hconstant := (Agreement.expectedDisagreement_pos_iff h).mp hpos
    exact ⟨Agreement.alpha_le_one h, (Agreement.alpha_eq_one_iff h hconstant).trans unanimous_iff⟩

end Statistics

section Exchange

/-- The pairs with the two columns exchanged. -/
def exchange (pairs : List Pair) : List Pair := pairs.map fun p => (p.2.1, p.1, p.2.2)

def Confusion.transpose (c : Confusion) : Confusion := ⟨c.comparison, c.annotation, c.count⟩

theorem paired_exchange (pairs : List Pair) : paired (exchange pairs) = (paired pairs).map fun g => (g.2.1, g.1, g.2.2) := by
  induction pairs with
  | nil => rfl
  | cons p pairs ih =>
      obtain ⟨a, b, count⟩ := p
      cases a with
      | none => cases b <;> simpa [exchange, paired] using ih
      | some a => cases b <;> simpa [exchange, paired] using ih

theorem labels_exchange (pairs : List Pair) : labels (exchange pairs) = labels pairs := by
  ext v
  simp only [mem_labels, paired_exchange, List.mem_map]
  constructor
  · rintro ⟨_, ⟨g, hg, rfl⟩, hv⟩
    exact ⟨g, hg, hv.symm⟩
  · rintro ⟨g, hg, hv⟩
    exact ⟨_, ⟨g, hg, rfl⟩, hv.symm⟩

theorem table_exchange (pairs : List Pair) : table (exchange pairs) = Agreement.exchanged (table pairs) := by
  funext a b
  rw [table, Agreement.tabulate, paired_exchange, List.filter_map, List.map_map, Agreement.exchanged, table, Agreement.tabulate]
  congr 2
  apply List.filter_congr
  intro g _
  simp [Bool.and_comm]

theorem unpaired_exchange (pairs : List Pair) :
    ((unpaired (exchange pairs)).map fun p => p.2.2) = (unpaired pairs).map fun p => p.2.2 := by
  rw [unpaired, unpaired, exchange, List.filter_map, List.map_map]
  congr 1
  apply List.filter_congr
  intro p _
  simp [Bool.or_comm]

/-- The statistics of a comparison are those of the textbooks, and they do not depend on which column is the first. -/
theorem comparison_is_textbook (name : String) (pairs : List Pair) :
    ∃ r, comparison name pairs = some r ∧ Textbook name pairs r ∧
      ∃ s, comparison name (exchange pairs) = some s ∧ s.included = r.included ∧ s.excluded = r.excluded ∧
        s.matrix.Perm (r.matrix.map Confusion.transpose) ∧
          s.agreement = r.agreement ∧ s.kappa = r.kappa ∧ s.alpha = r.alpha := by
  refine ⟨_, comparison_eq name pairs, textbook_tabulated name pairs, _, comparison_eq name (exchange pairs), ?_, ?_, ?_, ?_, ?_, ?_⟩
  · simp only [tabulated, labels_exchange, table_exchange, Agreement.total_exchanged]
  · simp only [tabulated, unpaired_exchange]
  · have hconfusions : confusions (exchange pairs) = (confusions pairs).map Confusion.transpose := by
      rw [confusions, paired_exchange, confusions, List.map_map, List.map_map]
      rfl
    have hexchanged := matrix_perm name (exchange pairs)
    rw [hconfusions] at hexchanged
    exact hexchanged.trans ((matrix_perm name pairs).map _).symm
  · simp only [tabulated, labels_exchange, table_exchange, Agreement.total_exchanged, Agreement.observed_exchanged]
  · simp only [tabulated, labels_exchange, table_exchange, Agreement.total_exchanged, Agreement.chance_exchanged,
      Agreement.kappa_exchanged]
  · have hexpected : Agreement.expectedDisagreement (labels pairs) (Agreement.exchanged (table pairs)) =
        Agreement.expectedDisagreement (labels pairs) (table pairs) := Agreement.expectedDisagreement_exchanged
    simp only [tabulated, labels_exchange, table_exchange, Agreement.total_exchanged, hexpected, Agreement.alpha_exchanged]

end Exchange

end Wordflow.Review
