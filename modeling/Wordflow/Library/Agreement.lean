import Mathlib.Algebra.BigOperators.Field
import Mathlib.Algebra.Order.BigOperators.Ring.Finset
import Mathlib.Data.Finset.Prod
import Mathlib.Data.Rat.Cast.Order
import Mathlib.Tactic.FieldSimp
import Mathlib.Tactic.Linarith
import Mathlib.Tactic.Positivity
import Mathlib.Tactic.Push
import Mathlib.Tactic.Ring

namespace Wordflow.Library.Agreement

variable {L : Type*}

section Definitions

variable (labels : Finset L) (table : L → L → ℕ)

/-- How many items the first coder gave a label, of the items that two coders gave each pair of labels. -/
def first (a : L) : ℕ := ∑ b ∈ labels, table a b

def second (b : L) : ℕ := ∑ a ∈ labels, table a b

def total : ℕ := ∑ a ∈ labels, first labels table a

def observed : ℚ := (∑ a ∈ labels, table a a : ℕ) / (total labels table : ℚ)

/-- The agreement that coders with these margins would reach by chance. -/
def chance : ℚ :=
  ∑ a ∈ labels, (first labels table a : ℚ) / total labels table * ((second labels table a : ℚ) / total labels table)

/-- Cohen's kappa. -/
def kappa : ℚ := (observed labels table - chance labels table) / (1 - chance labels table)

/-- The coincidence matrix has every item twice, once in each order of its two values. -/
def coincidences (a b : L) : ℕ := table a b + table b a

/-- How many of the pairable values are a label. -/
def values (a : L) : ℕ := ∑ b ∈ labels, coincidences table a b

def pairable : ℕ := ∑ a ∈ labels, values labels table a

def observedDisagreement : ℚ := (∑ p ∈ labels.offDiag, coincidences table p.1 p.2 : ℕ) / (pairable labels table : ℚ)

def expectedDisagreement : ℚ :=
  (∑ p ∈ labels.offDiag, values labels table p.1 * values labels table p.2 : ℕ) /
    ((pairable labels table : ℚ) * (pairable labels table - 1))

/-- Krippendorff's alpha for nominal values. -/
def alpha : ℚ := 1 - observedDisagreement labels table / expectedDisagreement labels table

end Definitions

variable (labels : Finset L) (table : L → L → ℕ)

/-- No item has two different labels. -/
def Unanimous : Prop := ∀ a ∈ labels, ∀ b ∈ labels, a ≠ b → table a b = 0

/-- The pairable values are one label. -/
def Constant : Prop := ∀ a ∈ labels, ∀ b ∈ labels, 0 < values labels table a → 0 < values labels table b → a = b

variable {labels table}

section Margins

theorem values_eq (a : L) : values labels table a = first labels table a + second labels table a :=
  Finset.sum_add_distrib

theorem total_eq : total labels table = ∑ b ∈ labels, second labels table b :=
  Finset.sum_comm

theorem pairable_eq : pairable labels table = 2 * total labels table := by
  have hsum : pairable labels table = ∑ a ∈ labels, first labels table a + ∑ a ∈ labels, second labels table a := by
    rw [← Finset.sum_add_distrib]
    apply Finset.sum_congr rfl
    intro a _
    exact values_eq a
  rw [hsum, ← total_eq, ← total, two_mul]

theorem first_shares (h : 0 < total labels table) :
    ∑ a ∈ labels, (first labels table a : ℚ) / total labels table = 1 := by
  rw [← Finset.sum_div, ← Nat.cast_sum]
  exact div_self (Nat.cast_ne_zero.mpr h.ne')

theorem second_shares (h : 0 < total labels table) :
    ∑ b ∈ labels, (second labels table b : ℚ) / total labels table = 1 := by
  rw [← Finset.sum_div, ← Nat.cast_sum, ← total_eq]
  exact div_self (Nat.cast_ne_zero.mpr h.ne')

theorem one_lt_pairable (h : 0 < total labels table) : (1 : ℚ) < pairable labels table := by
  have hlt : 1 < pairable labels table := by
    rw [pairable_eq]
    omega
  exact_mod_cast hlt

theorem ratings_pos (h : 0 < total labels table) :
    (0 : ℚ) < (pairable labels table : ℚ) * (pairable labels table - 1) := by
  have hone := @one_lt_pairable L labels table h
  apply mul_pos <;> linarith

theorem expectedDisagreement_nonneg (h : 0 < total labels table) : 0 ≤ expectedDisagreement labels table :=
  div_nonneg (Nat.cast_nonneg _) (ratings_pos h).le

theorem expectedDisagreement_pos_iff (h : 0 < total labels table) :
    0 < expectedDisagreement labels table ↔ ¬Constant labels table := by
  have hpos := @ratings_pos L labels table h
  rw [expectedDisagreement, div_pos_iff_of_pos_right hpos, Nat.cast_pos, Finset.sum_pos_iff]
  constructor
  · rintro ⟨p, hp, hproduct⟩ hconstant
    obtain ⟨ha, hb, hne⟩ := Finset.mem_offDiag.mp hp
    exact hne (hconstant _ ha _ hb (Nat.pos_of_mul_pos_right hproduct) (Nat.pos_of_mul_pos_left hproduct))
  · intro hnot
    rw [Constant] at hnot
    push Not at hnot
    obtain ⟨a, ha, b, hb, hfirst, hsecond, hne⟩ := hnot
    exact ⟨(a, b), Finset.mem_offDiag.mpr ⟨ha, hb, hne⟩, Nat.mul_pos hfirst hsecond⟩

end Margins

section Coders

/-- The table with the coders exchanged. -/
def exchanged (table : L → L → ℕ) (a b : L) : ℕ := table b a

theorem total_exchanged : total labels (exchanged table) = total labels table := Finset.sum_comm

theorem observed_exchanged : observed labels (exchanged table) = observed labels table := by
  rw [observed, observed, total_exchanged]
  rfl

theorem chance_exchanged : chance labels (exchanged table) = chance labels table := by
  rw [chance, chance, total_exchanged]
  apply Finset.sum_congr rfl
  intro a _
  exact mul_comm _ _

theorem kappa_exchanged : kappa labels (exchanged table) = kappa labels table := by
  rw [kappa, kappa, observed_exchanged, chance_exchanged]

theorem coincidences_exchanged : coincidences (exchanged table) = coincidences table := by
  funext a b
  exact Nat.add_comm _ _

theorem values_exchanged : values labels (exchanged table) = values labels table := by
  funext a
  rw [values, values, coincidences_exchanged]

theorem pairable_exchanged : pairable labels (exchanged table) = pairable labels table := by
  rw [pairable, pairable, values_exchanged]

theorem expectedDisagreement_exchanged :
    expectedDisagreement labels (exchanged table) = expectedDisagreement labels table := by
  rw [expectedDisagreement, expectedDisagreement, values_exchanged, pairable_exchanged]

theorem alpha_exchanged : alpha labels (exchanged table) = alpha labels table := by
  rw [alpha, alpha, observedDisagreement, observedDisagreement, expectedDisagreement_exchanged, coincidences_exchanged,
    pairable_exchanged]

end Coders

variable [DecidableEq L]

section Groups

/-- The table of items that come in groups with the same pair of labels. -/
def tabulate (groups : List (L × L × ℕ)) (a b : L) : ℕ :=
  ((groups.filter fun g => g.1 = a ∧ g.2.1 = b).map fun g => g.2.2).sum

variable {groups : List (L × L × ℕ)}

theorem tabulate_concat (groups : List (L × L × ℕ)) (g : L × L × ℕ) (a b : L) :
    tabulate (groups ++ [g]) a b = tabulate groups a b + if g.1 = a ∧ g.2.1 = b then g.2.2 else 0 := by
  rw [tabulate, List.filter_append, List.map_append, List.sum_append, tabulate]
  congr 1
  by_cases h : g.1 = a ∧ g.2.1 = b <;> simp [h]

theorem first_concat {g : L × L × ℕ} (hg : g.2.1 ∈ labels) (a : L) :
    first labels (tabulate (groups ++ [g])) a = first labels (tabulate groups) a + if g.1 = a then g.2.2 else 0 := by
  simp only [first, tabulate_concat, Finset.sum_add_distrib]
  congr 1
  by_cases ha : g.1 = a <;> simp [ha, hg]

theorem second_concat {g : L × L × ℕ} (hg : g.1 ∈ labels) (b : L) :
    second labels (tabulate (groups ++ [g])) b = second labels (tabulate groups) b + if g.2.1 = b then g.2.2 else 0 := by
  simp only [second, tabulate_concat, Finset.sum_add_distrib]
  congr 1
  by_cases hb : g.2.1 = b <;> simp [hb, hg]

theorem total_tabulate (h : ∀ g ∈ groups, g.1 ∈ labels ∧ g.2.1 ∈ labels) :
    total labels (tabulate groups) = (groups.map fun g => g.2.2).sum := by
  induction groups using List.reverseRecOn with
  | nil => simp [total, first, tabulate]
  | append_singleton groups g ih =>
      obtain ⟨hgroups, hg⟩ := List.forall_mem_append.mp h
      obtain ⟨hfirst, hsecond⟩ := hg g (List.mem_singleton_self g)
      have hsum : ∑ a ∈ labels, (if g.1 = a then g.2.2 else 0) = g.2.2 := by
        rw [Finset.sum_ite_eq, if_pos hfirst]
      rw [total, Finset.sum_congr rfl fun a _ => first_concat hsecond a, Finset.sum_add_distrib, hsum, ← total, ih hgroups]
      simp

theorem diagonal_tabulate (h : ∀ g ∈ groups, g.1 ∈ labels ∧ g.2.1 ∈ labels) :
    ∑ a ∈ labels, tabulate groups a a = ((groups.filter fun g => g.1 = g.2.1).map fun g => g.2.2).sum := by
  induction groups using List.reverseRecOn with
  | nil => simp [tabulate]
  | append_singleton groups g ih =>
      obtain ⟨hgroups, hg⟩ := List.forall_mem_append.mp h
      obtain ⟨hfirst, -⟩ := hg g (List.mem_singleton_self g)
      simp only [tabulate_concat, Finset.sum_add_distrib, ih hgroups, List.filter_append, List.map_append, List.sum_append]
      congr 1
      by_cases heq : g.1 = g.2.1
      · have hsum : ∑ a ∈ labels, (if g.1 = a ∧ g.2.1 = a then g.2.2 else 0) = ∑ a ∈ labels, if g.1 = a then g.2.2 else 0 := by
          apply Finset.sum_congr rfl
          intro a _
          simp only [← heq, and_self]
        rw [hsum, Finset.sum_ite_eq, if_pos hfirst]
        simp [heq]
      · have hnone : ∀ a, ¬(g.1 = a ∧ g.2.1 = a) := fun a ha => heq (ha.1.trans ha.2.symm)
        simp [hnone, heq]

theorem tabulate_pos_iff {a b : L} : 0 < tabulate groups a b ↔ ∃ count, 0 < count ∧ (a, b, count) ∈ groups := by
  rw [tabulate, Nat.pos_iff_ne_zero, Ne, List.sum_eq_zero_iff]
  constructor
  · intro h
    push Not at h
    obtain ⟨count, hmem, hne⟩ := h
    obtain ⟨g, hg, rfl⟩ := List.mem_map.mp hmem
    obtain ⟨hgroup, hlabels⟩ := List.mem_filter.mp hg
    obtain ⟨rfl, rfl⟩ := of_decide_eq_true hlabels
    exact ⟨g.2.2, Nat.pos_of_ne_zero hne, hgroup⟩
  · rintro ⟨count, hpos, hmem⟩ hall
    have hgroup : (a, b, count) ∈ groups.filter fun g => g.1 = a ∧ g.2.1 = b :=
      List.mem_filter.mpr ⟨hmem, decide_eq_true ⟨rfl, rfl⟩⟩
    exact hpos.ne' (hall count (List.mem_map.mpr ⟨_, hgroup, rfl⟩))

end Groups

section Splits

/-- A sum over all pairs of labels is its diagonal and what is off it. -/
theorem sum_diag_add_offDiag (labels : Finset L) (f : L → L → ℕ) :
    ∑ a ∈ labels, f a a + ∑ p ∈ labels.offDiag, f p.1 p.2 = ∑ a ∈ labels, ∑ b ∈ labels, f a b := by
  have hdiag : ∑ p ∈ labels.diag, f p.1 p.2 = ∑ a ∈ labels, f a a := Finset.sum_diag labels fun p => f p.1 p.2
  rw [← hdiag, ← Finset.sum_union (Finset.disjoint_diag_offDiag labels), Finset.diag_union_offDiag, Finset.sum_product]

theorem sum_table : ∑ a ∈ labels, table a a + ∑ p ∈ labels.offDiag, table p.1 p.2 = total labels table :=
  sum_diag_add_offDiag labels table

theorem sum_coincidences :
    ∑ p ∈ labels.offDiag, coincidences table p.1 p.2 + 2 * ∑ a ∈ labels, table a a = 2 * total labels table := by
  have hsplit := sum_diag_add_offDiag labels (coincidences table)
  have hdiag : ∑ a ∈ labels, coincidences table a a = 2 * ∑ a ∈ labels, table a a := by
    rw [Finset.mul_sum]
    apply Finset.sum_congr rfl
    intro a _
    exact (two_mul _).symm
  have hpairable : ∑ a ∈ labels, ∑ b ∈ labels, coincidences table a b = 2 * total labels table := pairable_eq
  omega

theorem sum_values :
    ∑ a ∈ labels, values labels table a * values labels table a +
        ∑ p ∈ labels.offDiag, values labels table p.1 * values labels table p.2 =
      pairable labels table * pairable labels table := by
  rw [sum_diag_add_offDiag labels fun a b => values labels table a * values labels table b, pairable, Finset.sum_mul_sum]

end Splits

section Observed

theorem observed_le_one (h : 0 < total labels table) : observed labels table ≤ 1 := by
  have htotal := @sum_table L labels table _
  rw [observed, div_le_one (by exact_mod_cast h)]
  exact_mod_cast Nat.le.intro htotal

theorem observed_eq_one_iff (h : 0 < total labels table) : observed labels table = 1 ↔ Unanimous labels table := by
  have htotal := @sum_table L labels table _
  rw [observed, div_eq_one_iff_eq (by exact_mod_cast h.ne')]
  have hoff : (∑ p ∈ labels.offDiag, table p.1 p.2 = 0) ↔ Unanimous labels table := by
    rw [Finset.sum_eq_zero_iff]
    constructor
    · intro hzero a ha b hb hne
      exact hzero (a, b) (Finset.mem_offDiag.mpr ⟨ha, hb, hne⟩)
    · intro hunanimous p hp
      obtain ⟨ha, hb, hne⟩ := Finset.mem_offDiag.mp hp
      exact hunanimous _ ha _ hb hne
  rw [← hoff]
  constructor
  · intro heq
    have : ∑ a ∈ labels, table a a = total labels table := by exact_mod_cast heq
    omega
  · intro hzero
    have : ∑ a ∈ labels, table a a = total labels table := by omega
    exact_mod_cast this

/-- The disagreement of the coincidence matrix is the share of items with two different labels. -/
theorem observedDisagreement_eq (h : 0 < total labels table) :
    observedDisagreement labels table = 1 - observed labels table := by
  have hsum : ((∑ p ∈ labels.offDiag, coincidences table p.1 p.2 : ℕ) : ℚ) + 2 * (∑ a ∈ labels, table a a : ℕ) =
      2 * total labels table := by exact_mod_cast sum_coincidences
  have hne : (total labels table : ℚ) ≠ 0 := by exact_mod_cast h.ne'
  rw [observedDisagreement, observed, pairable_eq, eq_sub_of_add_eq hsum]
  push_cast
  field_simp

end Observed

section Chance

/-- What the margins leave over pairs of different labels is what chance agreement lacks. -/
theorem one_sub_chance (h : 0 < total labels table) :
    1 - chance labels table = ∑ p ∈ labels.offDiag,
      (first labels table p.1 : ℚ) / total labels table * ((second labels table p.2 : ℚ) / total labels table) := by
  have hproduct := (Finset.sum_mul_sum labels labels (fun a => (first labels table a : ℚ) / total labels table)
    fun b => (second labels table b : ℚ) / total labels table)
  rw [first_shares h, second_shares h, one_mul, ← Finset.sum_product', ← Finset.diag_union_offDiag,
    Finset.sum_union (Finset.disjoint_diag_offDiag labels), Finset.sum_diag] at hproduct
  rw [chance]
  exact sub_eq_of_eq_add' hproduct

theorem chance_le_one (h : 0 < total labels table) : chance labels table ≤ 1 := by
  have hnonneg : 0 ≤ 1 - chance labels table := by
    rw [one_sub_chance h]
    apply Finset.sum_nonneg
    intro p _
    positivity
  exact sub_nonneg.mp hnonneg

end Chance

section Expected

/-- The expected disagreement from the pooled margins alone. -/
theorem expectedDisagreement_eq (h : 0 < total labels table) :
    expectedDisagreement labels table =
      1 - (∑ a ∈ labels, (values labels table a : ℚ) * (values labels table a - 1)) /
        ((pairable labels table : ℚ) * (pairable labels table - 1)) := by
  have hsquare : (∑ a ∈ labels, (values labels table a : ℚ) * values labels table a) +
      (∑ p ∈ labels.offDiag, values labels table p.1 * values labels table p.2 : ℕ) =
        (pairable labels table : ℚ) * pairable labels table := by exact_mod_cast sum_values
  have hpairable : (∑ a ∈ labels, (values labels table a : ℚ)) = pairable labels table := by
    rw [pairable, Nat.cast_sum]
  have hsame : (∑ a ∈ labels, (values labels table a : ℚ) * (values labels table a - 1)) =
      ∑ a ∈ labels, (values labels table a : ℚ) * values labels table a - pairable labels table := by
    rw [← hpairable, ← Finset.sum_sub_distrib]
    apply Finset.sum_congr rfl
    intro a _
    ring
  have hne := (@ratings_pos L labels table h).ne'
  rw [expectedDisagreement, hsame, eq_sub_iff_add_eq, ← add_div, div_eq_one_iff_eq hne]
  linarith

end Expected

section Bounds

theorem kappa_le_one (h : 0 < total labels table) (hchance : chance labels table ≠ 1) : kappa labels table ≤ 1 := by
  have hpos : 0 < 1 - chance labels table := sub_pos.mpr (lt_of_le_of_ne (chance_le_one h) hchance)
  have hobserved := @observed_le_one L labels table _ h
  rw [kappa, div_le_one hpos]
  linarith

theorem kappa_eq_one_iff (h : 0 < total labels table) (hchance : chance labels table ≠ 1) :
    kappa labels table = 1 ↔ Unanimous labels table := by
  rw [kappa, div_eq_one_iff_eq (sub_ne_zero.mpr hchance.symm), sub_left_inj, observed_eq_one_iff h]

theorem alpha_le_one (h : 0 < total labels table) : alpha labels table ≤ 1 := by
  have hobserved := @observed_le_one L labels table _ h
  rw [alpha, observedDisagreement_eq h]
  have hquotient := div_nonneg (sub_nonneg.mpr hobserved) (@expectedDisagreement_nonneg L labels table h)
  linarith

theorem alpha_eq_one_iff (h : 0 < total labels table) (hconstant : ¬Constant labels table) :
    alpha labels table = 1 ↔ Unanimous labels table := by
  have hpos := (expectedDisagreement_pos_iff h).mpr hconstant
  rw [alpha, observedDisagreement_eq h, sub_eq_self, div_eq_zero_iff, or_iff_left hpos.ne', sub_eq_zero, eq_comm,
    observed_eq_one_iff h]

end Bounds

end Wordflow.Library.Agreement
