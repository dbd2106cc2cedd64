import Mathlib.Algebra.BigOperators.Group.Finset.Basic
import Mathlib.Data.List.Dedup
import Wordflow.CellEdit.Sessions
import Wordflow.Review.Query

namespace Wordflow.Review

open Library Library.Fallible Library.Identifier Objects Tables Annotation CellEdit

section Trim

theorem mem_trimCharacters {c : Char} : c ∈ trimCharacters ↔ Text.isWhitespace c = true := by
  simp only [trimCharacters, List.mem_cons, List.not_mem_nil, or_false, ← Char.toNat_inj, Text.isWhitespace, Bool.or_eq_true,
    Bool.and_eq_true, decide_eq_true_eq, beq_iff_eq]
  simp only [Char.reduceToNat]
  omega

/-- The generated SQL trims as the program does. -/
theorem trimmed_eq (s : String) : trimmed s = Text.trim s := by
  have hsame : (fun c => decide (c ∈ trimCharacters)) = Text.isWhitespace := by
    funext c
    rw [Bool.eq_iff_iff, decide_eq_true_iff]
    exact mem_trimCharacters
  rw [trimmed, sqlTrim, Text.trim, Text.trimEnd, Text.trimStart]
  simp only [hsame]

end Trim

section Labels

variable {codes codes' : Option (List Code)} {text : Option String} {v : String}

theorem labelValue_eq_some : labelValue text = some v ↔ ∃ s, text = some s ∧ v = Text.trim s ∧ v ≠ "" := by
  cases text with
  | none => simp [labelValue]
  | some s =>
      rw [labelValue, trimmed_eq]
      split
      · rename_i hempty
        simp only [reduceCtorEq, Option.some_inj, false_iff]
        rintro ⟨_, rfl, rfl, hne⟩
        exact hne hempty
      · rename_i hne
        simp only [Option.some_inj]
        constructor
        · rintro rfl
          exact ⟨s, rfl, rfl, hne⟩
        · rintro ⟨_, rfl, rfl, -⟩
          rfl

/-- A label counts if it is not blank and, with a Codebook, is one of its codes. -/
theorem label_eq_some : label codes text = some v ↔ ∃ s, text = some s ∧ v = Text.trim s ∧ v ≠ "" ∧
    ∀ book, codes = some book → ∃ code ∈ book, code.code = v := by
  have hvalue := @labelValue_eq_some text v
  match codes with
  | none =>
      rw [label, hvalue]
      simp
  | some [] =>
      simp [label]
  | some (code :: rest) =>
      rw [label]
      · rw [Option.filter_eq_some_iff, hvalue, List.any_eq_true]
        simp only [decide_eq_true_eq, Option.some_inj]
        constructor
        · rintro ⟨⟨s, hs, hv, hne⟩, hcode⟩
          exact ⟨s, hs, hv, hne, fun book hbook => hbook ▸ hcode⟩
        · rintro ⟨s, hs, hv, hne, hcode⟩
          exact ⟨⟨s, hs, hv, hne⟩, hcode _ rfl⟩
      · nofun

/-- A label and the trimmed label count as the same. -/
theorem label_trim (codes : Option (List Code)) (s : String) : label codes (some (Text.trim s)) = label codes (some s) := by
  ext v
  rw [label_eq_some, label_eq_some]
  simp only [Option.some_inj, exists_eq_left', Text.trim_trim]

theorem label_codes (h : codes.map (·.map Code.code) = codes'.map (·.map Code.code)) (text : Option String) :
    label codes text = label codes' text := by
  ext v
  rw [label_eq_some, label_eq_some]
  refine exists_congr fun s => and_congr_right fun _ => and_congr_right fun _ => and_congr_right fun _ => ?_
  cases codes with
  | none =>
      cases codes' with
      | none => rfl
      | some book => cases h
  | some book =>
      cases codes' with
      | none => cases h
      | some book' =>
          have hcodes : book.map Code.code = book'.map Code.code := Option.some_inj.mp h
          simp only [Option.some_inj, forall_eq']
          rw [← List.mem_map, ← List.mem_map, hcodes]

end Labels

section Grouping

variable {pairs pairs' : List Pair}

/-- The groups of a list with their sizes, in some order. -/
def Grouping (group : List (Option String × Option String) → List Pair) : Prop :=
  ∀ labels, (group labels).Perm (labels.dedup.map fun p => (p.1, p.2, labels.countP (· = p)))

theorem confusion_trans (a b c : Confusion) (hab : a.le b = true) (hbc : b.le c = true) : a.le c = true := by
  simp only [Confusion.le, Bool.or_eq_true, Bool.and_eq_true, decide_eq_true_eq] at *
  rcases hab with hab | ⟨hab, hab'⟩ <;> rcases hbc with hbc | ⟨hbc, hbc'⟩
  · exact .inl (hab.trans hbc)
  · exact .inl (hbc ▸ hab)
  · exact .inl (hab ▸ hbc)
  · exact .inr ⟨hab.trans hbc, hab'.trans hbc'⟩

theorem confusion_total (a b : Confusion) : (a.le b || b.le a) = true := by
  simp only [Confusion.le, Bool.or_eq_true, Bool.and_eq_true, decide_eq_true_eq]
  rcases lt_trichotomy a.annotation b.annotation with hlt | heq | hgt
  · exact .inl (.inl hlt)
  · exact (le_total a.comparison b.comparison).imp (fun h => .inr ⟨heq, h⟩) fun h => .inr ⟨heq.symm, h⟩
  · exact .inr (.inl hgt)

theorem confusion_antisymm {a b : Confusion} (hab : a.le b = true) (hba : b.le a = true) :
    (a.annotation, a.comparison) = (b.annotation, b.comparison) := by
  simp only [Confusion.le, Bool.or_eq_true, Bool.and_eq_true, decide_eq_true_eq] at hab hba
  rcases hab with hab | ⟨hab, hab'⟩ <;> rcases hba with hba | ⟨hba, hba'⟩
  · exact absurd hab hba.asymm
  · exact absurd hba hab.ne'
  · exact absurd hab hba.ne'
  · rw [hab, le_antisymm hab' hba']

theorem confusions_distinct (h : (pairs.map fun p => (p.1, p.2.1)).Nodup) :
    ((confusions pairs).map fun c => (c.annotation, c.comparison)).Nodup := by
  rw [List.Nodup, List.pairwise_map, confusions, List.pairwise_map]
  refine (List.pairwise_map.mp h).filterMap _ ?_
  rintro ⟨_ | a, _ | b, m⟩ ⟨_ | c, _ | d, n⟩ hne g hg g' hg' <;> cases hg <;> cases hg'
  rintro heq
  obtain ⟨rfl, rfl⟩ := Prod.mk.inj heq
  exact hne rfl

/-- A matrix with one entry for each pair of labels is sorted in one way. -/
theorem comparison_perm (name : String) (h : pairs.Perm pairs') (hnodup : (pairs.map fun p => (p.1, p.2.1)).Nodup) :
    comparison name pairs = comparison name pairs' := by
  have hpaired : (paired pairs).Perm (paired pairs') := h.filterMap _
  have hlabels : labels pairs = labels pairs' := by
    ext v
    simp only [mem_labels, hpaired.mem_iff]
  have htable : table pairs = table pairs' := by
    funext a b
    exact ((hpaired.filter _).map _).sum_eq
  have hunpaired : ((unpaired pairs).map fun p => p.2.2).sum = ((unpaired pairs').map fun p => p.2.2).sum :=
    ((h.filter _).map _).sum_eq
  have hdistinct := confusions_distinct hnodup
  have hconfusions : (confusions pairs).Perm (confusions pairs') := hpaired.map _
  have hmatrix : (confusions pairs).mergeSort Confusion.le = (confusions pairs').mergeSort Confusion.le := by
    refine List.Perm.eq_of_pairwise ?_ (List.pairwise_mergeSort confusion_trans confusion_total _)
      (List.pairwise_mergeSort confusion_trans confusion_total _)
      (((List.mergeSort_perm _ _).trans hconfusions).trans (List.mergeSort_perm _ _).symm)
    intro a b ha hb hab hba
    have hkey := confusion_antisymm hab hba
    exact List.inj_on_of_nodup_map hdistinct (List.mem_mergeSort.mp ha)
      (hconfusions.symm.mem_iff.mp (List.mem_mergeSort.mp hb)) hkey
  rw [comparison_eq, comparison_eq, tabulated, tabulated]
  simp only [hlabels, htable, hunpaired, hmatrix]

variable {group group' : List (Option String × Option String) → List Pair} {names : List (Option String × Option String)}

/-- The order of the groups does not matter. -/
theorem Grouping.comparison_eq (h : Grouping group) (h' : Grouping group') (name : String)
    (names : List (Option String × Option String)) : comparison name (group names) = comparison name (group' names) := by
  refine comparison_perm name ((h names).trans (h' names).symm) ?_
  have hkeys := (h names).map fun p : Pair => (p.1, p.2.1)
  rw [hkeys.nodup_iff, List.map_map]
  exact (List.map_id' names.dedup).symm ▸ names.nodup_dedup

theorem sum_paired (pairs : List Pair) : ((paired pairs).map fun g => g.2.2).sum + ((unpaired pairs).map fun p => p.2.2).sum =
    (pairs.map fun p => p.2.2).sum := by
  induction pairs with
  | nil => rfl
  | cons p pairs ih =>
      rw [List.map_cons, List.sum_cons, ← ih]
      obtain ⟨_ | a, _ | b, n⟩ := p <;> simp [paired, unpaired] <;> omega

/-- Every row is counted once. -/
theorem Grouping.counts (h : Grouping group) {name : String} {r : Comparison} (hr : comparison name (group names) = some r) :
    r.included + r.excluded = names.length := by
  rw [Wordflow.Review.comparison_eq] at hr
  cases hr
  change Agreement.total (labels (group names)) (table (group names)) + ((unpaired (group names)).map fun p => p.2.2).sum = _
  rw [total_table, sum_paired, ((h names).map fun p : Pair => p.2.2).sum_eq, List.map_map]
  exact List.sum_map_count_dedup_eq_length names

end Grouping

end Wordflow.Review
