import Mathlib.Algebra.Order.BigOperators.Group.List
import Mathlib.Algebra.Order.Group.Nat
import Wordflow.Ddl.Matching
import Wordflow.Scripts.Statements

namespace Wordflow.Ddl

open Library Library.Fallible Library.Identifier Library.Quoting Library.Text Scripts

/-- The text is rebased: its tokens are the rebased ones, and no two edits overlap. -/
structure Rebases (sql : List Char) (database : String) : Prop where
  result : portable_ddl sql database = .ok (some (text (rebased database 0 [] (lexemes sql))))
  read : tokensOf (text (rebased database 0 [] (lexemes sql))) = (rebased database 0 [] (lexemes sql)).filter Lexeme.isToken
  apart : ∀ edits, portableEdits sql database = .ok edits → edits.Pairwise fun e f => e.stop ≤ f.start

section Rebased

variable {sql : List Char} {database : String} {ts : List Token} (hts : tokens sql = .ok ts) (h : Aligned sql database)

theorem reference_row {sql : List Char} (hloose : Loose database (lexemes sql)) :
    applyEdits (referenceEdits database 0 [] (lexemes sql)) sql = some (text (rebased database 0 [] (lexemes sql))) ∧
      InRow 0 (referenceEdits database 0 [] (lexemes sql)) := by
  have hne := lexed_ne_nil (lexed_lexemes sql)
  have happly := applyEdits_reference hloose (a := []) (R := lexemes sql) rfl hne []
  rwa [text_lexemes] at happly

theorem nodup_of_row {i : ℕ} {es : List Edit} (h : InRow i es) : es.Nodup := by
  refine h.pairwise.imp ?_
  rintro e f hlt rfl
  exact lt_irrefl _ hlt.1

include hts in
theorem qualifierEdits_shorten {e : Edit} (he : e ∈ qualifierEdits sql database ts) : e.start < e.stop ∧ e.replacement = [] := by
  obtain ⟨i, hlined⟩ := tokens_lined hts
  obtain ⟨window, hwindow, hedit⟩ := List.mem_filterMap.mp he
  obtain ⟨-, us, vs, rfl⟩ := mem_windows.mp hwindow
  unfold qualifierEdit at hedit
  split at hedit
  · rename_i p0 p1 p2 p3 p4
    split at hedit
    · cases hedit
      have hp0 := (hlined.spelled p0 (by simp)).nonempty
      have hp1 := (hlined.spelled p1 (by simp)).nonempty
      have hle : p0.stop ≤ p1.start := by
        have hwindow := (List.pairwise_append.mp (List.pairwise_append.mp hlined.sorted).2.1).1
        exact (List.pairwise_cons.mp hwindow).1 p1 List.mem_cons_self
      exact ⟨(hp0.trans_le hle).trans hp1, rfl⟩
    · cases hedit
  · cases hedit

include hts h in
/-- The code's edits are those of the reference where each window leads. -/
theorem edits_eq (hleads : Leads sql database) : portableEdits sql database = .ok (referenceEdits database 0 [] (lexemes sql)) := by
  have hrow := (reference_row h.loose).2
  have hperm : (qualifierEdits sql database ts ++ namedEdits sql database ts).Perm (referenceEdits database 0 [] (lexemes sql)) := by
    refine (List.perm_ext_iff_of_nodup (edits_nodup hts) (nodup_of_row hrow)).mpr fun e => ⟨fun he => ?_, referenceEdits_subset hts h⟩
    rcases List.mem_append.mp he with he | he
    · exact (leads_iff hts h).mp hleads e he
    · exact namedEdits_subset hts h he
  rw [portableEdits_eq hts h]
  congr 1
  have hsorted : ((qualifierEdits sql database ts ++ namedEdits sql database ts).mergeSort fun e f => e.start ≤ f.start).Pairwise
      fun e f => decide (e.start ≤ f.start) = true := by
    refine List.pairwise_mergeSort (fun e f g he hf => ?_) (fun e f => ?_) _
    · simp only [decide_eq_true_eq] at he hf ⊢
      exact he.trans hf
    · simpa using le_total e.start f.start
  refine List.Perm.eq_of_pairwise ?_ hsorted (hrow.pairwise.imp fun hlt => decide_eq_true hlt.1.le)
    ((List.mergeSort_perm _ _).trans hperm)
  intro e f he hf hle hge
  have he := hperm.subset ((List.mergeSort_perm _ _).subset he)
  exact eq_of_start (hrow.pairwise.imp And.left) he hf (le_antisymm (of_decide_eq_true hle) (of_decide_eq_true hge))

include hts h in
/-- A window that does not lead makes the text too short. -/
theorem leads_of_result (hresult : portable_ddl sql database = .ok (some (text (rebased database 0 [] (lexemes sql))))) :
    Leads sql database := by
  obtain ⟨happly, hrow⟩ := reference_row h.loose
  obtain ⟨out, hout⟩ : ∃ out, portable_ddl sql database = .ok (applyEdits out sql) ∧
      out.Perm (qualifierEdits sql database ts ++ namedEdits sql database ts) := by
    refine ⟨_, ?_, List.mergeSort_perm _ fun e f => e.start ≤ f.start⟩
    rw [portable_ddl, portableEdits_eq hts h]
    rfl
  obtain ⟨hok, hperm⟩ := hout
  rw [hresult] at hok
  have hcode := length_applyEdits (Except.ok.inj hok).symm
  have href := length_applyEdits happly
  -- the edits that the reference does not have drop nothing between them
  have hnodup : out.Nodup := hperm.nodup_iff.mpr (edits_nodup hts)
  have hsplit : out.Perm (referenceEdits database 0 [] (lexemes sql) ++ out.filter (· ∉ referenceEdits database 0 [] (lexemes sql))) := by
    refine (List.perm_ext_iff_of_nodup hnodup ?_).mpr fun e => ?_
    · refine List.nodup_append.mpr ⟨nodup_of_row hrow, hnodup.filter _, fun e he f hf hsame => ?_⟩
      have hnot := (List.mem_filter.mp hf).2
      rw [decide_eq_true_eq, ← hsame] at hnot
      exact hnot he
    · rw [List.mem_append, List.mem_filter, decide_eq_true_eq]
      refine ⟨fun he => ?_, fun he => he.elim (fun he => hperm.mem_iff.mpr (referenceEdits_subset hts h he)) And.left⟩
      exact (em _).imp_right fun hnot => ⟨he, hnot⟩
  rw [leads_iff hts h]
  intro e he
  by_contra hnot
  have hmem : e ∈ out.filter (· ∉ referenceEdits database 0 [] (lexemes sql)) :=
    List.mem_filter.mpr ⟨hperm.mem_iff.mpr (List.mem_append_left _ he), decide_eq_true hnot⟩
  have hshort : ∀ f ∈ out.filter (· ∉ referenceEdits database 0 [] (lexemes sql)), f ∈ qualifierEdits sql database ts := by
    intro f hf
    obtain ⟨hf, hnot⟩ := List.mem_filter.mp hf
    refine (List.mem_append.mp (hperm.mem_iff.mp hf)).resolve_right fun hnamed => ?_
    exact of_decide_eq_true hnot (namedEdits_subset hts h hnamed)
  have hwidth := (hsplit.map fun e => e.stop - e.start).sum_eq
  have hadded := (hsplit.map fun e => e.replacement.length).sum_eq
  rw [List.map_append, List.sum_append] at hwidth hadded
  have hnone : ((out.filter (· ∉ referenceEdits database 0 [] (lexemes sql))).map fun e => e.replacement.length).sum = 0 := by
    refine List.sum_eq_zero fun n hn => ?_
    obtain ⟨f, hf, rfl⟩ := List.mem_map.mp hn
    rw [(qualifierEdits_shorten hts (hshort f hf)).2]
    rfl
  have hone := List.single_le_sum (fun n _ => Nat.zero_le n) _ (List.mem_map_of_mem (f := fun e => e.stop - e.start) hmem)
  have hpos := (qualifierEdits_shorten hts he).1
  omega

end Rebased

section Decidable

variable {α ε : Type*}

instance decidableSplits : (items : List α) → (p : List α → α → List α → Prop) → [∀ a x b, Decidable (p a x b)] →
    Decidable (∀ a x b, items = a ++ x :: b → p a x b)
  | [], p, _ => isTrue (by simp)
  | y :: items, p, _ =>
      have := decidableSplits items fun a x b => p (y :: a) x b
      decidable_of_iff (p [] y items ∧ ∀ a x b, items = a ++ x :: b → p (y :: a) x b) (by
        constructor
        · rintro ⟨hfirst, hrest⟩ a x b hsplit
          cases a with
          | nil =>
              cases hsplit
              exact hfirst
          | cons z a =>
              cases hsplit
              exact hrest a x b rfl
        · exact fun h => ⟨h [] y items rfl, fun a x b hsplit => h (y :: a) x b (by rw [hsplit, List.cons_append])⟩)

instance decidableSplit (items : List α) (p : List α → α → List α → Prop) [∀ a x b, Decidable (p a x b)] :
    Decidable (∃ a x b, items = a ++ x :: b ∧ p a x b) :=
  decidable_of_iff (¬∀ a x b, items = a ++ x :: b → ¬p a x b) (by simp)

instance decidableOk (x : Except ε α) (p : α → Prop) [DecidablePred p] : Decidable (∀ a, x = .ok a → p a) :=
  match x with
  | .ok a => decidable_of_iff (p a) (by simp)
  | .error e => isTrue (by simp)

instance decidableExistsOk (x : Except ε α) (p : α → Prop) [DecidablePred p] : Decidable (∃ a, x = .ok a ∧ p a) :=
  match x with
  | .ok a => decidable_of_iff (p a) (by simp)
  | .error e => isFalse (by simp)

instance (n : ℕ) (a : List Lexeme) (ℓ : Lexeme) (ls : List Lexeme) : Decidable (Apart n a ℓ ls) :=
  decidable_of_iff ((ℓ.kind = .name → ∀ m ∈ a.getLast?, m.leaves = false) ∧ ∀ m ∈ reach n ls, m.isToken = true ∨ m.skipped = true)
    ⟨fun h => ⟨h.1, h.2⟩, fun h => ⟨h.before, h.after⟩⟩

instance (sql : List Char) (database : String) (s : Token) : Decidable (Called sql database s) :=
  decidable_of_iff ((∃ ns, tokens s.value = .ok ns ∧ sequenceParts database ns = sequenceNamed database s.value) ∧
      ((sequenceNamed database s.value).isSome = true → ∃ b ℓ ls, lexemes sql = b ++ ℓ :: ls ∧
        (text b).length = s.start ∧ (rebasedString database (b.foldl push []) ℓ ls).isSome = true))
    ⟨fun h => ⟨h.1, h.2⟩, fun h => ⟨h.read, h.stands⟩⟩

instance (database : String) (L : List Lexeme) : Decidable (Loose database L) :=
  inferInstanceAs (Decidable (∀ a ℓ ls, L = a ++ ℓ :: ls → leading database (a.foldl push []) ℓ ls = true →
    (∀ m ∈ ls.take (partLength ls), isComment m = false) ∧ ∀ m ∈ a.getLast?, lexeme (m.text ++ text (ls.drop (partLength ls))) = m))

instance (sql : List Char) (database : String) : Decidable (Leads sql database) :=
  inferInstanceAs (Decidable (∀ ts, tokens sql = .ok ts → ∀ window ∈ windows 5 ts, ∀ e ∈ qualifierEdit sql database window,
    ∃ a ℓ ls, lexemes sql = a ++ ℓ :: ls ∧ (text a).length = e.start ∧ leading database (a.foldl push []) ℓ ls = true))

instance (sql : List Char) (database : String) : Decidable (Aligned sql database) :=
  decidable_of_iff (Clears false (lexemes sql) ∧ Loose database (lexemes sql) ∧
      (∀ a ℓ ls, lexemes sql = a ++ ℓ :: ls → leading database (a.foldl push []) ℓ ls = true → Apart 4 a ℓ ls) ∧
      (∀ a f t, lexemes sql = a ++ f :: t → ∀ b ℓ ls, t = b ++ ℓ :: ls → b.filter Lexeme.isToken = [mark '('] →
        (rebasedString database [mark '(', f] ℓ ls).isSome = true → Apart 3 a f t) ∧
      ∀ ts, tokens sql = .ok ts → ∀ window ∈ windows 4 ts, ∀ s ∈ sequenceCall sql window, Called sql database s)
    ⟨fun ⟨hclear, hloose, hnames, hcalls, hliterals⟩ =>
        ⟨hclear, hloose, hnames, fun a f b ℓ ls hL => hcalls a f _ hL b ℓ ls rfl, hliterals⟩,
      fun h => ⟨h.clear, h.loose, h.names, fun a f _ hL b ℓ ls ht => h.calls a f b ℓ ls (ht ▸ hL) |> (ht ▸ ·), h.literals⟩⟩

end Decidable

/-- A table with a sequence and a check. -/
def sequenced : List Char := "CREATE TABLE db.s.t(i INT DEFAULT nextval('db.s.q'), CHECK(\"db\".s.t.i > 0))".toList

/-- A view over a table of a schema that is named as the database is. -/
def repeated : List Char := "CREATE VIEW v AS SELECT data.data.t.id FROM data.data.t;".toList

end Wordflow.Ddl
