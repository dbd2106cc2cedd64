import Wordflow.Ddl.Reading

namespace Wordflow.Ddl

open Library Library.Identifier Library.Quoting Library.Text Scripts

/-- What is to be replaced where a lexeme stands. -/
def editAt (database : String) (i : ℕ) (before : List Lexeme) (ℓ : Lexeme) (ls : List Lexeme) : Option Edit :=
  if leading database before ℓ ls then some ⟨i, i + ℓ.text.length + (text (ls.take (partLength ls))).length, []⟩
  else (rebasedString database before ℓ ls).map fun ℓ' => ⟨i, i + ℓ.text.length, ℓ'.text⟩

def referenceEdits (database : String) : ℕ → List Lexeme → List Lexeme → List Edit
  | _, _, [] => []
  | i, before, ℓ :: ls =>
      (editAt database i before ℓ ls).toList ++ referenceEdits database (i + ℓ.text.length) (push before ℓ) ls

section Reference

variable {database : String} {i : ℕ} {before ls gap rest R : List Lexeme} {ℓ : Lexeme} {e : Edit}

theorem mem_referenceEdits : e ∈ referenceEdits database i before R ↔
    ∃ b ℓ ls, R = b ++ ℓ :: ls ∧ editAt database (i + (text b).length) (b.foldl push before) ℓ ls = some e := by
  induction R generalizing i before with
  | nil => simp [referenceEdits]
  | cons ℓ ls ih =>
      rw [referenceEdits, List.mem_append, Option.mem_toList, ih]
      constructor
      · rintro (he | ⟨b, m, rest, rfl, he⟩)
        · exact ⟨[], ℓ, ls, rfl, he⟩
        · refine ⟨ℓ :: b, m, rest, rfl, ?_⟩
          rwa [text_cons, List.length_append, ← Nat.add_assoc]
      · rintro ⟨b, m, rest, hsplit, he⟩
        cases b with
        | nil =>
            cases hsplit
            exact .inl he
        | cons m' b =>
            cases hsplit
            rw [text_cons, List.length_append, ← Nat.add_assoc] at he
            exact .inr ⟨b, m, rest, rfl, he⟩

theorem editAt_leading (hleading : before.head? ≠ some (mark '.')) (h : Qualified database ℓ ls gap rest) :
    editAt database i before ℓ ls = some ⟨i, i + ℓ.text.length + (text gap).length + 1, []⟩ := by
  rw [editAt, if_pos (leading_iff.mpr ⟨hleading, gap, rest, h⟩), h.part.1, text_append, List.length_append]
  rfl

theorem editAt_kept (h : leading database before ℓ ls = false) :
    editAt database i before ℓ ls = (rebasedString database before ℓ ls).map fun ℓ' => ⟨i, i + ℓ.text.length, ℓ'.text⟩ := by
  rw [editAt, if_neg (by simp [h])]

theorem not_leading_of_nameValue (h : nameValue ℓ = none) : leading database before ℓ ls = false := by
  rw [← Bool.not_eq_true, leading_iff]
  rintro ⟨-, gap, rest, hname⟩
  have hany := hname.name
  rw [h] at hany
  cases hany

theorem rebasedString_of_kind (h : ℓ.kind ≠ .string) : rebasedString database before ℓ ls = none := by
  cases hs : rebasedString database before ℓ ls with
  | none => rfl
  | some ℓ' => exact absurd (rebasedString_some hs).1 h

theorem editAt_none (hvalue : nameValue ℓ = none) (hk : ℓ.kind ≠ .string) : editAt database i before ℓ ls = none := by
  rw [editAt_kept (not_leading_of_nameValue hvalue), rebasedString_of_kind hk]
  rfl

/-- No edit begins inside a database part. -/
theorem referenceEdits_part (hgap : ∀ m ∈ gap, m.isToken = false) : referenceEdits database i before (gap ++ mark '.' :: rest) =
    referenceEdits database (i + (text gap).length + 1) (mark '.' :: before) rest := by
  induction gap generalizing i with
  | nil =>
      rw [List.nil_append, referenceEdits, editAt_none rfl (by simp [mark])]
      rfl
  | cons m gap ih =>
      obtain ⟨hm, hgap⟩ := List.forall_mem_cons.mp hgap
      have hvalue : nameValue m = none := by
        rw [nameValue]
        split <;> simp_all [Lexeme.isToken, Kind.blank]
      have hkind : m.kind ≠ .string := by
        intro hkind
        simp [Lexeme.isToken, Kind.blank, hkind] at hm
      rw [List.cons_append, referenceEdits, editAt_none hvalue hkind, push, if_neg (by simp [hm]), ih hgap, text_cons,
        List.length_append, ← Nat.add_assoc]
      rfl

theorem referenceEdits_leading (hleading : before.head? ≠ some (mark '.')) (h : Qualified database ℓ ls gap rest) :
    referenceEdits database i before (ℓ :: ls) = ⟨i, i + ℓ.text.length + (text gap).length + 1, []⟩ ::
      referenceEdits database (i + ℓ.text.length + (text gap).length + 1) (mark '.' :: push before ℓ) rest := by
  have hrest : referenceEdits database (i + ℓ.text.length) (push before ℓ) (gap ++ mark '.' :: rest) = _ := referenceEdits_part h.gap
  rw [referenceEdits, editAt_leading hleading h, h.split, hrest]
  rfl

end Reference

theorem replaceRange_append (before old new after : List Char) :
    replaceRange ⟨before.length, before.length + old.length, new⟩ (before ++ (old ++ after)) = some (before ++ (new ++ after)) := by
  rw [replaceRange, if_pos (by simp)]
  simp only [List.take_left, List.append_assoc]
  rw [← List.append_assoc before old after, ← List.length_append, List.drop_left]

theorem applyEdits_cons {es : List Edit} {before old new after after' : List Char}
    (h : applyEdits es (before ++ old ++ after) = some (before ++ old ++ after')) :
    applyEdits (⟨before.length, before.length + old.length, new⟩ :: es) (before ++ old ++ after) = some (before ++ (new ++ after')) := by
  calc applyEdits (⟨before.length, before.length + old.length, new⟩ :: es) (before ++ old ++ after)
      = (applyEdits es (before ++ old ++ after)).bind (replaceRange ⟨before.length, before.length + old.length, new⟩) := rfl
    _ = replaceRange ⟨before.length, before.length + old.length, new⟩ (before ++ (old ++ after')) := by
      rw [h, Option.bind_some, List.append_assoc]
    _ = some (before ++ (new ++ after')) := replaceRange_append before old new after'

/-- The edits of a text, one after the other from `i` on, and none is empty. -/
inductive InRow : ℕ → List Edit → Prop
  | nil (i) : InRow i []
  | cons (i e es) (hstart : i ≤ e.start) (hstop : e.start < e.stop) (h : InRow e.stop es) : InRow i (e :: es)

theorem InRow.mono {i j : ℕ} {es : List Edit} (h : InRow j es) (hij : i ≤ j) : InRow i es := by
  cases h with
  | nil => exact .nil i
  | cons _ e es hstart hstop h => exact .cons i e es (hij.trans hstart) hstop h

theorem InRow.start_le {i : ℕ} {es : List Edit} (h : InRow i es) : ∀ e ∈ es, i ≤ e.start := by
  induction h with
  | nil i => simp
  | cons i e es hstart hstop h ih => exact List.forall_mem_cons.mpr ⟨hstart, fun f hf => (hstart.trans hstop.le).trans (ih f hf)⟩

theorem InRow.pairwise {i : ℕ} {es : List Edit} (h : InRow i es) : es.Pairwise fun e f => e.start < f.start ∧ e.stop ≤ f.start := by
  induction h with
  | nil i => exact .nil
  | cons i e es hstart hstop h ih =>
      refine List.pairwise_cons.mpr ⟨fun f hf => ?_, ih⟩
      have hle := h.start_le f hf
      exact ⟨hstop.trans_le hle, hle⟩

section Rebased

variable {database : String} {L : List Lexeme}

/-- The edits of the reference make of the text the rebased one. -/
theorem applyEdits_reference (hloose : Loose database L) {a R : List Lexeme} (hL : L = a ++ R) (hne : ∀ m ∈ R, m.text ≠ [])
    (initial : List Char) :
    applyEdits (referenceEdits database initial.length (a.foldl push []) R) (initial ++ text R) =
        some (initial ++ text (rebased database 0 (a.foldl push []) R)) ∧
      InRow initial.length (referenceEdits database initial.length (a.foldl push []) R) := by
  induction hn : R.length using Nat.strongRecOn generalizing a R initial with
  | _ n ih =>
      -- what the induction says of a text that starts later
      have hlater : ∀ b S, b ≠ [] → R = b ++ S → ∀ initial : List Char,
          applyEdits (referenceEdits database initial.length (b.foldl push (a.foldl push [])) S) (initial ++ text S) =
              some (initial ++ text (rebased database 0 (b.foldl push (a.foldl push [])) S)) ∧
            InRow initial.length (referenceEdits database initial.length (b.foldl push (a.foldl push [])) S) := by
        rintro b S hb rfl initial
        rw [← List.foldl_append]
        have hlt : S.length < n := by
          have hpos := List.length_pos_iff.mpr hb
          rw [List.length_append] at hn
          omega
        exact ih S.length hlt (by simp [hL]) (fun m hm => hne m (List.mem_append_right b hm)) initial rfl
      cases R with
      | nil => exact ⟨rfl, .nil _⟩
      | cons ℓ ls =>
          have hpos := List.length_pos_iff.mpr (hne ℓ List.mem_cons_self)
          by_cases hleading : leading database (a.foldl push []) ℓ ls = true
          · have hcomments := (hloose a ℓ ls hL hleading).1
            obtain ⟨hfirst, gap, rest, hname⟩ := leading_iff.mp hleading
            rw [hname.part.1] at hcomments
            have hgap : ∀ x ∈ gap, isComment x = false := fun x hx => hcomments x (List.mem_append_left _ hx)
            have hlength : initial.length + ℓ.text.length + (text gap).length + 1 =
                initial.length + (text (ℓ :: (gap ++ [mark '.']))).length := by
              simp [mark, Nat.add_assoc]
            have htext : initial ++ text (ℓ :: ls) = initial ++ text (ℓ :: (gap ++ [mark '.'])) ++ text rest := by
              simp [hname.split]
            obtain ⟨happly, hrow⟩ := hlater (ℓ :: (gap ++ [mark '.'])) rest (List.cons_ne_nil _ _) (by simp [hname.split])
              (initial ++ text (ℓ :: (gap ++ [mark '.'])))
            rw [foldl_push_part hname.gap, List.length_append] at happly hrow
            rw [referenceEdits_leading hfirst hname, rebased_leading hfirst hname hgap, hlength, htext]
            refine ⟨applyEdits_cons happly, .cons _ _ _ le_rfl ?_ hrow⟩
            rw [text_cons, List.length_append]
            simp only
            omega
          · rw [Bool.not_eq_true] at hleading
            obtain ⟨happly, hrow⟩ := hlater [ℓ] ls (List.cons_ne_nil _ _) rfl (initial ++ ℓ.text)
            rw [List.length_append, List.foldl_cons, List.foldl_nil] at happly hrow
            rw [referenceEdits, editAt_kept hleading, rebased_kept hleading, text_cons, ← List.append_assoc]
            cases hstring : rebasedString database (a.foldl push []) ℓ ls with
            | none =>
                rw [Option.getD_none, text_cons, ← List.append_assoc]
                exact ⟨happly, hrow.mono (Nat.le_add_right _ _)⟩
            | some ℓ' =>
                rw [Option.getD_some, text_cons]
                exact ⟨applyEdits_cons happly, .cons _ _ _ le_rfl (Nat.lt_add_of_pos_right hpos) hrow⟩

end Rebased

end Wordflow.Ddl
