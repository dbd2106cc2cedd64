import Wordflow.Scripts.Keywords

namespace Wordflow.Scripts

open Library Library.Text

section Follow

variable {s r r' : List Char} {ℓ m : Lexeme}

theorem lexeme_reads (hs : s ≠ []) (h : lexeme s = ℓ) : ∃ rest, s = ℓ.text ++ rest ∧ Reads ℓ rest := by
  obtain ⟨rest, hrest, hreads, -⟩ := reads hs
  exact ⟨rest, h ▸ hrest, h ▸ hreads⟩

theorem text_of_number (h : lexeme s = ℓ) (hk : ℓ.kind = .number) : number s = ℓ.text := by
  rcases eq_or_ne s [] with rfl | hs
  · subst h
    cases hk
  obtain ⟨rest, rfl, hreads⟩ := lexeme_reads hs h
  cases hreads with
  | number s rest hstart hsplit => rw [← hsplit]
  | _ => cases hk

theorem text_of_operator (h : lexeme s = ℓ) (hk : ℓ.kind = .operator) :
    operator s = ℓ.text ∨ ℓ.text = ['$'] ∧ operator s = [] := by
  rcases eq_or_ne s [] with rfl | hs
  · subst h
    cases hk
  obtain ⟨rest, rfl, hreads⟩ := lexeme_reads hs h
  cases hreads with
  | operator c s rest hc hcomment hsplit => exact .inl (by rw [← hsplit])
  | dollarSign rest htag hdigits => exact .inr ⟨rfl, rfl⟩
  | _ => cases hk

/-- A dollar sign that starts no dollar quote stands alone or before digits. -/
theorem tail_of_dollar (h : lexeme s = ℓ) (hs : s.head? = some '$') (htag : quoteTag s.tail = none) :
    (∀ c ∈ ℓ.text.tail, c.isDigit = true) ∧ (ℓ.text.tail = [] → digits s.tail = []) := by
  obtain ⟨s, rfl⟩ := List.head?_eq_some_iff.mp hs
  have hread : lexeme ('$' :: s) = if digits s ≠ [] then ⟨.parameter, '$' :: digits s⟩ else ⟨.operator, ['$']⟩ := by
    rw [List.tail_cons] at htag
    simp [lexeme, htag, isWhitespace, nameStart, isE, numberStart_cons]
  rw [← h, hread, List.tail_cons]
  split
  · exact ⟨fun c hc => all_takeWhile c hc, fun hnil => hnil⟩
  · rename_i hnone
    exact ⟨fun c hc => (by cases hc), fun _ => not_not.mp hnone⟩

/-- Where a comment starts, the lexeme has both of its characters. -/
theorem text_of_commentStart (h : lexeme s = ℓ) (hstart : commentStart s = true) : ∃ c d t, ℓ.text = c :: d :: t := by
  obtain ⟨c, s, rfl⟩ : ∃ c t, s = c :: t := by
    cases s with
    | nil => cases hstart
    | cons c t => exact ⟨c, t, rfl⟩
  rcases commentStart_cons.mp hstart with ⟨rfl, hhead⟩ | ⟨rfl, hhead⟩
  · obtain ⟨s, rfl⟩ := List.head?_eq_some_iff.mp hhead
    have hread : lexeme ('-' :: '-' :: s) = ⟨.lineComment, '-' :: '-' :: s.takeWhile (!lineEnd ·)⟩ := by
      simp [lexeme, isWhitespace, lineEnd]
    exact ⟨'-', '-', _, by rw [← h, hread]⟩
  · obtain ⟨s, rfl⟩ := List.head?_eq_some_iff.mp hhead
    have hread : lexeme ('/' :: '*' :: s) = enclosed .blockComment ['/', '*'] s (commentBody 1 s) := by
      simp [lexeme, isWhitespace]
    rw [← h, hread]
    cases commentBody 1 s with
    | none => exact ⟨'/', '*', s, rfl⟩
    | some b => exact ⟨'/', '*', b, rfl⟩

theorem nameStart_of_isE {e : Char} (h : isE e = true) : nameStart e = true := by
  simp only [isE, Bool.or_eq_true, beq_iff_eq] at h
  rcases h with rfl | rfl <;> rfl

theorem nameStart_facts {c : Char} (h : nameStart c = true) :
    isWhitespace c = false ∧ c ≠ '-' ∧ c ≠ '/' ∧ c ≠ '\'' ∧ c ≠ '"' := by
  have hrest := nameRest_facts (c := c) (by simp [nameRest, tagRest, h])
  have hdelimiter : c ≠ '\'' ∧ c ≠ '"' := by simpa [delimiter] using hrest.2.1
  refine ⟨?_, hrest.2.2.2.1, hrest.2.2.2.2, hdelimiter.1, hdelimiter.2⟩
  simp only [nameStart, Bool.or_eq_true, Bool.and_eq_true, beq_iff_eq] at h
  rcases h with (h | rfl) | h
  · exact (isAlpha_facts h).1
  · rfl
  · simpa using h.2

/-- A lexeme that starts as a name is one, or an escape string. -/
theorem text_of_nameStart {c : Char} (h : lexeme (c :: s) = ℓ) (hc : nameStart c = true) :
    ℓ.text = c :: s.takeWhile nameRest ∨ ∃ t, ℓ.text = c :: '\'' :: t := by
  obtain ⟨hspace, hminus, hslash, hquote, hdouble⟩ := nameStart_facts hc
  by_cases hstring : isE c = true ∧ s.head? = some '\''
  · have hread : lexeme (c :: s) = enclosed .escapeString [c, '\''] s.tail (quoteBody '\'' true s.tail) := by
      simp [lexeme, hspace, hminus, hslash, hquote, hdouble, hstring]
    rw [← h, hread]
    cases quoteBody '\'' true s.tail with
    | none => exact .inr ⟨s.tail, rfl⟩
    | some b => exact .inr ⟨b, rfl⟩
  · have hread : lexeme (c :: s) = ⟨.name, c :: s.takeWhile nameRest⟩ := by
      rw [lexeme, if_neg (by simp [hspace]), if_neg (by simp [hminus]), if_neg (by simp [hslash]), if_neg hquote, if_neg hdouble,
        if_neg hstring, if_pos hc]
    exact .inl (by rw [← h, hread])

/-- The digits of an exponent. -/
def power (s : List Char) : List Char := digits (s.drop (sign s).length)

/-- What a lexeme can see of the text after the next lexeme. -/
structure Alike (r r' : List Char) : Prop where
  digit : digits r' ≠ [] → digits r ≠ []
  power : power r' ≠ [] → power r ≠ []
  dot : r.head? = some '.' → r'.head? = some '.'

theorem digits_ne_nil : digits s ≠ [] ↔ ∃ c ∈ s.head?, c.isDigit = true := by
  cases s with
  | nil => simp [digits]
  | cons c s =>
      rw [digits, List.takeWhile_cons]
      split
      · simp_all
      · simp_all

theorem digits_ne_nil_of_head {s' : List Char} (hhead : s.head? = s'.head?) (h : digits s ≠ []) : digits s' ≠ [] := by
  rw [digits_ne_nil] at h ⊢
  rwa [← hhead]

theorem power_cons (c : Char) (s : List Char) : power (c :: s) = if c == '+' || c == '-' then digits s else digits (c :: s) := by
  rw [power, sign]
  split <;> rfl

theorem Alike.refl (r : List Char) : Alike r r := ⟨id, id, id⟩

theorem Alike.append {t : List Char} (h : Alike r r') (ht : t ≠ []) : Alike (t ++ r) (t ++ r') := by
  obtain ⟨c, t, rfl⟩ := List.exists_cons_of_ne_nil ht
  have hhead : ∀ {u : List Char}, u ≠ [] → digits (u ++ r') ≠ [] → digits (u ++ r) ≠ [] := by
    intro u hu hdigits
    obtain ⟨d, u, rfl⟩ := List.exists_cons_of_ne_nil hu
    exact digits_ne_nil_of_head (by rfl) hdigits
  refine ⟨hhead ht, fun hpower => ?_, id⟩
  rw [List.cons_append, power_cons] at hpower ⊢
  split
  · rw [if_pos ‹_›] at hpower
    rcases eq_or_ne t [] with rfl | htail
    · exact h.digit hpower
    · exact hhead htail hpower
  · rw [if_neg ‹_›] at hpower
    exact hhead ht hpower

variable (hm : lexeme (m.text ++ r) = m) (hm' : lexeme (m.text ++ r') = m) (hne : m.text ≠ []) (halike : Alike r r')

include hm hne in
theorem operator_follow (h : operator (m.text ++ r) = []) : operator (m.text ++ r') = [] := by
  by_cases hstart : commentStart (m.text ++ r) = true
  · obtain ⟨c, d, t, htext⟩ := text_of_commentStart hm hstart
    rw [htext, List.cons_append, commentStart_cons] at hstart
    have hsame : commentStart (c :: (d :: t ++ r')) = true := commentStart_cons.mpr hstart
    rw [htext, List.cons_append, operator, hsame, if_neg (by simp)]
  · obtain ⟨c, t, htext⟩ := List.exists_cons_of_ne_nil hne
    rw [htext, List.cons_append] at h hstart ⊢
    rw [operator] at h ⊢
    rw [Bool.not_eq_true] at hstart
    rw [hstart] at h
    split at h
    · cases h
    · rename_i hchar
      refine if_neg fun hboth => hchar ?_
      simp only [Bool.and_eq_true] at hboth ⊢
      exact ⟨hboth.1, rfl⟩

include hne halike in
theorem fraction_follow (h : fraction (m.text ++ r) = []) : fraction (m.text ++ r') = [] := by
  obtain ⟨c, t, htext⟩ := List.exists_cons_of_ne_nil hne
  rw [htext, List.cons_append] at h ⊢
  by_cases hc : c = '.'
  · subst hc
    rw [fraction] at h ⊢
    split at h
    · rename_i hdot
      refine if_pos ?_
      cases t with
      | nil => exact halike.dot hdot
      | cons d t => exact hdot
    · cases h
  · simp [fraction, hc]

include hm hne halike in
theorem exponent_follow (h : exponent (m.text ++ r) = []) : exponent (m.text ++ r') = [] := by
  obtain ⟨e, t, htext⟩ := List.exists_cons_of_ne_nil hne
  rw [htext, List.cons_append] at h hm ⊢
  rw [exponent] at h ⊢
  refine if_neg fun hboth => ?_
  obtain ⟨he, hpower'⟩ := hboth
  have hpower : power (t ++ r) = [] := by
    by_contra hpower
    rw [if_pos ⟨he, hpower⟩] at h
    cases h
  change power (t ++ r') ≠ [] at hpower'
  cases t with
  | nil => exact absurd hpower (halike.power hpower')
  | cons c t =>
      have hc : nameRest c = true ∨ c = '\'' := by
        rcases text_of_nameStart hm (nameStart_of_isE he) with htail | ⟨u, hu⟩
        · have hc : c ∈ (c :: t ++ r).takeWhile nameRest := (List.cons.inj (htext.symm.trans htail)).2 ▸ List.mem_cons_self
          exact .inl (all_takeWhile c hc)
        · exact .inr (List.cons.inj (List.cons.inj (htext.symm.trans hu)).2).1
      have hplain : (c == '+' || c == '-') = false := by
        rw [← Bool.not_eq_true]
        simp only [Bool.or_eq_true, beq_iff_eq]
        rintro (rfl | rfl) <;> rcases hc with hc | hc <;> cases hc
      rw [List.cons_append, power_cons, hplain] at hpower hpower'
      exact digits_ne_nil_of_head (by rfl) hpower' hpower

theorem quoteTag_digit {c : Char} (hc : c.isDigit = true) (s : List Char) : quoteTag (c :: s) = none := by
  have htag : tagRest c = true := by simp [tagRest, hc]
  rw [quoteTag, List.takeWhile_cons_of_pos htag]
  exact if_pos hc

include hm' hne in
theorem quoteTag_follow (h : quoteTag (m.text ++ r) = none) (hdigits : digits (m.text ++ r) = []) :
    quoteTag (m.text ++ r') = none := by
  by_cases hall : ∀ c ∈ m.text, tagRest c = true
  · -- A name takes all of the tag's characters, and what follows it is not one of its own.
    obtain ⟨c, t, htext⟩ := List.exists_cons_of_ne_nil hne
    have hc := hall c (htext ▸ List.mem_cons_self)
    have hstart : nameStart c = true := by
      refine (Bool.or_eq_true_iff.mp hc).resolve_right fun hdigit => ?_
      exact digits_ne_nil.mpr ⟨c, by rw [htext]; rfl, hdigit⟩ hdigits
    rw [htext, List.cons_append] at hm'
    have hname : t = (t ++ r').takeWhile nameRest := by
      rcases text_of_nameStart hm' hstart with htail | ⟨u, hu⟩
      · exact (List.cons.inj (htext.symm.trans htail)).2
      · have hquote := hall '\'' (by rw [hu]; simp)
        cases hquote
    have hstop : ∀ d ∈ r'.head?, nameRest d = false := by
      intro d hd
      have hhead := head?_takeWhile_drop (p := nameRest) (s := t ++ r') d
      rw [← hname, List.drop_left] at hhead
      exact hhead hd
    have htag : (m.text ++ r').takeWhile tagRest = m.text := by
      rw [List.takeWhile_append_of_pos hall]
      cases r' with
      | nil => rw [List.takeWhile_nil, List.append_nil]
      | cons d r' =>
          have hd : tagRest d = false := (Bool.or_eq_false_iff.mp (hstop d rfl)).1
          rw [List.takeWhile_cons_of_neg (by simp [hd]), List.append_nil]
    rw [quoteTag]
    simp only [htag, List.drop_left]
    split
    · rfl
    · refine if_neg fun hdollar => ?_
      have hrest := hstop '$' hdollar
      cases hrest
  · obtain ⟨u, d, v, hsplit, hu, hd⟩ : ∃ u d v, m.text = u ++ d :: v ∧ (∀ x ∈ u, tagRest x = true) ∧ tagRest d = false := by
      have hsplit := List.takeWhile_append_dropWhile (p := tagRest) (l := m.text)
      cases hrest : m.text.dropWhile tagRest with
      | nil =>
          rw [hrest, List.append_nil] at hsplit
          exact absurd (fun c hc => all_takeWhile c (hsplit.symm ▸ hc)) hall
      | cons d v =>
          have hd : d ∈ (m.text.dropWhile tagRest).head? := by
            rw [hrest]
            rfl
          exact ⟨_, d, v, by rw [← hrest, hsplit], all_takeWhile, head_dropWhile hd⟩
    have hsame (y : List Char) : quoteTag (m.text ++ y) = quoteTag (u ++ [d]) := by
      rw [hsplit, quoteTag, quoteTag, List.append_assoc, List.cons_append, takeWhile_stops hu hd, takeWhile_stops hu hd]
      simp only [List.drop_left]
      rfl
    rw [hsame] at h ⊢
    exact h

include hm hm' hne halike in
/-- A lexeme stands before the next one also when the text after that changes. -/
theorem lexeme_follow (hℓ : lexeme (ℓ.text ++ (m.text ++ r)) = ℓ) (hℓne : ℓ.text ≠ []) (hk : ℓ.kind ≠ .unterminated) :
    lexeme (ℓ.text ++ (m.text ++ r')) = ℓ := by
  have hhead : (m.text ++ r').head? = (m.text ++ r).head? := by
    obtain ⟨c, t, htext⟩ := List.exists_cons_of_ne_nil hne
    rw [htext]
    rfl
  refine (lexeme_swap hℓne hhead (by rw [hℓ]) (by rwa [hℓ]) (fun hkind => ?_) (fun hkind => ?_) fun hdollar htag => ?_).trans hℓ
  · rw [hℓ] at hkind
    have hnumber := text_of_number hℓ hkind
    rw [hnumber]
    exact number_swap hnumber hhead (fraction_follow hne halike) (exponent_follow hm hne halike)
  · rw [hℓ] at hkind
    rcases text_of_operator hℓ hkind with hoperator | ⟨htext, hnone⟩
    · rw [hoperator]
      exact operator_swap hoperator hhead (operator_follow hm hne)
    · rw [hnone, htext]
      rfl
  · obtain ⟨t, htext⟩ := List.head?_eq_some_iff.mp hdollar
    have htail := tail_of_dollar hℓ (by rw [htext]; rfl) (by rw [htext] at htag ⊢; exact htag)
    rw [htext, List.tail_cons] at htag htail ⊢
    cases t with
    | nil =>
        refine quoteTag_follow hm' hne htag ?_
        exact htail.2 rfl
    | cons d t =>
        exact quoteTag_digit (htail.1 d List.mem_cons_self) _

end Follow

end Wordflow.Scripts
