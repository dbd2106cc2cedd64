import Wordflow.Scripts.Resume

namespace Wordflow.Scripts

open Library Library.Text

theorem feed_of_not_punctuation {i : ℕ} {w t : List Char} (h : ∀ c ∈ t, punctuation c = false) :
    feed i w t = ([], w ++ t) := by
  induction t generalizing i w with
  | nil => simp [feed]
  | cons c t ih =>
      rw [feed, if_neg (by simp [h c List.mem_cons_self]), ih fun d hd => h d (List.mem_cons_of_mem c hd)]
      simp

theorem shut_stop {i : ℕ} {w : List Char} : ∀ t ∈ shut i w, t.stop = i := by
  intro t ht
  rw [shut] at ht
  split at ht
  · cases ht
  · obtain rfl := List.mem_singleton.mp ht
    rfl

theorem feed_stop {i : ℕ} {w s : List Char} : ∀ t ∈ (feed i w s).1, t.stop ≤ i + s.length := by
  induction s generalizing i w with
  | nil => simp [feed]
  | cons c s ih =>
      intro t ht
      rw [feed] at ht
      split at ht
      · rcases List.mem_append.mp ht with ht | ht
        · rcases List.mem_append.mp ht with ht | ht
          · rw [shut_stop t ht]
            omega
          · obtain rfl := List.mem_singleton.mp ht
            simp only [List.length_cons]
            omega
        · have := ih t ht
          rw [List.length_cons]
          omega
      · have := ih t ht
        rw [List.length_cons]
        omega

theorem feed_append {i : ℕ} {w s t : List Char} :
    feed i w (s ++ t) =
      ((feed i w s).1 ++ (feed (i + s.length) (feed i w s).2 t).1, (feed (i + s.length) (feed i w s).2 t).2) := by
  induction s generalizing i w with
  | nil => simp [feed]
  | cons c s ih =>
      have hlen : i + 1 + s.length = i + (c :: s).length := by
        rw [List.length_cons]
        omega
      rw [List.cons_append, feed, feed]
      split
      · simp only [ih, hlen, List.append_assoc]
      · rw [ih, hlen]

/-- After punctuation no word is open, and its token is the last. -/
theorem feed_punctuation {i : ℕ} {w s : List Char} {c : Char} (hc : punctuation c = true) :
    (feed i w (s ++ [c])).2 = [] ∧ ∃ ts n, (feed i w (s ++ [c])).1 = ts ++ [⟨n, [c], false, n + 1⟩] := by
  rw [feed_append, feed, if_pos hc]
  exact ⟨rfl, (feed i w s).1 ++ shut (i + s.length) (feed i w s).2, i + s.length, by simp [feed]⟩

/-- Any other last character ends the open word. -/
theorem feed_word {i : ℕ} {w s : List Char} {c : Char} (hc : punctuation c = false) :
    ∃ u, (feed i w (s ++ [c])).2 = u ++ [c] := by
  rw [feed_append, feed, if_neg (by simp [hc])]
  exact ⟨_, rfl⟩

/-- The conditions under which the lexer reads a lexeme as the grammar does.
`glued` says that it is inside a word where the lexeme begins. -/
structure Clear (glued : Bool) (ℓ : Lexeme) (after : List Lexeme) : Prop where
  /-- An escape string glued to a word ends at the same quote when its backslashes
  are read as other characters are. -/
  escape : glued = true → ℓ.text.head?.any isE = true → ℓ.text.tail.head? = some '\'' →
    quoteBody '\'' false (ℓ.text.drop 2) = quoteBody '\'' true (ℓ.text.drop 2)
  /-- A dollar quote is not glued to a word and has an ASCII tag. -/
  dollar : ℓ.text.head? = some '$' → ∀ tag ∈ quoteTag ℓ.text.tail, glued = false ∧ ∀ c ∈ tag, c.toNat < 128
  /-- A parameter does not look like the tag of a dollar quote. -/
  parameter : glued = false → ℓ.kind = .parameter → dollar_tag (ℓ.text ++ text after) = none
  /-- A carriage return ends a line comment only before a line feed. -/
  line : ℓ.kind = .lineComment → after.head? = some ⟨.space, ['\r']⟩ →
    after.tail = [] ∨ after.tail.head? = some ⟨.space, ['\n']⟩

def Clears : Bool → List Lexeme → Prop
  | _, [] => True
  | glued, ℓ :: after => Clear glued ℓ after ∧ Clears ℓ.leaves after

/-- The tokens a lexeme ends and the word it leaves open. -/
inductive Weld : ℕ → List Char → Lexeme → List Token → List Char → Prop
  | blank (i w ℓ) (hb : ℓ.kind.blank = true) (hp : ℓ.plain = false) : Weld i w ℓ (shut i w) []
  | quoted (i w ℓ value) (h : ℓ.kind = .string ∨ ℓ.kind = .quotedName ∨ ℓ.kind = .dollarString) :
      Weld i w ℓ (shut i w ++ [⟨i, value, true, i + ℓ.text.length⟩]) []
  | escape (i w e body value) (he : isE e = true) :
      Weld i w ⟨.escapeString, [e, '\''] ++ body⟩
        (shut (i + 1) (w ++ [e]) ++ [⟨i + 1, value, true, i + ([e, '\''] ++ body).length⟩]) []
  | plain (i w ℓ) (h : ℓ.plain = true) : Weld i w ℓ (feed i w ℓ.text).1 (feed i w ℓ.text).2

/-- The tokens of a sequence of lexemes. -/
inductive Welds : ℕ → List Char → List Lexeme → List Token → Prop
  | nil (i w) : Welds i w [] (shut i w)
  | cons (i w ℓ ls ts w' us) (h : Weld i w ℓ ts w') (hs : Welds (i + ℓ.text.length) w' ls us) :
      Welds i w (ℓ :: ls) (ts ++ us)

/-- Between two lexemes: every token ended by `i`, and no quote that follows is
taken for an escape string. -/
structure Ready (out : List Token) (i : ℕ) (w rest : List Char) : Prop where
  stop : ∀ t ∈ out, t.stop ≤ i
  quote : rest.head? = some '\'' → escapes (out ++ shut i w) i '\'' = false

theorem tagRest_ascii {c : Char} (h : tagRest c = true) (ha : c.toNat < 128) : (c.isAlphanum || c == '_') = true := by
  simp only [tagRest, nameStart, Bool.or_eq_true, Bool.and_eq_true, decide_eq_true_eq] at h
  simp only [Char.isAlphanum, Bool.or_eq_true]
  rcases h with ((h | h) | h) | h
  · exact .inl (.inl h)
  · exact .inr h
  · omega
  · exact .inl (.inr h)

/-- The lexer reads the ASCII tags of the grammar. -/
theorem tag_ascii {s tag : List Char} (h : quoteTag s = some tag) (ha : ∀ c ∈ tag, c.toNat < 128) :
    dollar_tag ('$' :: s) = some tag := by
  obtain ⟨name, rest, rfl, rfl, hname, -⟩ := quoteTag_eq h
  have hall : ∀ c ∈ name, tagRest c = true := by
    rw [hname]
    exact all_takeWhile
  have hne : ∀ c ∈ name, (c != '$') = true := by
    intro c hc
    rw [bne_iff_ne]
    rintro rfl
    cases hall _ hc
  have hinner : (name ++ '$' :: rest).takeWhile (· != '$') = name := takeWhile_stops hne rfl
  have hbytes : name.all (fun c => c.isAlphanum || c == '_') = true := by
    rw [List.all_eq_true]
    exact fun c hc => tagRest_ascii (hall c hc) (ha c (by simp [hc]))
  rw [dollar_tag, hinner]
  simp only [hbytes]
  simp

theorem dollar_tag_none {s : List Char} (ht : quoteTag s = none) (hd : digits s = []) : dollar_tag ('$' :: s) = none := by
  rw [dollar_tag]
  refine if_neg ?_
  rintro ⟨hmem, hall⟩
  obtain ⟨u, v, rfl, hu⟩ := List.eq_append_cons_of_mem hmem
  have hne : ∀ c ∈ u, (c != '$') = true := by
    intro c hc
    rw [bne_iff_ne]
    rintro rfl
    exact hu hc
  rw [takeWhile_stops hne rfl, List.all_eq_true] at hall
  have htag : ∀ c ∈ u, tagRest c = true := by
    intro c hc
    have := hall c hc
    simp only [Char.isAlphanum, Bool.or_eq_true] at this
    simp only [tagRest, nameStart, Bool.or_eq_true]
    tauto
  have hhead : u.head?.any Char.isDigit = false := by
    cases u with
    | nil => rfl
    | cons c u =>
        simp only [digits, List.cons_append, List.takeWhile_cons] at hd
        by_contra hc
        rw [List.head?_cons, Option.any_some, Bool.not_eq_false] at hc
        rw [if_pos hc] at hd
        cases hd
  have htw : (u ++ '$' :: v).takeWhile tagRest = u := takeWhile_stops htag (by decide)
  simp only [quoteTag, htw, hhead, List.drop_left] at ht
  simp at ht

/-- A quote is read alone as it is read before anything but its delimiter. -/
theorem quoteBody_iff {escape : Bool} {body rest : List Char} :
    quoteBody '\'' escape (body ++ rest) = some body ↔
      quoteBody '\'' escape body = some body ∧ rest.head? ≠ some '\'' := by
  have hnil : ∀ s, quoteBody '\'' escape s ≠ some [] := fun s h => quoteBody_ne_nil h rfl
  match body with
  | [] => simp [hnil, quoteBody]
  | [c] =>
      cases rest with
      | nil => simp
      | cons d rest =>
          simp only [List.cons_append, List.nil_append, quoteBody, List.head?_cons, ne_eq, Option.some.injEq]
          by_cases hc : (escape && c == '\\') = true
          · have : c ≠ '\'' := by
              rintro rfl
              simp at hc
            simp [hc, this]
          · by_cases hq : c = '\''
            · by_cases hd : d = '\'' <;> simp [hq, hd]
            · simp [hc, hq, hnil]
  | c :: d :: body =>
      simp only [List.cons_append, quoteBody]
      by_cases hc : (escape && c == '\\') = true
      · simp [hc, @quoteBody_iff escape body rest]
      · by_cases hq : c = '\''
        · by_cases hd : d = '\''
          · simp [hq, hd, @quoteBody_iff escape body rest]
          · simp [hq, hd]
        · have ih := @quoteBody_iff escape (d :: body) rest
          rw [List.cons_append] at ih
          simp [hc, hq, ih]

theorem isE_of_toLower {c : Char} (h : c.toLower = 'e') : isE c = true := by
  simp only [isE, Bool.or_eq_true, beq_iff_eq]
  by_cases hupper : c.val ≥ 'A'.val ∧ c.val ≤ 'Z'.val
  · have hv : c.val + ('a'.val - 'A'.val) = 'e'.val := congrArg Char.val ((dif_pos hupper).symm.trans h)
    have hc : c.val = 'e'.val - ('a'.val - 'A'.val) := by rw [← hv, UInt32.add_sub_cancel]
    exact .inl (Char.ext (by rw [hc]; rfl))
  · exact .inr ((dif_neg hupper).symm.trans h)

theorem word_of_is {n m : ℕ} {w : List Char} (h : (⟨n, w, false, m⟩ : Token).is "E" = true) :
    ∃ e, isE e = true ∧ w = [e] := by
  simp only [Token.is, Bool.not_false, Bool.true_and, beq_iff_eq] at h
  obtain ⟨e, rfl, he⟩ := List.map_eq_singleton_iff.mp h
  exact ⟨e, isE_of_toLower he, rfl⟩

theorem escapes_eq_false {out : List Token} {i : ℕ} {c : Char}
    (h : ∀ t ∈ out.getLast?, t.is "E" = true → t.stop ≠ i) : escapes out i c = false := by
  rw [escapes]
  cases hl : out.getLast? with
  | none => simp
  | some t =>
      have := h t (by rw [hl]; rfl)
      cases ht : t.is "E" with
      | false => simp [ht]
      | true => simp [ht, this ht]

theorem escapes_quoted {out : List Token} {i n m : ℕ} {c : Char} {value : List Char} :
    escapes (out ++ [⟨n, value, true, m⟩]) i c = false := by
  refine escapes_eq_false fun t ht h => ?_
  obtain rfl : (⟨n, value, true, m⟩ : Token) = t := by simpa using ht
  cases h

theorem lexemes_space {c : Char} {s : List Char} (h : isWhitespace c = true) :
    lexemes (c :: s) = ⟨.space, [c]⟩ :: lexemes s := by
  have hl : lexeme (c :: s) = ⟨.space, [c]⟩ := by rw [lexeme, if_pos h]
  rw [lexemes_eq (by simp) (by rw [hl]; rfl) (by rw [hl]; simp), hl]

theorem Ready.blank {out : List Token} {i n : ℕ} {w s rest : List Char} (h : Ready out i w s) (hn : 0 < n) :
    Ready (out ++ shut i w) (i + n) [] rest := by
  have hstop : ∀ t ∈ out ++ shut i w, t.stop ≤ i := by
    intro t ht
    rcases List.mem_append.mp ht with ht | ht
    · exact h.stop t ht
    · exact (shut_stop t ht).le
  refine ⟨fun t ht => (hstop t ht).trans (Nat.le_add_right _ _), fun _ => escapes_eq_false fun t ht _ => ?_⟩
  have := hstop t (by simpa [shut] using List.mem_of_getLast? ht)
  omega

theorem Ready.quoted {out : List Token} {i n m : ℕ} {w s rest value : List Char} (h : Ready out i w s)
    (ts : List Token) (hts : ∀ t ∈ ts, t.stop ≤ i + n) :
    Ready (out ++ (ts ++ [⟨m, value, true, i + n⟩])) (i + n) [] rest := by
  refine ⟨fun t ht => ?_, fun _ => ?_⟩
  · rcases List.mem_append.mp ht with ht | ht
    · exact (h.stop t ht).trans (Nat.le_add_right _ _)
    · rcases List.mem_append.mp ht with ht | ht
      · exact hts t ht
      · obtain rfl := List.mem_singleton.mp ht
        rfl
  · rw [show out ++ (ts ++ [⟨m, value, true, i + n⟩]) ++ shut (i + n) [] = (out ++ ts) ++ [⟨m, value, true, i + n⟩] by
      simp [shut]]
    exact escapes_quoted

theorem resume_next {out : List Token} {i : ℕ} {w s : List Char} {c : Char} (h : wordStops (c :: s) = false)
    (hc : c ≠ '$') : resume out i w (c :: s) = resume out (i + 1) (w ++ [c]) s := by
  by_cases hw : w = []
  · subst hw
    exact resume_start h fun hd => absurd hd hc
  · exact resume_char hw h

theorem isE_facts {e : Char} (h : isE e = true) (s : List Char) : wordStops (e :: s) = false ∧ e ≠ '$' := by
  simp only [isE, Bool.or_eq_true, beq_iff_eq] at h
  rcases h with rfl | rfl <;>
    exact ⟨by simp [wordStops_cons, commentStart, isAsciiWhitespace, punctuation, delimiter], by decide⟩

theorem escapes_word {out : List Token} {i : ℕ} {e : Char} (he : isE e = true) :
    escapes (out ++ shut (i + 1) ([] ++ [e])) (i + 1) '\'' = true := by
  simp only [isE, Bool.or_eq_true, beq_iff_eq] at he
  rcases he with rfl | rfl <;> simp [escapes, shut, Token.is, Identifier.asciiLower]

theorem escapes_glued {out : List Token} {i : ℕ} {w : List Char} {e : Char} (hw : w ≠ []) :
    escapes (out ++ shut (i + 1) (w ++ [e])) (i + 1) '\'' = false := by
  refine escapes_eq_false fun t ht hE => ?_
  rw [shut, if_neg (by simp), List.getLast?_append_of_ne_nil _ (by simp)] at ht
  obtain rfl : (⟨_, _, false, _⟩ : Token) = t := by simpa using ht
  obtain ⟨e', -, hwe⟩ := word_of_is hE
  cases w with
  | nil => exact absurd rfl hw
  | cons c w => simp at hwe

/-- The quote of an escape string is read as the grammar reads it. -/
theorem quoteBody_glued {out : List Token} {i : ℕ} {w s : List Char} {e : Char} {body : Option (List Char)}
    (he : isE e = true) (h : quoteBody '\'' true s = body) (hb : w ≠ [] → quoteBody '\'' false s = body) :
    quoteBody '\'' (escapes (out ++ shut (i + 1) (w ++ [e])) (i + 1) '\'') s = body := by
  by_cases hw : w = []
  · subst hw
    rw [escapes_word he, h]
  · rw [escapes_glued hw, hb hw]

/-- What the lexer takes for a word at a dollar sign. -/
theorem reads_dollar {ℓ : Lexeme} {rest : List Char} (hr : Reads ℓ rest) (hp : ℓ.plain = true)
    (hd : ℓ.text.head? = some '$') (h : ℓ.kind = .parameter → dollar_tag (ℓ.text ++ rest) = none) :
    dollar_tag (ℓ.text ++ rest) = none := by
  cases hr with
  | parameter => exact h rfl
  | dollarSign rest ht hds => exact dollar_tag_none ht hds
  | space c rest hc | name c body rest hc | punctuation c rest hc =>
      obtain rfl : c = '$' := by simpa using hd
      cases hc
  | number s rest hs =>
      have := number_numeric _ (List.mem_of_mem_head? hd)
      cases this
  | operator c s rest hc hs =>
      have := (operatorChar_facts (operator_all _ _ (List.mem_of_mem_head? hd))).2.2.2.2
      exact absurd rfl this
  | _ => cases hp

theorem PlainText.ready {t rest : List Char} (h : PlainText t rest) (out : List Token) (i : ℕ) (w : List Char) :
    (rest.head? = some '\'' →
      escapes (out ++ (feed i w t).1 ++ shut (i + t.length) (feed i w t).2) (i + t.length) '\'' = false) ∧
      t.getLast?.any (!punctuation ·) = !(feed i w t).2.isEmpty := by
  obtain ⟨s, c, rfl⟩ := (List.eq_nil_or_concat' t).resolve_left h.ne_nil
  have hlast : (s ++ [c]).getLast? = some c := by simp
  cases hc : punctuation c with
  | true =>
      obtain ⟨hw, ts, n, hts⟩ := feed_punctuation (i := i) (w := w) (s := s) hc
      refine ⟨fun _ => ?_, by simp [hlast, hc, hw]⟩
      rw [hts, hw]
      refine escapes_eq_false fun t ht hE => ?_
      obtain rfl : (⟨n, [c], false, n + 1⟩ : Token) = t := by simpa [shut] using ht
      obtain ⟨e, he, hce⟩ := word_of_is hE
      obtain rfl : c = e := by simpa using hce
      simp only [isE, Bool.or_eq_true, beq_iff_eq] at he
      rcases he with rfl | rfl <;> cases hc
  | false =>
      obtain ⟨u, hu⟩ := feed_word (i := i) (w := w) (s := s) hc
      refine ⟨fun hrest => ?_, by simp [hlast, hc, hu]⟩
      refine escapes_eq_false fun t ht hE => ?_
      rw [shut, if_neg (by simp [hu]), List.getLast?_append_of_ne_nil _ (by simp)] at ht
      obtain rfl : (⟨_, _, false, _⟩ : Token) = t := by simpa using ht
      obtain ⟨e, he, hw⟩ := word_of_is hE
      exfalso
      rcases h.escape with hE | ⟨hp, hne⟩
      · rw [hu] at hw
        obtain ⟨rfl, rfl⟩ : u = [] ∧ c = e := by
          cases u with
          | nil => exact ⟨rfl, by simpa using hw⟩
          | cons d u => simp at hw
        rw [hE c hlast] at he
        cases he
      · rw [feed_of_not_punctuation hp] at hw
        obtain ⟨rfl, hte⟩ : w = [] ∧ s ++ [c] = [e] := by
          cases w with
          | nil => exact ⟨rfl, hw⟩
          | cons d w => simp at hw
        exact hne e he hte hrest

/-- One lexeme of the grammar, read by the lexer. -/
theorem resume_lexeme {ℓ : Lexeme} {rest : List Char} {out : List Token} {i : ℕ} {w : List Char} (hr : Reads ℓ rest)
    (hk : ℓ.kind ≠ .unterminated) (hne : ℓ.text ≠ []) (hc : Clear (!w.isEmpty) ℓ (lexemes rest))
    (hready : Ready out i w (ℓ.text ++ rest)) :
    ∃ ts w', resume out i w (ℓ.text ++ rest) = resume (out ++ ts) (i + ℓ.text.length) w' rest ∧
      Weld i w ℓ ts w' ∧ Ready (out ++ ts) (i + ℓ.text.length) w' rest ∧ ℓ.leaves = !w'.isEmpty := by
  have hpos : 0 < ℓ.text.length := List.length_pos_iff.mpr hne
  have hshut : ∀ n, ∀ t ∈ shut i w, t.stop ≤ i + n := fun n t ht => by rw [shut_stop t ht]; omega
  by_cases hp : ℓ.plain = true
  · have hplain := reads_plain hr hp
    have hread : resume out i w (ℓ.text ++ rest) = _ := resume_feed hplain.wordy
      (fun hw hd => reads_dollar hr hp hd fun hk => by
        have := hc.parameter (by rw [hw]; rfl) hk
        rwa [text_lexemes] at this) hplain.dollar
    obtain ⟨hquote, hleaves⟩ := hplain.ready out i w
    refine ⟨_, _, hread, .plain i w ℓ hp, ⟨fun t ht => ?_, hquote⟩, by rw [Lexeme.leaves, hp, Bool.true_and, hleaves]⟩
    rcases List.mem_append.mp ht with ht | ht
    · exact (hready.stop t ht).trans (Nat.le_add_right _ _)
    · exact feed_stop t ht
  rw [Bool.not_eq_true] at hp
  have hleaves : ℓ.leaves = !([] : List Char).isEmpty := by simp [Lexeme.leaves, hp]
  cases hr with
  | space c rest h =>
      have hw : isAsciiWhitespace c = true := by simpa [Lexeme.plain] using hp
      exact ⟨_, [], resume_blank hw, .blank _ _ _ rfl hp, hready.blank hpos, hleaves⟩
  | lineComment body rest h hrest =>
      have hn : ∀ c ∈ body, c ≠ '\n' := by
        rintro c hc rfl
        cases h _ hc
      refine ⟨_, [], resume_line hn ?_, .blank _ _ _ rfl hp, hready.blank hpos, hleaves⟩
      cases rest with
      | nil => exact .inl rfl
      | cons d rest =>
          have hd : lineEnd d = true := hrest d rfl
          simp only [lineEnd, Bool.or_eq_true, beq_iff_eq] at hd
          rcases hd with rfl | rfl
          · exact .inr (.inl rfl)
          · have hspace : lexemes ('\r' :: rest) = ⟨.space, ['\r']⟩ :: lexemes rest := lexemes_space rfl
            rw [hspace] at hc
            refine .inr (.inr ⟨rfl, (hc.line rfl rfl).imp (fun h => ?_) fun h => ?_⟩)
            · rw [List.tail_cons, ← text_lexemes rest]
              exact congrArg text h
            · obtain ⟨ls, hls⟩ := List.head?_eq_some_iff.mp h
              rw [List.tail_cons] at hls ⊢
              rw [← text_lexemes rest, hls]
              rfl
  | blockComment body rest h =>
      exact ⟨_, [], resume_comment h, .blank _ _ _ rfl hp, hready.blank hpos, hleaves⟩
  | string body rest h =>
      have hread : resume out i w (['\''] ++ body ++ rest) = _ := resume_quoted rfl ((hready.quote rfl).symm ▸ h)
      rw [List.append_assoc out] at hread
      exact ⟨_, [], hread, .quoted _ _ _ _ (.inl rfl), hready.quoted _ (hshut _), hleaves⟩
  | quotedName body rest h =>
      have hread : resume out i w (['"'] ++ body ++ rest) = _ := resume_quoted rfl h
      rw [List.append_assoc out] at hread
      exact ⟨_, [], hread, .quoted _ _ _ _ (.inr (.inl rfl)), hready.quoted _ (hshut _), hleaves⟩
  | escapeString e body rest he h =>
      obtain ⟨hstop, hd⟩ := isE_facts he ('\'' :: (body ++ rest))
      have hquote := @quoteBody_glued out i w _ e _ he h fun hw => by
        obtain ⟨hbody, hrest⟩ := quoteBody_iff.mp h
        have hsame := hc.escape (by simpa using hw) (by simpa using he) rfl
        exact quoteBody_iff.mpr ⟨hsame.trans hbody, hrest⟩
      have hread : resume out (i + 1) (w ++ [e]) (['\''] ++ body ++ rest) = _ := resume_quoted rfl hquote
      have hlen : i + 1 + (['\''] ++ body).length = i + ([e, '\''] ++ body).length := by
        simp only [List.length_append, List.length_cons, List.length_nil]
        omega
      rw [List.append_assoc out, hlen] at hread
      refine ⟨_, [], (resume_next hstop hd).trans hread, .escape i w e body _ he, hready.quoted _ ?_, hleaves⟩
      intro t ht
      rw [shut_stop t ht]
      simp only [List.length_append, List.length_cons]
      omega
  | dollarString tag body rest ht h =>
      obtain ⟨u, hu⟩ : ∃ u, tag = '$' :: u := by
        obtain ⟨name, r, rfl, -⟩ := quoteTag_eq ht
        exact ⟨_, rfl⟩
      have hd := hc.dollar (by rw [hu]; rfl) tag (by
        have := quoteTag_again (t := body) ht
        rwa [hu] at this ⊢)
      obtain rfl : w = [] := by simpa using hd.1
      have htag : dollar_tag (tag ++ body ++ rest) = some tag := by
        rw [← tag_ascii ht hd.2, hu]
        simp
      have hread : resume out i [] (tag ++ body ++ rest) = _ := resume_dollar htag (by simp [hu]) (by simp [hu]) h
      exact ⟨_, [], hread, .quoted _ _ _ _ (.inr (.inr rfl)), hready.quoted [] (by simp), hleaves⟩
  | _ => first | exact absurd rfl hk | cases hp

theorem resume_unterminated {ℓ : Lexeme} {rest : List Char} {out : List Token} {i : ℕ} {w : List Char}
    {after : List Lexeme} (hr : Reads ℓ rest) (hk : ℓ.kind = .unterminated) (hc : Clear (!w.isEmpty) ℓ after)
    (hready : Ready out i w (ℓ.text ++ rest)) : ∃ e, resume out i w (ℓ.text ++ rest) = .error e := by
  cases hr with
  | openComment s h =>
      rw [List.append_nil]
      exact ⟨_, resume_openComment h⟩
  | openString s h =>
      rw [List.append_nil]
      exact ⟨_, resume_openQuote rfl ((hready.quote rfl).symm ▸ h)⟩
  | openName s h =>
      rw [List.append_nil]
      exact ⟨_, resume_openQuote rfl h⟩
  | openEscape e s he h =>
      obtain ⟨hstop, hd⟩ := isE_facts he ('\'' :: s)
      have hquote := @quoteBody_glued out i w _ e _ he h fun hw =>
        (hc.escape (by simpa using hw) (by simpa using he) rfl).trans h
      rw [List.append_nil]
      exact ⟨_, (resume_next hstop hd).trans (resume_openQuote rfl hquote)⟩
  | openDollar tag s ht h =>
      obtain ⟨u, hu⟩ : ∃ u, tag = '$' :: u := by
        obtain ⟨name, r, rfl, -⟩ := quoteTag_eq ht
        exact ⟨_, rfl⟩
      have hd := hc.dollar (by rw [hu]; rfl) tag (by rwa [hu] at ht ⊢)
      obtain rfl : w = [] := by simpa using hd.1
      have htag : dollar_tag (tag ++ s) = some tag := by
        rw [← tag_ascii ht hd.2, hu]
        simp
      rw [List.append_nil]
      exact ⟨_, resume_openDollar htag (by simp [hu]) (by simp [hu]) h⟩
  | _ => cases hk

/-- The lexer over a text whose lexemes it reads as the grammar does. -/
theorem resume_lexemes {s : List Char} {out : List Token} {i : ℕ} {w : List Char}
    (hc : Clears (!w.isEmpty) (lexemes s)) (hready : Ready out i w s) :
    (∃ ts, resume out i w s = .ok (out ++ ts, i + s.length) ∧ Welds i w (lexemes s) ts ∧
        ∀ ℓ ∈ lexemes s, ℓ.kind ≠ .unterminated) ∨
      (∃ e, resume out i w s = .error e) ∧ ∃ ℓ ∈ lexemes s, ℓ.kind = .unterminated := by
  induction hn : s.length using Nat.strongRecOn generalizing s out i w with
  | _ n ih =>
      rcases eq_or_ne s [] with rfl | hs
      · exact .inl ⟨_, by rw [resume_end, ← hn]; rfl, .nil i w, by simp [lexemes_nil]⟩
      obtain ⟨rest, hrest, hr, hne, hl⟩ := lexemes_cons hs
      rw [hl] at hc ⊢
      obtain ⟨hhead, htail⟩ := hc
      have hstart : Ready out i w ((lexeme s).text ++ rest) := hrest ▸ hready
      by_cases hk : (lexeme s).kind = .unterminated
      · obtain ⟨e, he⟩ := resume_unterminated hr hk hhead hstart
        rw [← hrest] at he
        exact .inr ⟨⟨e, he⟩, _, List.mem_cons_self, hk⟩
      obtain ⟨ts, w', hread, hweld, hready', hleaves⟩ := resume_lexeme hr hk hne hhead hstart
      rw [← hrest] at hread
      rw [hleaves] at htail
      have hlen : s.length = (lexeme s).text.length + rest.length := by
        rw [← List.length_append, ← hrest]
      have hlt : rest.length < n := by
        have := List.length_pos_iff.mpr hne
        omega
      rcases ih _ hlt htail hready' rfl with ⟨us, hus, hwelds, hk'⟩ | ⟨⟨e, he⟩, ℓ, hℓ, hk'⟩
      · refine .inl ⟨ts ++ us, ?_, .cons i w _ _ ts w' us hweld hwelds, List.forall_mem_cons.mpr ⟨hk, hk'⟩⟩
        rw [hread, hus, List.append_assoc, ← hn, hlen, Nat.add_assoc]
      · exact .inr ⟨⟨e, hread.trans he⟩, ℓ, List.mem_cons_of_mem _ hℓ, hk'⟩

/-- `tokens` fails exactly on an unterminated lexeme, and otherwise its tokens lie
over the lexemes. -/
theorem tokens_lexemes {s : List Char} (hc : Clears false (lexemes s)) :
    (∃ ts, tokens s = .ok ts ∧ Welds 0 [] (lexemes s) ts ∧ ∀ ℓ ∈ lexemes s, ℓ.kind ≠ .unterminated) ∨
      (∃ e, tokens s = .error e) ∧ ∃ ℓ ∈ lexemes s, ℓ.kind = .unterminated := by
  have hready : Ready [] 0 [] s := ⟨by simp, fun _ => rfl⟩
  rcases resume_lexemes (w := []) hc hready with ⟨ts, hread, hwelds, hk⟩ | ⟨⟨e, he⟩, hk⟩
  · rw [resume_nil] at hread
    exact .inl ⟨ts, by rw [tokens, hread]; rfl, hwelds, hk⟩
  · rw [resume_nil] at he
    exact .inr ⟨⟨e, by rw [tokens, he]; rfl⟩, hk⟩

end Wordflow.Scripts
