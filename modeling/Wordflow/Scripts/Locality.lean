import Wordflow.Scripts.Grammar

namespace Wordflow.Scripts

open Library Library.Text

section Swap

variable {x x' : List Char}

theorem head?_swap (hhead : x'.head? = x.head?) (w : List Char) : (w ++ x').head? = (w ++ x).head? := by
  cases w with
  | nil => exact hhead
  | cons c w => rfl

theorem takeWhile_swap {p : Char → Bool} {w : List Char} (hlen : ((w ++ x).takeWhile p).length ≤ w.length)
    (hhead : x'.head? = x.head?) : (w ++ x').takeWhile p = (w ++ x).takeWhile p := by
  induction w with
  | nil =>
      have hnil : x.takeWhile p = [] := List.eq_nil_of_length_eq_zero (Nat.eq_zero_of_le_zero hlen)
      rw [List.nil_append, List.nil_append, hnil]
      cases x with
      | nil => rw [List.head?_eq_none_iff.mp hhead, List.takeWhile_nil]
      | cons c x =>
          obtain ⟨x', rfl⟩ := List.head?_eq_some_iff.mp hhead
          rw [List.takeWhile_cons] at hnil ⊢
          split
          · rename_i hc
            rw [if_pos hc] at hnil
            cases hnil
          · rfl
  | cons c w ih =>
      rw [List.cons_append, List.takeWhile_cons] at hlen ⊢
      rw [List.cons_append, List.takeWhile_cons]
      split
      · rename_i hc
        rw [if_pos hc, List.length_cons, List.length_cons, Nat.add_le_add_iff_right] at hlen
        rw [ih hlen]
      · rfl

/-- A quote that ends in front of a text ends there before any text that starts alike. -/
theorem quoteBody_swap {w : List Char} {delim : Char} {escape : Bool} {b : List Char}
    (h : quoteBody delim escape (w ++ x) = some b) (hb : b.length ≤ w.length) (hhead : x'.head? = x.head?) :
    quoteBody delim escape (w ++ x') = some b := by
  match w with
  | [] => exact absurd hb (by simpa using quoteBody_ne_nil h)
  | [c] =>
      cases x with
      | nil => rwa [List.head?_eq_none_iff.mp hhead]
      | cons d x =>
          obtain ⟨x', rfl⟩ := List.head?_eq_some_iff.mp hhead
          simp only [List.cons_append, List.nil_append, quoteBody] at h ⊢
          split
          · rw [if_pos ‹_›] at h
            obtain ⟨b, -, rfl⟩ := Option.map_eq_some_iff.mp h
            simp at hb
          rw [if_neg ‹_›] at h
          split
          · rw [if_pos ‹_›] at h
            split
            · rw [if_pos ‹_›] at h
              obtain ⟨b, -, rfl⟩ := Option.map_eq_some_iff.mp h
              simp at hb
            · rwa [if_neg ‹_›] at h
          · rw [if_neg ‹_›] at h
            obtain ⟨b, hb', rfl⟩ := Option.map_eq_some_iff.mp h
            exact absurd hb (by simpa using quoteBody_ne_nil hb')
  | c :: d :: w =>
      simp only [List.cons_append, quoteBody] at h ⊢
      split
      · rw [if_pos ‹_›] at h
        obtain ⟨b, hb', rfl⟩ := Option.map_eq_some_iff.mp h
        rw [quoteBody_swap hb' (by simpa using hb) hhead, Option.map_some]
      rw [if_neg ‹_›] at h
      split
      · rw [if_pos ‹_›] at h
        split
        · rw [if_pos ‹_›] at h
          obtain ⟨b, hb', rfl⟩ := Option.map_eq_some_iff.mp h
          rw [quoteBody_swap hb' (by simpa using hb) hhead, Option.map_some]
        · rwa [if_neg ‹_›] at h
      · rw [if_neg ‹_›] at h
        obtain ⟨b, hb', rfl⟩ := Option.map_eq_some_iff.mp h
        rw [← List.cons_append, quoteBody_swap (w := d :: w) hb' (by simpa using hb) hhead, Option.map_some]

theorem commentBody_length {depth : ℕ} {s b : List Char} (h : commentBody (depth + 1) s = some b) : 2 ≤ b.length := by
  induction s generalizing b with
  | nil => cases h
  | cons c s ih =>
      rw [commentBody_cons] at h
      split at h
      · obtain ⟨b, -, rfl⟩ := Option.map_eq_some_iff.mp h
        simp
      split at h
      · obtain ⟨b, -, rfl⟩ := Option.map_eq_some_iff.mp h
        simp
      · obtain ⟨b, hb, rfl⟩ := Option.map_eq_some_iff.mp h
        exact (ih hb).trans (by simp)

theorem commentBody_swap {w : List Char} {depth : ℕ} {b : List Char} (h : commentBody depth (w ++ x) = some b)
    (hb : b.length ≤ w.length) : commentBody depth (w ++ x') = some b := by
  match depth, w with
  | 0, w => simpa [commentBody] using h
  | depth + 1, [] => exact absurd ((commentBody_length h).trans hb) (by simp)
  | depth + 1, [c] => exact absurd ((commentBody_length h).trans hb) (by simp)
  | depth + 1, c :: d :: w =>
      have htwo (y : List Char) : ((d :: w) ++ y).head? = some d := rfl
      rw [List.cons_append, commentBody_cons, htwo] at h ⊢
      split
      · rw [if_pos ‹_›] at h
        obtain ⟨b, hb', rfl⟩ := Option.map_eq_some_iff.mp h
        simp only [List.cons_append, List.tail_cons] at hb' ⊢
        rw [commentBody_swap hb' (by simpa using hb), Option.map_some]
      rw [if_neg ‹_›] at h
      split
      · rw [if_pos ‹_›] at h
        obtain ⟨b, hb', rfl⟩ := Option.map_eq_some_iff.mp h
        simp only [List.cons_append, List.tail_cons] at hb' ⊢
        rw [commentBody_swap hb' (by simpa using hb), Option.map_some]
      · rw [if_neg ‹_›] at h
        obtain ⟨b, hb', rfl⟩ := Option.map_eq_some_iff.mp h
        rw [commentBody_swap hb' (by simpa using hb), Option.map_some]

theorem prefix_swap {tag w : List Char} (h : tag.length ≤ w.length) : tag.isPrefixOf (w ++ x') = tag.isPrefixOf (w ++ x) := by
  have hp : ∀ y, tag.isPrefixOf (w ++ y) = tag.isPrefixOf w := by
    intro y
    rw [Bool.eq_iff_iff, List.isPrefixOf_iff_prefix, List.isPrefixOf_iff_prefix]
    exact ⟨fun hy => List.prefix_of_prefix_length_le hy (List.prefix_append _ _) h,
      fun hy => hy.trans (List.prefix_append _ _)⟩
  rw [hp, hp]

theorem through_swap {tag w b : List Char} (h : through tag (w ++ x) = some b) (hb : b.length ≤ w.length) (ht : tag ≠ []) :
    through tag (w ++ x') = some b := by
  induction w generalizing b with
  | nil =>
      have hlong := through_length h
      exact absurd (List.eq_nil_of_length_eq_zero (Nat.eq_zero_of_le_zero (hlong.trans hb))) ht
  | cons c w ih =>
      have hlen := @prefix_swap x x' tag (c :: w) ((through_length h).trans hb)
      rw [List.cons_append, through] at h ⊢
      rw [List.cons_append, List.cons_append] at hlen
      rw [hlen]
      split
      · rwa [if_pos ‹_›] at h
      · rw [if_neg ‹_›] at h
        obtain ⟨b, hb', rfl⟩ := Option.map_eq_some_iff.mp h
        rw [ih hb' (by simpa using hb), Option.map_some]

theorem enclosed_swap {kind : Kind} {opening s s' : List Char} {body body' : Option (List Char)} {n : ℕ}
    (hk : (enclosed kind opening s body).kind ≠ .unterminated) (hlen : (enclosed kind opening s body).text.length ≤ n)
    (h : ∀ b, body = some b → opening.length + b.length ≤ n → body' = some b) :
    enclosed kind opening s' body' = enclosed kind opening s body := by
  cases body with
  | none => exact absurd rfl hk
  | some b =>
      simp only [enclosed, List.length_append] at hlen
      rw [h b rfl hlen]
      rfl

theorem quoteTag_swap {w tag : List Char} (h : quoteTag (w ++ x) = some tag) (hlen : tag.length ≤ w.length + 1) :
    quoteTag (w ++ x') = some tag := by
  obtain ⟨rest, hne, hs, -⟩ := quoteTag_split h
  have hw : w = tag.tail ++ w.drop tag.tail.length := by
    have hinitial : tag.tail <+: w :=
      List.prefix_of_prefix_length_le (hs ▸ List.prefix_append tag.tail rest) (List.prefix_append w x)
        (by rw [List.length_tail]; omega)
    exact (List.prefix_iff_eq_append.mp hinitial).symm
  rw [hw, List.append_assoc] at h ⊢
  exact quoteTag_again h

/-- A lexeme is read the same before texts that start alike, apart from the three kinds
that look further ahead. -/
theorem lexeme_swap {w : List Char} (hw : w ≠ []) (hhead : x'.head? = x.head?)
    (h : (lexeme (w ++ x)).text.length ≤ w.length) (hk : (lexeme (w ++ x)).kind ≠ .unterminated)
    (hnumber : (lexeme (w ++ x)).kind = .number → number (w ++ x') = number (w ++ x))
    (hoperator : (lexeme (w ++ x)).kind = .operator → operator (w ++ x') = operator (w ++ x))
    (hdollar : w.head? = some '$' → quoteTag (w.tail ++ x) = none → quoteTag (w.tail ++ x') = none) :
    lexeme (w ++ x') = lexeme (w ++ x) := by
  obtain ⟨c, w, rfl⟩ := List.exists_cons_of_ne_nil hw
  have hnext : (w ++ x').head? = (w ++ x).head? := head?_swap hhead w
  have hnum : numberStart (c :: (w ++ x')) = numberStart (c :: (w ++ x)) := by rw [numberStart_cons, numberStart_cons, hnext]
  have hquote : ∀ {kind : Kind} {opening : List Char} {delim : Char} {escape : Bool} {w : List Char},
      (enclosed kind opening (w ++ x) (quoteBody delim escape (w ++ x))).kind ≠ .unterminated →
      (enclosed kind opening (w ++ x) (quoteBody delim escape (w ++ x))).text.length ≤ opening.length + w.length →
      enclosed kind opening (w ++ x') (quoteBody delim escape (w ++ x')) =
        enclosed kind opening (w ++ x) (quoteBody delim escape (w ++ x)) := by
    intro kind opening delim escape w hk hlen
    refine enclosed_swap hk hlen fun b hb hle => ?_
    exact quoteBody_swap hb (by omega) hhead
  have htail : ∀ {d : Char}, (w ++ x).head? = some d → w = [] ∨ ∃ t, w = d :: t := by
    intro d hd
    cases w with
    | nil => exact .inl rfl
    | cons e t => exact .inr ⟨t, congrArg (· :: t) (Option.some.inj hd)⟩
  simp only [List.cons_append, List.length_cons] at h hk hnumber hoperator hdollar ⊢
  rw [lexeme] at h hk hnumber hoperator ⊢
  rw [lexeme, hnext, hnum]
  by_cases h1 : isWhitespace c = true
  · simp only [if_pos h1]
  simp only [if_neg h1] at h hk hnumber hoperator ⊢
  by_cases h2 : c = '-' ∧ (w ++ x).head? = some '-'
  · simp only [if_pos h2, List.length_cons] at h ⊢
    rw [takeWhile_swap (Nat.le_of_succ_le_succ h) hhead]
  simp only [if_neg h2] at h hk hnumber hoperator ⊢
  by_cases h3 : c = '/' ∧ (w ++ x).head? = some '*'
  · simp only [if_pos h3] at h hk ⊢
    rcases htail h3.2 with rfl | ⟨t, rfl⟩
    · refine absurd h ?_
      cases hbody : commentBody 1 ([] ++ x).tail with
      | none => simp [enclosed]
      | some b => simp [enclosed]
    · simp only [List.cons_append, List.tail_cons] at h hk ⊢
      refine enclosed_swap hk h fun b hb hle => ?_
      simp only [List.length_cons, List.length_nil] at hle
      exact commentBody_swap hb (by omega)
  simp only [if_neg h3] at h hk hnumber hoperator ⊢
  by_cases h4 : c = '\''
  · simp only [if_pos h4] at h hk ⊢
    exact hquote hk (by simp only [List.length_cons, List.length_nil]; omega)
  simp only [if_neg h4] at h hk hnumber hoperator ⊢
  by_cases h5 : c = '"'
  · simp only [if_pos h5] at h hk ⊢
    exact hquote hk (by simp only [List.length_cons, List.length_nil]; omega)
  simp only [if_neg h5] at h hk hnumber hoperator ⊢
  by_cases h6 : isE c ∧ (w ++ x).head? = some '\''
  · simp only [if_pos h6] at h hk ⊢
    rcases htail h6.2 with rfl | ⟨t, rfl⟩
    · refine absurd h ?_
      cases hbody : quoteBody '\'' true ([] ++ x).tail with
      | none => simp [enclosed]
      | some b => simp [enclosed]
    · simp only [List.cons_append, List.tail_cons] at h hk ⊢
      exact hquote hk (by simp only [List.length_cons, List.length_nil] at h ⊢; omega)
  simp only [if_neg h6] at h hk hnumber hoperator ⊢
  by_cases h7 : nameStart c = true
  · simp only [if_pos h7, List.length_cons] at h ⊢
    rw [takeWhile_swap (Nat.le_of_succ_le_succ h) hhead]
  simp only [if_neg h7] at h hk hnumber hoperator ⊢
  by_cases h8 : numberStart (c :: (w ++ x)) = true
  · simp only [if_pos h8] at hnumber ⊢
    rw [hnumber trivial]
  simp only [if_neg h8] at h hk hoperator ⊢
  by_cases h9 : c = '$'
  · simp only [if_pos h9] at h hk ⊢
    cases htag : quoteTag (w ++ x) with
    | none =>
        rw [htag] at h
        have hnone : quoteTag (w ++ x') = none := hdollar (by rw [h9]; rfl) htag
        rw [hnone]
        have hdigits : digits (w ++ x') = digits (w ++ x) := by
          refine takeWhile_swap ?_ hhead
          by_cases hd : digits (w ++ x) = []
          · exact (congrArg List.length hd).le.trans (Nat.zero_le _)
          · simp only [if_pos hd, ne_eq, List.length_cons] at h
            exact Nat.le_of_succ_le_succ h
        simp only [hdigits]
    | some tag =>
        simp only [htag] at h hk ⊢
        have hlen : tag.length ≤ w.length + 1 := by
          refine (Nat.le_trans ?_ h)
          cases hbody : through tag ((w ++ x).drop (tag.length - 1)) with
          | none => exact absurd (by rw [hbody]; rfl) hk
          | some b => simp [enclosed]
        have hpos : 0 < tag.length := List.length_pos_iff.mpr (quoteTag_split htag).choose_spec.1
        have hle : tag.length - 1 ≤ w.length := by omega
        simp only [@quoteTag_swap x x' w tag htag hlen]
        rw [List.drop_append_of_le_length hle] at h hk ⊢
        rw [List.drop_append_of_le_length hle]
        have hdrop : (w.drop (tag.length - 1)).length = w.length - (tag.length - 1) := List.length_drop
        refine enclosed_swap hk h fun b hb hlen => ?_
        exact through_swap hb (by omega) (List.ne_nil_of_length_pos hpos)
  simp only [if_neg h9] at h hk hoperator ⊢
  by_cases h10 : punctuation c = true
  · simp only [if_pos h10]
  · simp only [if_neg h10] at hoperator ⊢
    rw [hoperator trivial]

theorem operator_swap {w : List Char} (h : operator (w ++ x) = w) (hhead : x'.head? = x.head?)
    (hstop : operator x = [] → operator x' = []) : operator (w ++ x') = w := by
  induction w with
  | nil => exact hstop h
  | cons c w ih =>
      have hc : commentStart (c :: (w ++ x')) = commentStart (c :: (w ++ x)) := by
        rw [Bool.eq_iff_iff, commentStart_cons, commentStart_cons, head?_swap hhead]
      rw [List.cons_append, operator] at h ⊢
      rw [hc]
      split at h
      · rw [if_pos ‹_›, ih (List.cons.inj h).2]
      · cases h

theorem digits_swap {w : List Char} (hlen : (digits (w ++ x)).length ≤ w.length) (hhead : x'.head? = x.head?) :
    digits (w ++ x') = digits (w ++ x) := takeWhile_swap hlen hhead

theorem fraction_swap {w : List Char} (hlen : (fraction (w ++ x)).length ≤ w.length) (hhead : x'.head? = x.head?)
    (hstop : fraction x = [] → fraction x' = []) : fraction (w ++ x') = fraction (w ++ x) := by
  cases w with
  | nil =>
      have hnil : fraction x = [] := List.eq_nil_of_length_eq_zero (Nat.eq_zero_of_le_zero hlen)
      rw [List.nil_append, List.nil_append, hnil, hstop hnil]
  | cons c w =>
      by_cases hc : c = '.'
      · subst hc
        simp only [List.cons_append, fraction, head?_swap hhead] at hlen ⊢
        split
        · rfl
        · rw [if_neg ‹_›, List.length_cons, List.length_cons] at hlen
          rw [digits_swap (Nat.le_of_succ_le_succ hlen) hhead]
      · have hnone : ∀ y : List Char, fraction (c :: w ++ y) = [] := fun y => by simp [fraction, hc]
        rw [hnone, hnone]

theorem exponent_swap {w : List Char} (h : exponent (w ++ x) = w) (hhead : x'.head? = x.head?)
    (hstop : exponent x = [] → exponent x' = []) : exponent (w ++ x') = w := by
  cases w with
  | nil => exact hstop h
  | cons e w =>
      rw [List.cons_append, exponent] at h ⊢
      by_cases hpower : isE e = true ∧ digits ((w ++ x).drop (sign (w ++ x)).length) ≠ []
      · rw [if_pos hpower] at h
        have hw : sign (w ++ x) ++ digits ((w ++ x).drop (sign (w ++ x)).length) = w := (List.cons.inj h).2
        obtain ⟨c, u, rfl⟩ : ∃ c u, w = c :: u := by
          cases w with
          | nil => exact absurd (List.append_eq_nil_iff.mp hw).2 hpower.2
          | cons c u => exact ⟨c, u, rfl⟩
        have hsign : sign (c :: u ++ x') = sign (c :: u ++ x) := rfl
        have hle : (sign (c :: u ++ x)).length ≤ (c :: u).length := by
          have hlength := congrArg List.length hw
          rw [List.length_append] at hlength
          omega
        have hdigits : digits ((c :: u ++ x').drop (sign (c :: u ++ x)).length) =
            digits ((c :: u ++ x).drop (sign (c :: u ++ x)).length) := by
          rw [List.drop_append_of_le_length hle, List.drop_append_of_le_length hle]
          refine digits_swap ?_ hhead
          rw [← List.drop_append_of_le_length hle, List.length_drop]
          have hlength := congrArg List.length hw
          rw [List.length_append] at hlength
          omega
        rw [hsign, hdigits, if_pos hpower, h]
      · rw [if_neg hpower] at h
        cases h

theorem number_swap {w : List Char} (h : number (w ++ x) = w) (hhead : x'.head? = x.head?)
    (hfraction : fraction x = [] → fraction x' = []) (hexponent : exponent x = [] → exponent x' = []) :
    number (w ++ x') = w := by
  have hinitial : mantissa (w ++ x) <+: w := by
    conv_rhs => rw [← h]
    exact List.prefix_append _ _
  obtain ⟨u, hu⟩ := hinitial
  have hlength : (digits (w ++ x)).length + (fraction ((w ++ x).drop (digits (w ++ x)).length)).length + u.length = w.length := by
    rw [← List.length_append, ← List.length_append]
    exact congrArg List.length hu
  have hd : (digits (w ++ x)).length ≤ w.length := by omega
  have hdrop (y : List Char) : (w ++ y).drop (digits (w ++ x)).length = w.drop (digits (w ++ x)).length ++ y :=
    List.drop_append_of_le_length hd
  have hfrac : fraction (w.drop (digits (w ++ x)).length ++ x') = fraction (w.drop (digits (w ++ x)).length ++ x) := by
    refine fraction_swap ?_ hhead hfraction
    rw [hdrop] at hlength
    rw [List.length_drop]
    omega
  have hmantissa : mantissa (w ++ x') = mantissa (w ++ x) := by
    rw [mantissa, mantissa, digits_swap hd hhead, hdrop, hdrop, hfrac]
  have hm : (mantissa (w ++ x)).length ≤ w.length := by
    rw [mantissa, List.length_append]
    omega
  have hrest : w.drop (mantissa (w ++ x)).length = u := by
    have hleft := congrArg (List.drop (mantissa (w ++ x)).length) hu
    rw [List.drop_left] at hleft
    exact hleft.symm
  rw [number, hmantissa, List.drop_append_of_le_length hm, hrest]
  rw [number, List.drop_append_of_le_length hm, hrest] at h
  have hexp : exponent (u ++ x) = u := List.append_cancel_left (h.trans hu.symm)
  rw [exponent_swap hexp hhead hexponent, hu]

end Swap

section Semicolon

variable {v r w : List Char}

theorem takeWhile_stop {p : Char → Bool} (hp : p ';' = false) : (w ++ ';' :: v).takeWhile p = w.takeWhile p := by
  induction w with
  | nil => simp [hp]
  | cons c w ih => simp only [List.cons_append, List.takeWhile_cons, ih]

theorem fraction_stop : fraction (w ++ ';' :: v) = fraction w := by
  match w with
  | [] => rfl
  | [c] =>
      by_cases hc : c = '.'
      · subst hc
        rfl
      · simp [fraction, hc]
  | c :: d :: w =>
      by_cases hc : c = '.'
      · subst hc
        have hd : digits ((d :: w) ++ ';' :: v) = digits (d :: w) := takeWhile_stop rfl
        simp only [List.cons_append] at hd
        simp only [List.cons_append, fraction, List.head?_cons, hd]
        rfl
      · simp [fraction, hc]

theorem sign_stop : sign (w ++ ';' :: v) = sign w := by
  cases w <;> rfl

theorem exponent_stop : exponent (w ++ ';' :: v) = exponent w := by
  cases w with
  | nil => rfl
  | cons c w =>
      have hd : ∀ u : List Char, digits (u ++ ';' :: v) = digits u := fun u => takeWhile_stop rfl
      simp only [List.cons_append, exponent, sign_stop, List.drop_append_of_le_length (sign_initial w).length_le, hd]

theorem number_stop : number (w ++ ';' :: v) = number w := by
  have hd : digits (w ++ ';' :: v) = digits w := takeWhile_stop rfl
  have hm : mantissa (w ++ ';' :: v) = mantissa w := by
    rw [mantissa, hd, List.drop_append_of_le_length (digits_initial w).length_le, fraction_stop]
    rfl
  have hle : (mantissa w).length ≤ w.length :=
    (append_initial (digits_initial w) (fraction_initial _)).length_le
  rw [number, hm, List.drop_append_of_le_length hle, exponent_stop]
  rfl

theorem operator_local : operator (w ++ ';' :: v) = operator (w ++ ';' :: r) := by
  induction w with
  | nil => rfl
  | cons c w ih =>
      have hc : commentStart (c :: (w ++ ';' :: v)) = commentStart (c :: (w ++ ';' :: r)) := by
        rw [Bool.eq_iff_iff, commentStart_cons, commentStart_cons, @head?_swap (';' :: r) (';' :: v) rfl w]
      rw [List.cons_append, List.cons_append, operator, operator, hc, ih]

theorem quoteTag_local : quoteTag (w ++ ';' :: v) = quoteTag (w ++ ';' :: r) := by
  have hle : (w.takeWhile tagRest).length ≤ w.length := (List.takeWhile_prefix _).length_le
  simp only [quoteTag, takeWhile_stop (p := tagRest) rfl, List.drop_append_of_le_length hle]
  rw [@head?_swap (';' :: r) (';' :: v) rfl]

theorem rest_of_unterminated {ℓ : Lexeme} {rest : List Char} (h : Reads ℓ rest) (hk : ℓ.kind = .unterminated) : rest = [] := by
  cases h with
  | openComment | openString | openName | openEscape | openDollar => rfl
  | _ => cases hk

/-- A lexeme that ends before a semicolon is read without what follows it. -/
theorem lexeme_local (hw : w ≠ []) (h : (lexeme (w ++ ';' :: v)).text.length ≤ w.length) :
    lexeme (w ++ ';' :: r) = lexeme (w ++ ';' :: v) := by
  refine lexeme_swap hw rfl h (fun hk => ?_) (fun _ => by rw [number_stop, number_stop]) (fun _ => operator_local) fun _ hnone => ?_
  · obtain ⟨rest, hrest, hreads, -⟩ := @reads (w ++ ';' :: v) (by simp)
    obtain rfl := rest_of_unterminated hreads hk
    have hlength := congrArg List.length hrest
    simp only [List.length_append, List.length_cons, List.length_nil] at hlength
    omega
  · rw [quoteTag_local, hnone]

end Semicolon

/-- What comes up to a semicolon and what comes after it are read apart. -/
theorem lexemes_split {s : List Char} {a b : List Lexeme} (h : lexemes s = a ++ semicolon :: b) :
    lexemes (text a ++ [';']) = a ++ [semicolon] ∧ lexemes (text b) = b := by
  induction a generalizing s with
  | nil =>
      have hs : s ≠ [] := by
        rintro rfl
        cases h
      obtain ⟨rest, -, -, -, hl⟩ := lexemes_cons hs
      rw [hl, List.nil_append, List.cons.injEq] at h
      refine ⟨by decide, ?_⟩
      rw [← h.2, text_lexemes]
  | cons ℓ a ih =>
      have hs : s ≠ [] := by
        rintro rfl
        cases h
      obtain ⟨rest, hrest, -, hne, hl⟩ := lexemes_cons hs
      rw [hl, List.cons_append, List.cons.injEq] at h
      obtain ⟨rfl, h⟩ := h
      obtain ⟨ha, hb⟩ := ih h
      refine ⟨?_, hb⟩
      have htext : rest = text a ++ ';' :: text b := by
        rw [← text_lexemes rest, h]
        simp [semicolon]
      have hw : s = ((lexeme s).text ++ text a) ++ ';' :: text b := by
        conv_lhs => rw [hrest, htext]
        rw [List.append_assoc]
      have hlocal : lexeme (((lexeme s).text ++ text a) ++ [';']) = lexeme s := by
        conv_rhs => rw [hw]
        refine lexeme_local (by simp [hne]) ?_
        rw [← hw, List.length_append]
        omega
      have hcons := lexemes_eq (s := (lexeme s).text ++ text a ++ [';']) (by simp)
        (by rw [hlocal, List.append_assoc]) (by rwa [hlocal])
      rw [text_cons, hcons, hlocal]
      exact congrArg _ ha

end Wordflow.Scripts
