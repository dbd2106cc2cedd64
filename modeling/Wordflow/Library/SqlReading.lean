import Mathlib.Data.List.TakeWhile
import Wordflow.Library.Identifier
import Wordflow.Library.SqlExpression

namespace Wordflow.Library.SqlExpression

open Quoting

section Fuel

/-- What a search comes to as soon as it may take enough steps. -/
def Enough {α : Type} (f : Nat → Option α) (a : α) : Prop := ∃ k, ∀ n ≥ k, f n = some a

namespace Enough

variable {α β γ : Type} {f : Nat → Option α} {g : Nat → Option β} {p : Nat → Option γ} {a : α} {b : β} {c : γ}

theorem now (h : ∀ n, f (n + 1) = some a) : Enough f a := by
  refine ⟨1, fun n hn => ?_⟩
  obtain ⟨m, rfl⟩ : ∃ m, n = m + 1 := ⟨n - 1, by omega⟩
  exact h m

theorem step (hf : Enough f a) (h : ∀ n, f n = some a → g (n + 1) = some b) : Enough g b := by
  obtain ⟨k, hk⟩ := hf
  refine ⟨k + 1, fun n hn => ?_⟩
  obtain ⟨m, rfl⟩ : ∃ m, n = m + 1 := ⟨n - 1, by omega⟩
  exact h m (hk m (by omega))

theorem both (hf : Enough f a) (hg : Enough g b) (h : ∀ n, f n = some a → g n = some b → p (n + 1) = some c) :
    Enough p c := by
  obtain ⟨k, hk⟩ := hf
  obtain ⟨j, hj⟩ := hg
  refine ⟨max k j + 1, fun n hn => ?_⟩
  obtain ⟨m, rfl⟩ : ∃ m, n = m + 1 := ⟨n - 1, by omega⟩
  exact h m (hk m (by omega)) (hj m (by omega))

end Enough

end Fuel

section Stops

variable {p : Char → Bool} {rest : List Char}

theorem takeWhile_stop (h : ∀ c ∈ rest.head?, p c = false) (s : List Char) : (s ++ rest).takeWhile p = s.takeWhile p := by
  induction s with
  | nil =>
      cases rest with
      | nil => rfl
      | cons c rest => rw [List.nil_append, List.takeWhile_cons_of_neg (by simp [h c rfl]), List.takeWhile_nil]
  | cons d s ih => rw [List.cons_append, List.takeWhile_cons, List.takeWhile_cons, ih]

theorem dropWhile_stop (h : ∀ c ∈ rest.head?, p c = false) (s : List Char) :
    (s ++ rest).dropWhile p = s.dropWhile p ++ rest := by
  induction s with
  | nil =>
      cases rest with
      | nil => rfl
      | cons c rest => rw [List.nil_append, List.dropWhile_cons_of_neg (by simp [h c rfl]), List.dropWhile_nil, List.nil_append]
  | cons d s ih =>
      rw [List.cons_append, List.dropWhile_cons, List.dropWhile_cons, ih]
      split
      · rfl
      · rfl

/-- What comes after a token so that it ends there. -/
def Bounded (rest : List Char) : Prop := ∀ c ∈ rest.head?, c = ')' ∨ c = ',' ∨ c = ' '

namespace Bounded

theorem nil : Bounded [] := fun _ h => nomatch h

theorem close (rest : List Char) : Bounded (')' :: rest) := fun _ h => .inl (Option.some.inj h).symm

theorem comma (rest : List Char) : Bounded (',' :: rest) := fun _ h => .inr (.inl (Option.some.inj h).symm)

theorem blank (rest : List Char) : Bounded (' ' :: rest) := fun _ h => .inr (.inr (Option.some.inj h).symm)

theorem stops (h : Bounded rest) (hp : p ')' = false ∧ p ',' = false ∧ p ' ' = false) : ∀ c ∈ rest.head?, p c = false := by
  intro c hc
  rcases h c hc with rfl | rfl | rfl
  · exact hp.1
  · exact hp.2.1
  · exact hp.2.2

theorem head_ne (h : Bounded rest) {c : Char} (hc : c ≠ ')' ∧ c ≠ ',' ∧ c ≠ ' ') : rest.head? ≠ some c := by
  intro heq
  rcases h c heq with rfl | rfl | rfl
  · exact hc.1 rfl
  · exact hc.2.1 rfl
  · exact hc.2.2 rfl

end Bounded

end Stops

section Numbers

variable {s rest text after : List Char}

theorem readDigits_append (h : ∀ c ∈ rest.head?, c.isDigit = false) (s : List Char) :
    readDigits (s ++ rest) = ((readDigits s).1, (readDigits s).2 ++ rest) := by
  rw [readDigits, takeWhile_stop h, dropWhile_stop h, readDigits]

theorem readSign_append (h : Bounded rest) (s : List Char) : readSign (s ++ rest) = ((readSign s).1, (readSign s).2 ++ rest) := by
  cases s with
  | nil =>
      cases rest with
      | nil => rfl
      | cons c rest =>
          have hplus := h.head_ne (c := '+') (by decide)
          have hminus := h.head_ne (c := '-') (by decide)
          rw [List.nil_append, readSign, if_neg (by rintro (rfl | rfl) <;> contradiction)]
          rfl
  | cons c s =>
      rw [List.cons_append, readSign, readSign]
      split <;> rfl

theorem readFraction_append (h : Bounded rest) (s : List Char) :
    readFraction (s ++ rest) = ((readFraction s).1, (readFraction s).2 ++ rest) := by
  cases s with
  | nil =>
      cases rest with
      | nil => rfl
      | cons c rest =>
          have hpoint := h.head_ne (c := '.') (by decide)
          rw [List.nil_append, readFraction, if_neg (by rintro rfl; contradiction)]
          rfl
  | cons c s =>
      rw [List.cons_append, readFraction, readFraction, readDigits_append (h.stops (by decide))]
      split <;> rfl

theorem readExponent_append (h : Bounded rest) (s : List Char) :
    readExponent (s ++ rest) = ((readExponent s).1, (readExponent s).2 ++ rest) := by
  cases s with
  | nil =>
      cases rest with
      | nil => rfl
      | cons c rest =>
          have hsmall := h.head_ne (c := 'e') (by decide)
          have hcapital := h.head_ne (c := 'E') (by decide)
          have hnot : ¬((c = 'e' ∨ c = 'E') ∧ (readDigits (readSign rest).2).1 ≠ []) := by
            rintro ⟨rfl | rfl, -⟩ <;> contradiction
          rw [List.nil_append, readExponent, if_neg hnot]
          rfl
  | cons c s =>
      simp only [List.cons_append, readExponent, readSign_append h, readDigits_append (h.stops (by decide))]
      split <;> rfl

theorem readNumber_append (h : Bounded rest) (s : List Char) :
    readNumber (s ++ rest) = (readNumber s).map fun r => (r.1, r.2 ++ rest) := by
  simp only [readNumber, readDigits_append (h.stops (by decide)), readFraction_append h, readExponent_append h]
  split <;> rfl

/-- A number starts with a digit or a point. -/
theorem readNumber_head {c : Char} (h : readNumber (c :: s) = some (text, after)) : c.isDigit = true ∨ c = '.' := by
  by_contra hc
  rw [not_or] at hc
  have hdigit : c.isDigit = false := by simpa using hc.1
  have hdigits : readDigits (c :: s) = ([], c :: s) := by
    rw [readDigits, List.takeWhile_cons_of_neg (by simp [hdigit]), List.dropWhile_cons_of_neg (by simp [hdigit])]
  have hfraction : readFraction (c :: s) = ([], c :: s) := by rw [readFraction, if_neg hc.2]
  simp only [readNumber, hdigits, hfraction, List.length_nil, Nat.zero_le, and_self, if_true] at h
  cases h

end Numbers

section Lexing

variable {s rest w text after : List Char} {c : Char} {token : Option Token} {tokens others : List Token}

/-- A text that is one word. -/
def isWordText (w : List Char) : Bool := w.head?.any isWordStart && w.all isWordPart

theorem not_wordStart_of_digit (h : c.isDigit = true) : isWordStart c = false := by
  have hne : c ≠ '_' := by
    rintro rfl
    cases h
  simp only [Char.isDigit, Bool.and_eq_true, decide_eq_true_eq, UInt32.le_iff_toNat_le, ge_iff_le] at h
  have h0 : '0'.val.toNat = 48 := rfl
  have h9 : '9'.val.toNat = 57 := rfl
  have hA : 'A'.val.toNat = 65 := rfl
  have ha : 'a'.val.toNat = 97 := rfl
  rw [← Bool.not_eq_true]
  simp only [isWordStart, Identifier.isAlpha_eq, Identifier.isUpper_eq, Identifier.isLower_eq, Bool.or_eq_true, Bool.and_eq_true, decide_eq_true_eq,
    UInt32.le_iff_toNat_le, ge_iff_le, hne, or_false]
  omega

/-- The tokens of a whole text. -/
def Lexed (s : List Char) (tokens : List Token) : Prop := Enough (fun n => lex n s) tokens

namespace Lexed

theorem nil : Lexed [] [] := ⟨0, fun n _ => by cases n <;> rfl⟩

theorem cons (hread : readToken (c :: s) = some (token, rest)) (h : Lexed rest tokens) :
    Lexed (c :: s) (token.toList ++ tokens) :=
  h.step fun n hn => by
    rw [lex, hread]
    simp only [hn, Option.map_some]

theorem blank (h : Lexed rest tokens) : Lexed (' ' :: rest) tokens := by
  have hread : readToken (' ' :: rest) = some (none, rest) := rfl
  exact cons hread h

theorem symbol (hc : c = '(' ∨ c = ')' ∨ c = ',') (h : Lexed rest tokens) : Lexed (c :: rest) (.symbol c :: tokens) := by
  have hread : readToken (c :: rest) = some (some (.symbol c), rest) := by
    rcases hc with rfl | rfl | rfl <;> rfl
  exact cons hread h

/-- An operator before a blank or an operand that starts neither a comment nor a number. -/
theorem operator (hc : c ∈ ['+', '-', '*', '/']) (hrest : rest.head? ≠ some '-' ∧ rest.head? ≠ some '*')
    (h : Lexed rest tokens) : Lexed (c :: rest) (.symbol c :: tokens) := by
  have hread : readToken (c :: rest) = some (some (.symbol c), rest) := by
    simp only [List.mem_cons, List.not_mem_nil, or_false] at hc
    rcases hc with rfl | rfl | rfl | rfl
    · rfl
    · rw [readToken, if_neg (by decide), if_neg (fun h => hrest.1 h.2)]
      rfl
    · rfl
    · rw [readToken, if_neg (by decide), if_neg (fun h => absurd h.1 (by decide)), if_neg (fun h => hrest.2 h.2)]
      rfl
  exact cons hread h

theorem identifier (hs : s ≠ []) (hrest : rest.head? ≠ some '"') (h : Lexed rest tokens) :
    Lexed (enclose '"' s ++ rest) (.identifier s :: tokens) := by
  have hread : readToken ('"' :: (doubled '"' s ++ '"' :: rest)) = some (some (.identifier s), rest) := by
    rw [readToken, if_neg (by decide), if_neg (fun h => absurd h.1 (by decide)), if_neg (fun h => absurd h.1 (by decide)),
      if_pos rfl, readBody_doubled hrest]
    simp [hs]
  have htext : enclose '"' s ++ rest = '"' :: (doubled '"' s ++ '"' :: rest) := by simp [enclose]
  rw [htext]
  exact cons hread h

theorem string (s : List Char) (hrest : rest.head? ≠ some '\'') (h : Lexed rest tokens) :
    Lexed (enclose '\'' s ++ rest) (.string s :: tokens) := by
  have hread : readToken ('\'' :: (doubled '\'' s ++ '\'' :: rest)) = some (some (.string s), rest) := by
    rw [readToken, if_neg (by decide), if_neg (fun h => absurd h.1 (by decide)), if_neg (fun h => absurd h.1 (by decide)),
      if_neg (by decide), if_pos rfl, readBody_doubled hrest]
    rfl
  have htext : enclose '\'' s ++ rest = '\'' :: (doubled '\'' s ++ '\'' :: rest) := by simp [enclose]
  rw [htext]
  exact cons hread h

theorem word (hw : isWordText w = true) (hrest : ∀ c ∈ rest.head?, isWordPart c = false) (h : Lexed rest tokens) :
    Lexed (w ++ rest) (.word w :: tokens) := by
  cases w with
  | nil => cases hw
  | cons c w =>
      rw [isWordText, Bool.and_eq_true] at hw
      obtain ⟨hhead, hparts⟩ := hw
      have hstart : isWordStart c = true := hhead
      have hne : ∀ d, isWordStart d = false → c ≠ d := by
        rintro d hd rfl
        exact Bool.false_ne_true (hd.symm.trans hstart)
      have hblank : isBlank c = false := by
        simp [isBlank, hne ' ' rfl, hne '\t' rfl, hne '\n' rfl, hne '\r' rfl]
      have htake : (c :: (w ++ rest)).takeWhile isWordPart = c :: w := by
        rw [← List.cons_append, takeWhile_stop hrest]
        exact List.takeWhile_eq_self_iff.mpr (List.all_eq_true.mp hparts)
      have hdrop : (c :: (w ++ rest)).dropWhile isWordPart = rest := by
        rw [← List.cons_append, dropWhile_stop hrest, List.dropWhile_eq_nil_iff.mpr (List.all_eq_true.mp hparts), List.nil_append]
      have hread : readToken (c :: (w ++ rest)) = some (some (.word (c :: w)), rest) := by
        rw [readToken, if_neg (by simp [hblank]), if_neg (fun h => hne '-' rfl h.1), if_neg (fun h => hne '/' rfl h.1),
          if_neg (hne '"' rfl), if_neg (hne '\'' rfl), if_pos hstart, htake, hdrop]
      exact cons hread h

theorem number (hs : readNumber s = some (s, [])) (hrest : Bounded rest) (h : Lexed rest tokens) :
    Lexed (s ++ rest) (.number s :: tokens) := by
  cases s with
  | nil => cases hs
  | cons c s =>
      have hhead := readNumber_head hs
      have hne : ∀ d, d.isDigit = false → d ≠ '.' → c ≠ d := by
        rintro d hd hpoint rfl
        rcases hhead with h | h
        · exact Bool.false_ne_true (hd.symm.trans h)
        · exact hpoint h
      have hblank : isBlank c = false := by
        simp [isBlank, hne ' ' rfl (by decide), hne '\t' rfl (by decide), hne '\n' rfl (by decide), hne '\r' rfl (by decide)]
      have hstart : isWordStart c = false := by
        rcases hhead with h | rfl
        · exact not_wordStart_of_digit h
        · rfl
      have hread : readToken (c :: (s ++ rest)) = some (some (.number (c :: s)), rest) := by
        rw [readToken, if_neg (by simp [hblank]), if_neg (fun h => hne '-' rfl (by decide) h.1),
          if_neg (fun h => hne '/' rfl (by decide) h.1), if_neg (hne '"' rfl (by decide)), if_neg (hne '\'' rfl (by decide)),
          if_neg (by simp [hstart]), ← List.cons_append, readNumber_append hrest, hs]
        rfl
      exact cons hread h

end Lexed

end Lexing

end Wordflow.Library.SqlExpression
