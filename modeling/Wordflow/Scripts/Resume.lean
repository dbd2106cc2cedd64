import Wordflow.Scripts.Grammar
import Wordflow.Scripts.Split

namespace Wordflow.Scripts

open Library Library.Text

theorem quoteLength_eq {delim : Char} (hd : delim ≠ '\\') (escape : Bool) (s : List Char) :
    quoteLength delim escape s = (quoteBody delim escape s).map List.length := by
  fun_induction quoteBody delim escape s with
  | case1 => rfl
  | case2 => simp [quoteLength, hd]
  | case3 c h => simp [quoteLength, h]
  | case4 c d s h ih => simp [quoteLength, h, ih, Function.comp_def]
  | case5 s h ih => simp [quoteLength, ih, Function.comp_def, hd]
  | case6 d s h hne => simp [quoteLength, h, hne]
  | case7 c d s h hne ih => simp [quoteLength, h, hne, ih, Function.comp_def]

theorem commentLength_eq (depth : ℕ) (s : List Char) :
    commentLength depth s = (commentBody depth s).map List.length := by
  fun_induction commentLength depth s with
  | case1 => simp [commentBody]
  | case2 => rfl
  | case3 depth c ih => simp_all [commentBody_cons, commentLength, commentBody]
  | case4 depth c d s h ih => simp [commentBody_cons, h, ih, Function.comp_def]
  | case5 depth c d s h h' ih => simp [commentBody_cons, h', ih, Function.comp_def]
  | case6 depth c d s h h' ih => simp [commentBody_cons, h, h', ih, Function.comp_def]

theorem find_eq {tag : List Char} (ht : tag ≠ []) (s : List Char) :
    (find tag s).map (· + tag.length) = (through tag s).map List.length := by
  fun_induction through tag s with
  | case1 => simp [find, ht]
  | case2 c s h => simp [find, startsWith, h]
  | case3 c s h ih =>
      have hf : find tag (c :: s) = (find tag s).map (· + 1) := by simp [find, startsWith, h]
      calc (find tag (c :: s)).map (· + tag.length)
          = ((find tag s).map (· + tag.length)).map (· + 1) := by
            rw [hf, Option.map_map, Option.map_map]
            congr 1
            funext n
            simp only [Function.comp_apply]
            omega
        _ = ((through tag s).map ([c] ++ ·)).map List.length := by
            rw [ih, Option.map_map, Option.map_map]
            congr 1

theorem startsWith_two {a b c : Char} {s : List Char} :
    startsWith [a, b] (c :: s) = true ↔ c = a ∧ s.head? = some b := by
  cases s with
  | nil => simp [startsWith]
  | cons d s =>
      simp only [startsWith, List.isPrefixOf_iff_prefix, List.cons_prefix_cons, List.nil_prefix, and_true,
        List.head?_cons, Option.some.injEq]
      constructor <;> exact fun h => ⟨h.1.symm, h.2.symm⟩

theorem wordStops_cons {c : Char} {s : List Char} :
    wordStops (c :: s) = (isAsciiWhitespace c || punctuation c || delimiter c || commentStart (c :: s)) := by
  rw [Bool.eq_iff_iff]
  simp only [wordStops, Bool.or_eq_true, startsWith_two, commentStart_cons, punctuation, delimiter,
    List.contains_iff_mem, List.mem_cons, List.not_mem_nil, or_false, beq_iff_eq]
  tauto

/-- The word read last, ended at `i`. -/
def shut (i : ℕ) (w : List Char) : List Token :=
  if w = [] then [] else [⟨i - w.length, w, false, i⟩]

/-- The rest of a run of the lexer that has read the characters `w` of a word. -/
def resume (out : List Token) (i : ℕ) (w s : List Char) : Except Failure (List Token × ℕ) :=
  if w = [] then Scan.drive scan 0 (out, i) s
  else
    Scan.drive scan 0
      (out ++ [⟨i - w.length, w ++ s.take (wordLength s), false, i + wordLength s⟩], i + wordLength s)
      (s.drop (wordLength s))

section Resume

variable {out : List Token} {i : ℕ} {w s : List Char} {c : Char}

theorem resume_nil : resume out i [] s = Scan.drive scan 0 (out, i) s := rfl

theorem resume_stop (h : wordStops s = true) : resume out i w s = resume (out ++ shut i w) i [] s := by
  have hl : wordLength s = 0 := by
    cases s with
    | nil => rfl
    | cons c s => rw [wordLength, if_pos h]
  by_cases hw : w = []
  · simp [shut, hw]
  · simp [resume, shut, hw, hl]

theorem resume_end : resume out i w [] = .ok (out ++ shut i w, i) := by
  rw [resume_stop rfl]
  rfl

theorem resume_char (hw : w ≠ []) (h : wordStops (c :: s) = false) :
    resume out i w (c :: s) = resume out (i + 1) (w ++ [c]) s := by
  have hl : wordLength (c :: s) = wordLength s + 1 := by
    rw [wordLength, if_neg (by simp [h])]
  have hi : i + (wordLength s + 1) = i + 1 + wordLength s := by omega
  have hstart : i + 1 - (w ++ [c]).length = i - w.length := by simp
  simp only [resume, hw, if_false, hl, List.drop_succ_cons, List.take_succ_cons, hi, hstart, List.append_eq_nil_iff,
    false_and, List.append_assoc, List.cons_append, List.nil_append]

/-- A round of the lexer that takes the text `t`. -/
theorem resume_round {t : List Char} {out' : List Token} {i' n : ℕ} (ht : t ≠ [])
    (hn : n = t.length) (h : scan (out ++ shut i w, i) (t ++ s) = .ok ((out', i'), n))
    (hstop : w = [] ∨ wordStops (t ++ s) = true) : resume out i w (t ++ s) = resume out' i' [] s := by
  have hopen : resume out i w (t ++ s) = resume (out ++ shut i w) i [] (t ++ s) := by
    rcases hstop with rfl | hstop
    · simp [shut]
    · exact resume_stop hstop
  obtain ⟨m, hm⟩ : ∃ m, n = m + 1 := ⟨n - 1, by have := List.length_pos_iff.mpr ht; omega⟩
  rw [hopen, resume_nil, resume_nil, Scan.drive_of_ok (by simp [ht]) (hm ▸ h), ← hm, hn, List.drop_left]

theorem resume_fail {t : List Char} {e : Failure} (ht : t ≠ []) (h : scan (out ++ shut i w, i) t = .error e)
    (hstop : w = [] ∨ wordStops t = true) : resume out i w t = .error e := by
  have hopen : resume out i w t = resume (out ++ shut i w) i [] t := by
    rcases hstop with rfl | hstop
    · simp [shut]
    · exact resume_stop hstop
  rw [hopen, resume_nil, Scan.drive_of_error ht h]

theorem resume_blank (h : isAsciiWhitespace c = true) :
    resume out i w ([c] ++ s) = resume (out ++ shut i w) (i + 1) [] s := by
  refine resume_round (by simp) rfl (n := 1) ?_ (.inr ?_)
  · simp [scan, h, skipped]
  · simp [wordStops_cons, h]

theorem isAsciiWhitespace_iff : isAsciiWhitespace c = true ↔ c ∈ [' ', '\t', '\n', '\x0C', '\r'] := by
  simp [isAsciiWhitespace, or_assoc]

theorem wordStops_line : wordStops (['-', '-'] ++ s) = true := by
  simp [wordStops_cons, commentStart]

theorem scan_line : scan (out, i) (['-', '-'] ++ s) = .ok (skipped out i (lineLength (['-', '-'] ++ s))) := by
  have h : startsWith ['-', '-'] ('-' :: '-' :: s) = true := startsWith_two.mpr ⟨rfl, rfl⟩
  simp [scan, isAsciiWhitespace, h]

theorem lineLength_append (h : ∀ c ∈ s, c ≠ '\n') {rest : List Char} :
    lineLength (['-', '-'] ++ s ++ rest) = (['-', '-'] ++ s).length + lineLength rest := by
  have hs : ∀ c ∈ ['-', '-'] ++ s, (c != '\n') = true := by
    intro c hc
    rcases List.mem_append.mp hc with hc | hc
    · rcases List.mem_cons.mp hc with rfl | hc
      · rfl
      · obtain rfl := List.mem_singleton.mp hc
        rfl
    · simpa using h c hc
  rw [lineLength, List.takeWhile_append_of_pos hs, List.length_append, lineLength]

/-- A line comment; a carriage return that ends it stands before the line feed. -/
theorem resume_line (h : ∀ c ∈ s, c ≠ '\n') {rest : List Char}
    (hrest : rest = [] ∨ rest.head? = some '\n' ∨
      rest.head? = some '\r' ∧ (rest.tail = [] ∨ rest.tail.head? = some '\n')) :
    resume out i w (['-', '-'] ++ s ++ rest) =
      resume (out ++ shut i w) (i + (['-', '-'] ++ s).length) [] rest := by
  have hround : ∀ t u, rest = t ++ u → lineLength rest = t.length →
      resume out i w (['-', '-'] ++ s ++ rest) =
        resume (out ++ shut i w) (i + (['-', '-'] ++ s ++ t).length) [] u := by
    intro t u hu hl
    have hlen : lineLength (['-', '-'] ++ s ++ t ++ u) = (['-', '-'] ++ s ++ t).length := by
      rw [List.append_assoc, ← hu, lineLength_append h, hl, @List.length_append _ _ t]
    rw [hu, ← List.append_assoc]
    refine resume_round (by simp) hlen.symm.symm ?_ (.inr ?_)
    · rw [List.append_assoc, List.append_assoc, scan_line, ← List.append_assoc, ← List.append_assoc, hlen]
      rfl
    · rw [List.append_assoc, List.append_assoc, wordStops_line]
  rcases hrest with rfl | hn | ⟨hr, hn⟩
  · simpa using hround [] [] rfl rfl
  · obtain ⟨u, rfl⟩ := List.head?_eq_some_iff.mp hn
    simpa using hround [] _ rfl rfl
  · obtain ⟨u, rfl⟩ := List.head?_eq_some_iff.mp hr
    have hl : lineLength ('\r' :: u) = ['\r'].length := by
      rcases hn with hn | hn
      · obtain rfl : u = [] := hn
        rfl
      · obtain ⟨u, rfl⟩ : ∃ v, u = '\n' :: v := List.head?_eq_some_iff.mp hn
        rfl
    rw [hround ['\r'] u rfl hl]
    have hblank : resume (out ++ shut i w) (i + (['-', '-'] ++ s).length) [] (['\r'] ++ u) = _ := resume_blank rfl
    simpa [shut, Nat.add_assoc] using hblank.symm

theorem resume_punctuation (h : punctuation c = true) :
    resume out i w (c :: s) = resume (out ++ shut i w ++ [⟨i, [c], false, i + 1⟩]) (i + 1) [] s := by
  refine resume_round (t := [c]) (by simp) rfl (n := 1) ?_ (.inr ?_)
  · simp only [punctuation, Bool.or_eq_true, beq_iff_eq] at h
    rcases h with (((rfl | rfl) | rfl) | rfl) | rfl <;> rfl
  · simp [wordStops_cons, h]

theorem scan_word (h : wordStops (c :: s) = false) (hd : c = '$' → dollar_tag (c :: s) = none) :
    scan (out, i) (c :: s) =
      .ok (pushed out i (wordLength s + 1) (c :: s.take (wordLength s)) false) := by
  rw [← Bool.not_eq_true, wordStops_cons] at h
  simp only [Bool.or_eq_true, commentStart_cons, ← startsWith_two, not_or] at h
  obtain ⟨⟨⟨hw, hp⟩, hq⟩, hl, hb⟩ := h
  have hp' : ['(', ')', ';', ',', '.'].contains c = false := by
    simpa [punctuation, and_assoc] using hp
  have hq' : ¬(c = '\'' ∨ c = '"') := by simpa [delimiter] using hq
  have htag : (if c = '$' then dollar_tag (c :: s) else none) = none := by
    split
    · exact hd ‹_›
    · rfl
  rw [scan, if_neg hw, if_neg hl, if_neg hb, if_neg hq', htag]
  simp only [hp', Bool.false_eq_true, if_false]

theorem resume_start (h : wordStops (c :: s) = false) (hd : c = '$' → dollar_tag (c :: s) = none) :
    resume out i [] (c :: s) = resume out (i + 1) [c] s := by
  have hi : i + (wordLength s + 1) = i + 1 + wordLength s := by omega
  rw [resume_nil, Scan.drive_of_ok (by simp) (scan_word h hd), resume]
  simp only [hi, List.drop_succ_cons, List.cons_ne_nil, if_false, List.length_singleton, Nat.add_sub_cancel,
    List.cons_append, List.nil_append]

theorem scan_comment : scan (out, i) (['/', '*'] ++ s) =
    match commentLength 1 s with
    | none => .error (lexical_error "Unclosed SQL comment" out)
    | some n => .ok (skipped out i (n + 2)) := by
  have h : ¬startsWith ['-', '-'] ('/' :: '*' :: s) = true := by simp [startsWith_two]
  have h' : startsWith ['/', '*'] ('/' :: '*' :: s) = true := startsWith_two.mpr ⟨rfl, rfl⟩
  rw [List.cons_append, List.cons_append, List.nil_append, scan, if_neg (by decide), if_neg h, if_pos h']
  rfl

theorem wordStops_comment : wordStops (['/', '*'] ++ s) = true := by
  simp [wordStops_cons, commentStart]

theorem resume_comment {body : List Char} (h : commentBody 1 (body ++ s) = some body) :
    resume out i w (['/', '*'] ++ body ++ s) = resume (out ++ shut i w) (i + (['/', '*'] ++ body).length) [] s := by
  refine resume_round (by simp) rfl ?_ (.inr ?_)
  · rw [List.append_assoc, scan_comment, commentLength_eq, h, List.length_append, Nat.add_comm _ body.length]
    rfl
  · rw [List.append_assoc, wordStops_comment]

theorem resume_openComment (h : commentBody 1 s = none) :
    resume out i w (['/', '*'] ++ s) = .error (lexical_error "Unclosed SQL comment" (out ++ shut i w)) := by
  refine resume_fail (by simp) ?_ (.inr wordStops_comment)
  rw [scan_comment, commentLength_eq, h]
  rfl

/-- Whether the quote at `i` is read with backslash escapes. -/
def escapes (out : List Token) (i : ℕ) (c : Char) : Bool :=
  c == '\'' && out.getLast?.any fun t => t.is "E" && t.stop == i

theorem scan_quote (hc : delimiter c = true) : scan (out, i) (c :: s) =
    match quoteLength c (escapes out i c) s with
    | none => .error (lexical_error "Unclosed SQL quote" out)
    | some n => .ok (pushed out i (n + 1) (undouble c (s.take (n - 1))) true) := by
  simp only [delimiter, Bool.or_eq_true, beq_iff_eq] at hc
  have hw : isAsciiWhitespace c = false := by rcases hc with rfl | rfl <;> rfl
  have hl : ¬startsWith ['-', '-'] (c :: s) = true := by
    rw [startsWith_two]
    rcases hc with rfl | rfl <;> simp
  have hb : ¬startsWith ['/', '*'] (c :: s) = true := by
    rw [startsWith_two]
    rcases hc with rfl | rfl <;> simp
  rw [scan, if_neg (by simp [hw]), if_neg hl, if_neg hb, if_pos hc]
  rfl

theorem resume_quoted (hc : delimiter c = true) {body : List Char}
    (h : quoteBody c (escapes (out ++ shut i w) i c) (body ++ s) = some body) :
    resume out i w ([c] ++ body ++ s) =
      resume (out ++ shut i w ++ [⟨i, undouble c ((body ++ s).take (body.length - 1)), true, i + ([c] ++ body).length⟩])
        (i + ([c] ++ body).length) [] s := by
  have hne : c ≠ '\\' := by
    rintro rfl
    cases hc
  refine resume_round (by simp) rfl ?_ (.inr (by simp [wordStops_cons, hc]))
  rw [List.append_assoc, List.cons_append, List.nil_append, scan_quote hc, quoteLength_eq hne, h, List.cons_append,
    List.nil_append, List.length_cons]
  rfl

theorem resume_openQuote (hc : delimiter c = true) (h : quoteBody c (escapes (out ++ shut i w) i c) s = none) :
    resume out i w ([c] ++ s) = .error (lexical_error "Unclosed SQL quote" (out ++ shut i w)) := by
  have hne : c ≠ '\\' := by
    rintro rfl
    cases hc
  refine resume_fail (by simp) ?_ (.inr (by simp [wordStops_cons, hc]))
  rw [List.cons_append, List.nil_append, scan_quote hc, quoteLength_eq hne, h]
  rfl

theorem scan_dollar {tag : List Char} (h : dollar_tag ('$' :: s) = some tag) : scan (out, i) ('$' :: s) =
    match find tag (('$' :: s).drop tag.length) with
    | none => .error (lexical_error "Unclosed dollar quote" out)
    | some n =>
        .ok (pushed out i (tag.length + (n + tag.length)) (('$' :: s).take (tag.length + (n + tag.length))) true) := by
  have hl : ¬startsWith ['-', '-'] ('$' :: s) = true := by simp [startsWith_two]
  have hb : ¬startsWith ['/', '*'] ('$' :: s) = true := by simp [startsWith_two]
  simp only [scan, if_neg hl, if_neg hb, h]
  rfl

theorem resume_dollar {tag body : List Char} (ht : dollar_tag (tag ++ body ++ s) = some tag) (hne : tag ≠ [])
    (hd : tag.head? = some '$') (h : through tag (body ++ s) = some body) :
    resume out i [] (tag ++ body ++ s) =
      resume (out ++ [⟨i, (tag ++ body ++ s).take (tag ++ body).length, true, i + (tag ++ body).length⟩])
        (i + (tag ++ body).length) [] s := by
  obtain ⟨u, rfl⟩ := List.head?_eq_some_iff.mp hd
  have hfind := find_eq hne (body ++ s)
  rw [h] at hfind
  obtain ⟨n, hn, hlen⟩ := Option.map_eq_some_iff.mp hfind
  refine resume_round (by simp) rfl ?_ (.inl rfl)
  rw [List.append_assoc, List.cons_append] at ht ⊢
  rw [scan_dollar ht, ← List.cons_append, List.drop_left, hn]
  simp only [shut, if_true, List.append_nil, hlen, List.length_append]
  rfl

theorem resume_openDollar {tag : List Char} (ht : dollar_tag (tag ++ s) = some tag) (hne : tag ≠ [])
    (hd : tag.head? = some '$') (h : through tag s = none) : 
    resume out i [] (tag ++ s) = .error (lexical_error "Unclosed dollar quote" out) := by
  obtain ⟨u, rfl⟩ := List.head?_eq_some_iff.mp hd
  have hfind := find_eq hne s
  rw [h, Option.map_none, Option.map_eq_none_iff] at hfind
  refine resume_fail (by simp) ?_ (.inl rfl)
  rw [List.cons_append] at ht ⊢
  rw [scan_dollar ht, ← List.cons_append, List.drop_left, hfind]
  simp [shut]

end Resume

/-- The tokens ended by the characters of a plain text and the word left open. -/
def feed : ℕ → List Char → List Char → List Token × List Char
  | _, w, [] => ([], w)
  | i, w, c :: t =>
      if punctuation c then
        (shut i w ++ [⟨i, [c], false, i + 1⟩] ++ (feed (i + 1) [] t).1, (feed (i + 1) [] t).2)
      else feed (i + 1) (w ++ [c]) t

/-- Text that the lexer takes character by character. -/
def Wordy : List Char → List Char → Prop
  | [], _ => True
  | c :: t, rest =>
      isAsciiWhitespace c = false ∧ delimiter c = false ∧ commentStart (c :: (t ++ rest)) = false ∧ Wordy t rest

theorem wordy_append {a b rest : List Char} : Wordy (a ++ b) rest ↔ Wordy a (b ++ rest) ∧ Wordy b rest := by
  induction a with
  | nil => simp [Wordy]
  | cons c a ih => simp only [List.cons_append, Wordy, ih, List.append_assoc, and_assoc]

theorem resume_feed {out : List Token} {i : ℕ} {w t rest : List Char} (ht : Wordy t rest)
    (hd : w = [] → t.head? = some '$' → dollar_tag (t ++ rest) = none)
    (hp : (∀ c ∈ t, punctuation c = false) ∨ '$' ∉ t.tail) :
    resume out i w (t ++ rest) = resume (out ++ (feed i w t).1) (i + t.length) (feed i w t).2 rest := by
  induction t generalizing out i w with
  | nil => simp [feed]
  | cons c t ih =>
      obtain ⟨hw, hq, hc, ht⟩ := ht
      have hlen : i + 1 + t.length = i + (c :: t).length := by
        rw [List.length_cons]
        omega
      rw [List.cons_append, feed]
      split
      · rename_i hpc
        have htail : '$' ∉ t := hp.resolve_left fun h => by simp [h c List.mem_cons_self] at hpc
        have hnext : resume (out ++ shut i w ++ [⟨i, [c], false, i + 1⟩]) (i + 1) [] (t ++ rest) = _ :=
          ih ht (fun _ h => absurd (List.mem_of_mem_head? h) htail) (.inr fun h => htail (List.mem_of_mem_tail h))
        rw [resume_punctuation hpc, hnext, hlen]
        simp only [List.append_assoc]
      · rename_i hpc
        have hstop : wordStops (c :: (t ++ rest)) = false := by
          simp [wordStops_cons, hw, hq, hc, hpc]
        have htail : (∀ d ∈ t, punctuation d = false) ∨ '$' ∉ t.tail :=
          hp.imp (fun h d hd => h d (List.mem_cons_of_mem c hd)) fun h hd => h (List.mem_of_mem_tail hd)
        have hnext : resume out (i + 1) (w ++ [c]) (t ++ rest) = _ := ih ht (fun h => by simp at h) htail
        rw [← hlen, ← hnext]
        by_cases hwe : w = []
        · subst hwe
          exact resume_start hstop fun h => hd rfl (by rw [h]; rfl)
        · exact resume_char hwe hstop

theorem nameRest_facts {c : Char} (h : nameRest c = true) :
    isAsciiWhitespace c = false ∧ delimiter c = false ∧ punctuation c = false ∧ c ≠ '-' ∧ c ≠ '/' := by
  refine ⟨?_, ?_, ?_, ?_, ?_⟩
  · rw [← Bool.not_eq_true, isAsciiWhitespace_iff]
    intro hc
    simp only [List.mem_cons, List.not_mem_nil, or_false] at hc
    rcases hc with rfl | rfl | rfl | rfl | rfl <;> cases h
  · rw [← Bool.not_eq_true]
    simp only [delimiter, Bool.or_eq_true, beq_iff_eq]
    rintro (rfl | rfl) <;> cases h
  · rw [← Bool.not_eq_true]
    simp only [punctuation, Bool.or_eq_true, beq_iff_eq]
    rintro ((((rfl | rfl) | rfl) | rfl) | rfl) <;> cases h
  · rintro rfl
    cases h
  · rintro rfl
    cases h

theorem wordy_of_nameRest {t rest : List Char} (h : ∀ c ∈ t, nameRest c = true) : Wordy t rest := by
  induction t with
  | nil => trivial
  | cons c t ih =>
      obtain ⟨hw, hq, -, hm, hs⟩ := nameRest_facts (h c List.mem_cons_self)
      refine ⟨hw, hq, ?_, ih fun d hd => h d (List.mem_cons_of_mem c hd)⟩
      rw [← Bool.not_eq_true, commentStart_cons]
      rintro (⟨rfl, -⟩ | ⟨rfl, -⟩)
      · exact hm rfl
      · exact hs rfl

theorem nameRest_of_isDigit {c : Char} (h : c.isDigit = true) : nameRest c = true := by
  simp [nameRest, tagRest, h]

theorem wordy_digits {t rest : List Char} (h : ∀ c ∈ t, c.isDigit = true) : Wordy t rest :=
  wordy_of_nameRest fun c hc => nameRest_of_isDigit (h c hc)

theorem not_ascii_of_not_whitespace {c : Char} (h : isWhitespace c = false) : isAsciiWhitespace c = false := by
  rw [← Bool.not_eq_true, isAsciiWhitespace_iff]
  intro hc
  simp only [List.mem_cons, List.not_mem_nil, or_false] at hc
  rcases hc with rfl | rfl | rfl | rfl | rfl <;> cases h

theorem operatorChar_facts {c : Char} (h : operatorChar c = true) :
    isAsciiWhitespace c = false ∧ delimiter c = false ∧ punctuation c = false ∧ isE c = false ∧ c ≠ '$' := by
  have hE : ¬isE c = true := by
    simp only [isE, Bool.or_eq_true, beq_iff_eq]
    rintro (rfl | rfl) <;> cases h
  have hd : c ≠ '$' := by
    rintro rfl
    cases h
  simp only [operatorChar, Bool.and_eq_true, Bool.not_eq_true'] at h
  exact ⟨not_ascii_of_not_whitespace h.1.1.1, h.2, h.1.2, by simpa using hE, hd⟩

theorem operator_all (s : List Char) : ∀ c ∈ operator s, operatorChar c = true := by
  fun_induction operator s with
  | case1 => simp
  | case2 c s hc ih =>
      simp only [Bool.and_eq_true] at hc
      exact List.forall_mem_cons.mpr ⟨hc.1, ih⟩
  | case3 => simp

theorem wordy_operator {s rest : List Char} (h : s = operator s ++ rest) : Wordy (operator s) rest := by
  fun_induction operator s with
  | case1 => trivial
  | case2 c s hc ih =>
      rw [List.cons_append, List.cons.injEq] at h
      simp only [Bool.and_eq_true, Bool.not_eq_true'] at hc
      obtain ⟨hw, hq, -⟩ := operatorChar_facts hc.1
      exact ⟨hw, hq, by rw [← h.2, hc.2], ih h.2⟩
  | case3 => trivial

theorem wordy_fraction {s rest : List Char} : Wordy (fraction s) rest := by
  fun_cases fraction s with
  | case1 => trivial
  | case2 s => exact ⟨rfl, rfl, by simp [commentStart], wordy_digits all_takeWhile⟩
  | case3 => trivial

theorem wordy_exponent {s rest : List Char} : Wordy (exponent s) rest := by
  fun_cases exponent s with
  | case1 e s power h =>
      obtain ⟨he, hp⟩ := h
      have hE : nameRest e = true := by
        simp only [isE, Bool.or_eq_true, beq_iff_eq] at he
        rcases he with rfl | rfl <;> rfl
      have hpower : ∀ c ∈ power, c.isDigit = true := all_takeWhile
      rw [← List.singleton_append, List.append_assoc, wordy_append, wordy_append]
      refine ⟨wordy_of_nameRest (by simpa using hE), ?_, wordy_digits hpower⟩
      fun_cases sign s with
      | case1 c s hc =>
          obtain ⟨d, power', hp'⟩ := List.exists_cons_of_ne_nil hp
          have hd : d ≠ '-' ∧ d ≠ '*' := by
            have := hpower d (by rw [hp']; exact List.mem_cons_self)
            constructor <;> rintro rfl <;> cases this
          simp only [Bool.or_eq_true, beq_iff_eq] at hc
          refine ⟨?_, ?_, ?_, trivial⟩
          · rcases hc with rfl | rfl <;> rfl
          · rcases hc with rfl | rfl <;> rfl
          · rw [← Bool.not_eq_true, commentStart_cons, List.nil_append, hp']
            simp [hd.1, hd.2]
      | case2 | case3 => trivial
  | case2 => trivial
  | case3 => trivial

theorem wordy_number {s rest : List Char} : Wordy (number s) rest := by
  rw [number, mantissa, wordy_append, wordy_append]
  exact ⟨⟨wordy_digits all_takeWhile, wordy_fraction⟩, wordy_exponent⟩

/-- The characters of a number. -/
def numeric (c : Char) : Bool := c.isDigit || c == '.' || isE c || c == '+' || c == '-'

theorem fraction_numeric {s : List Char} : ∀ c ∈ fraction s, c.isDigit = true ∨ c = '.' := by
  fun_cases fraction s with
  | case1 => simp
  | case2 s =>
      intro c hc
      rcases List.mem_cons.mp hc with rfl | hc
      · exact .inr rfl
      · exact .inl (all_takeWhile c hc)
  | case3 => simp

theorem exponent_numeric {s : List Char} : ∀ c ∈ exponent s, numeric c = true := by
  fun_cases exponent s with
  | case1 e s power h =>
      intro c hc
      rw [← List.singleton_append, List.append_assoc] at hc
      rcases List.mem_append.mp hc with hc | hc
      · obtain rfl := List.mem_singleton.mp hc
        simp [numeric, h.1]
      rcases List.mem_append.mp hc with hc | hc
      · fun_cases sign s with
        | case1 d s hd =>
            rw [sign, if_pos hd, List.mem_singleton] at hc
            subst hc
            simp only [Bool.or_eq_true, beq_iff_eq] at hd
            rcases hd with rfl | rfl <;> rfl
        | case2 d s hd => simp_all [sign]
        | case3 => cases hc
      · simp [numeric, all_takeWhile c hc]
  | case2 => simp
  | case3 => simp

theorem mantissa_numeric {s : List Char} : ∀ c ∈ mantissa s, c.isDigit = true ∨ c = '.' := by
  intro c hc
  rcases List.mem_append.mp hc with hc | hc
  · exact .inl (all_takeWhile c hc)
  · exact fraction_numeric c hc

theorem number_numeric {s : List Char} : ∀ c ∈ number s, numeric c = true := by
  intro c hc
  rcases List.mem_append.mp hc with hc | hc
  · rcases mantissa_numeric c hc with h | h <;> simp [numeric, h]
  · exact exponent_numeric c hc

theorem not_isE_of_isDigit {c : Char} (h : c.isDigit = true) : isE c = false := by
  rw [← Bool.not_eq_true]
  simp only [isE, Bool.or_eq_true, beq_iff_eq]
  rintro (rfl | rfl) <;> cases h

theorem number_getLast {s : List Char} : ∀ c ∈ (number s).getLast?, isE c = false := by
  intro c hc
  rw [number] at hc
  generalize s.drop (mantissa s).length = r at hc
  fun_cases exponent r with
  | case1 e r power h =>
      have hlast : (mantissa s ++ exponent (e :: r)).getLast? = power.getLast? := by
        rw [exponent, if_pos h, List.getLast?_append_of_ne_nil _ (by simp), ← List.singleton_append,
          List.append_assoc, ← List.append_assoc, List.getLast?_append_of_ne_nil _ h.2]
      rw [hlast] at hc
      exact not_isE_of_isDigit (all_takeWhile (p := Char.isDigit) c (List.mem_of_getLast? hc))
  | case2 e r power h =>
      rw [exponent, if_neg h, List.append_nil] at hc
      rcases mantissa_numeric c (List.mem_of_getLast? hc) with h | rfl
      · exact not_isE_of_isDigit h
      · rfl
  | case3 =>
      rw [exponent, List.append_nil] at hc
      rcases mantissa_numeric c (List.mem_of_getLast? hc) with h | rfl
      · exact not_isE_of_isDigit h
      · rfl

/-- A lexeme whose characters the lexer reads into its words: all but quotes,
comments and the spaces it knows. -/
def Lexeme.plain (ℓ : Lexeme) : Bool :=
  match ℓ.kind with
  | .space => !ℓ.text.any isAsciiWhitespace
  | .number | .name | .parameter | .operator | .punctuation => true
  | _ => false

/-- Whether the lexer is inside a word after a lexeme. -/
def Lexeme.leaves (ℓ : Lexeme) : Bool := ℓ.plain && ℓ.text.getLast?.any (!punctuation ·)

structure PlainText (t rest : List Char) : Prop where
  ne_nil : t ≠ []
  wordy : Wordy t rest
  dollar : (∀ c ∈ t, punctuation c = false) ∨ '$' ∉ t.tail
  escape : (∀ e ∈ t.getLast?, isE e = false) ∨
    (∀ c ∈ t, punctuation c = false) ∧ ∀ e, isE e = true → t = [e] → rest.head? ≠ some '\''

theorem reads_plain {ℓ : Lexeme} {rest : List Char} (h : Reads ℓ rest) (hp : ℓ.plain = true) : PlainText ℓ.text rest := by
  cases h with
  | space c rest h =>
      have hc : isAsciiWhitespace c = false := by simpa [Lexeme.plain] using hp
      have hne : c ≠ '\'' ∧ c ≠ '"' ∧ c ≠ '-' ∧ c ≠ '/' := by
        refine ⟨?_, ?_, ?_, ?_⟩ <;> rintro rfl <;> cases h
      have hE : isE c = false := by
        rw [← Bool.not_eq_true]
        simp only [isE, Bool.or_eq_true, beq_iff_eq]
        rintro (rfl | rfl) <;> cases h
      refine ⟨by simp, ⟨hc, by simp [delimiter, hne], ?_, trivial⟩, .inr (by simp), .inl (by simpa using hE)⟩
      rw [← Bool.not_eq_true, commentStart_cons]
      simp [hne]
  | name c body rest hc h hrest he =>
      have hall : ∀ d ∈ c :: body, nameRest d = true := by
        refine List.forall_mem_cons.mpr ⟨?_, h⟩
        simp [nameRest, tagRest, hc]
      have hpunct : ∀ d ∈ c :: body, punctuation d = false := fun d hd => (nameRest_facts (hall d hd)).2.2.1
      refine ⟨by simp, wordy_of_nameRest hall, .inl hpunct, .inr ⟨hpunct, ?_⟩⟩
      intro e hE ht
      obtain ⟨rfl, rfl⟩ : c = e ∧ body = [] := by simpa using ht
      exact he hE rfl
  | number s rest h hs =>
      refine ⟨number_ne_nil h, wordy_number, .inr fun hd => ?_, .inl number_getLast⟩
      have := number_numeric _ (List.mem_of_mem_tail hd)
      cases this
  | parameter ds rest hds h ht =>
      have hall : ∀ c ∈ '$' :: ds, nameRest c = true :=
        List.forall_mem_cons.mpr ⟨rfl, fun c hc => nameRest_of_isDigit (h c hc)⟩
      refine ⟨by simp, wordy_of_nameRest hall, .inl fun c hc => (nameRest_facts (hall c hc)).2.2.1, .inl ?_⟩
      intro e hl
      rw [← List.singleton_append, List.getLast?_append_of_ne_nil _ hds] at hl
      exact not_isE_of_isDigit (h e (List.mem_of_getLast? hl))
  | dollarSign rest ht h =>
      exact ⟨by simp, wordy_of_nameRest (by simp; rfl), .inr (by simp), .inl (by simp; rfl)⟩
  | punctuation c rest h =>
      simp only [punctuation, Bool.or_eq_true, beq_iff_eq] at h
      rcases h with (((rfl | rfl) | rfl) | rfl) | rfl <;>
        exact ⟨by simp, ⟨rfl, rfl, by simp [commentStart], trivial⟩, .inr (by simp), .inl (by simp; rfl)⟩
  | operator c s rest hc h hs =>
      have hall := operator_all (c :: s)
      exact ⟨by simp [operator, hc, h], wordy_operator hs, .inl fun d hd => (operatorChar_facts (hall d hd)).2.2.1,
        .inl fun e hl => (operatorChar_facts (hall e (List.mem_of_getLast? hl))).2.2.2.1⟩
  | _ => cases hp

end Wordflow.Scripts
