import Mathlib.Data.List.Forall2
import Wordflow.Scripts.Keywords

namespace Wordflow.Scripts

open Library Library.Identifier Library.Text

theorem not_isEmpty_append {α : Type*} (xs ys : List α) : (!(xs ++ ys).isEmpty) = (!xs.isEmpty || !ys.isEmpty) := by
  cases xs <;> simp

section OneStatement

variable {i : ℕ} {w : List Char} {ls : List Lexeme} {ts : List Token}

/-- The tokens over lexemes without a semicolon. -/
theorem welds_statement (h : Welds i w ls ts) (hls : Lexed ls) (hs : semicolon ∉ ls) (hw : ';' ∉ w) :
    (∀ t ∈ ts, t.is ";" = false) ∧ (!w.isEmpty || ls.any Lexeme.visible) = !ts.isEmpty := by
  induction h with
  | nil i w => exact ⟨shut_not_semicolon hw, by rw [not_isEmpty_shut]; simp⟩
  | cons i w ℓ ls ts w' us hweld _ ih =>
      obtain ⟨hr, hne, hls⟩ := hls
      rw [List.mem_cons, not_or] at hs
      obtain ⟨hts, hw', hvis⟩ := weld_statement hweld hr hne (Ne.symm hs.1) hw
      obtain ⟨hus, hvis'⟩ := ih hls hs.2 hw'
      refine ⟨fun t ht => (List.mem_append.mp ht).elim (hts t) (hus t), ?_⟩
      rw [List.any_cons, ← Bool.or_assoc, hvis, Bool.or_assoc, hvis', not_isEmpty_append]

/-- The tokens over lexemes that end with their only semicolon. -/
theorem welds_ended (h : Welds i w (ls ++ [semicolon]) ts) (hls : Lexed (ls ++ [semicolon])) (hs : semicolon ∉ ls)
    (hw : ';' ∉ w) : ∃ us n, ts = us ++ [⟨n, [';'], false, n + 1⟩] ∧ (∀ t ∈ us, t.is ";" = false) ∧
      (!w.isEmpty || ls.any Lexeme.visible) = !us.isEmpty := by
  induction ls generalizing i w ts with
  | nil =>
      cases h with
      | cons _ _ _ _ ts w' us hweld hrest =>
          obtain ⟨rfl, rfl⟩ := weld_semicolon hweld
          cases hrest
          exact ⟨shut i w, i, by simp [shut], shut_not_semicolon hw, by rw [not_isEmpty_shut]; simp⟩
  | cons ℓ ls ih =>
      cases h with
      | cons _ _ _ _ ts w' us hweld hrest =>
          obtain ⟨hr, hne, hls⟩ := hls
          rw [List.mem_cons, not_or] at hs
          obtain ⟨hts, hw', hvis⟩ := weld_statement hweld hr hne (Ne.symm hs.1) hw
          obtain ⟨vs, n, rfl, hvs, hvis'⟩ := ih hrest hls hs.2 hw'
          refine ⟨ts ++ vs, n, by simp, fun t ht => (List.mem_append.mp ht).elim (hts t) (hvs t), ?_⟩
          rw [List.any_cons, ← Bool.or_assoc, hvis, Bool.or_assoc, hvis', not_isEmpty_append]

end OneStatement

/-- The check of `validate_statement` that a batch entry has one statement. -/
def several (t : List Token) : Bool := t.zipIdx.any fun (token, i) => token.is ";" && i + 1 != t.length

theorem several_of_ended {us : List Token} {t : Token} (h : ∀ u ∈ us, u.is ";" = false) :
    several us = false ∧ several (us ++ [t]) = false := by
  have hmem : ∀ vs : List Token, (∀ i u, vs[i]? = some u → u.is ";" = true → i + 1 = vs.length) →
      several vs = false := by
    intro vs hvs
    rw [several, List.any_eq_false]
    rintro ⟨u, i⟩ hu
    have := List.mem_zipIdx_iff_getElem?.mp hu
    simp only [Bool.and_eq_true, bne_iff_ne, not_and, not_not]
    exact hvs i u this
  refine ⟨hmem us fun i u hu hs => ?_, hmem _ fun i u hu hs => ?_⟩
  · rw [h u (List.mem_of_getElem? hu)] at hs
    cases hs
  · rcases lt_trichotomy i us.length with hi | rfl | hi
    · rw [List.getElem?_append_left hi] at hu
      rw [h u (List.mem_of_getElem? hu)] at hs
      cases hs
    · simp
    · rw [List.getElem?_eq_none (by simp; omega)] at hu
      cases hu

def scopes : List String := ["VARIABLE", "SESSION"]

def settings : List String := ["SET", "RESET"]

/-- What `validate_statement` is to answer on a statement of these tokens. -/
def verdict (run : List Lexeme) : Except Failure Unit :=
  if run.head?.any (fun ℓ => settings.any ℓ.isKeyword) && !run[1]?.any (fun ℓ => scopes.any ℓ.isKeyword) then
    .error (invalid
      "Use explicit SESSION or VARIABLE scope; shared settings belong to the project runtime")
  else if run.head?.any fun ℓ => reserved.any ℓ.isKeyword then
    .error (invalid "Transactions and connection configuration belong to the project runtime")
  else .ok ()

/-- The keywords that decide stand apart: the first of a statement, and the scope of
a setting. -/
structure Guarded (seg : List Lexeme) : Prop where
  first : (tokenList seg).head?.any (fun ℓ => (settings ++ reserved).any ℓ.isKeyword) = true → apart seg = true
  scope : (tokenList seg).head?.any (fun ℓ => settings.any ℓ.isKeyword) = true →
    (tokenList seg)[1]?.any (fun ℓ => scopes.any ℓ.isKeyword) = true → apart (afterFirst seg) = true

theorem letters_settings : ∀ word ∈ settings ++ reserved, Letters word := by decide

theorem letters_scopes : ∀ word ∈ scopes, Letters word := by decide

/-- Several keywords at once. -/
theorem first_keywords {i : ℕ} {ls : List Lexeme} {ts : List Token} {words : List String} (h : Welds i [] ls ts)
    (hls : Lexed ls) (hw : ∀ word ∈ words, Letters word)
    (hapart : (tokenList ls).head?.any (fun ℓ => words.any ℓ.isKeyword) = true → apart ls = true) :
    ts.head?.any (fun t => words.any t.is) = (tokenList ls).head?.any fun ℓ => words.any ℓ.isKeyword := by
  have hone : ∀ word ∈ words, ts.head?.any (·.is word) = (tokenList ls).head?.any (·.isKeyword word) := by
    intro word hword
    refine first_keyword h hls (hw word hword) fun hk => hapart ?_
    obtain ⟨ℓ, hℓ, hk⟩ := Option.any_eq_true _ _ |>.mp hk
    exact Option.any_eq_true _ _ |>.mpr ⟨ℓ, hℓ, List.any_eq_true.mpr ⟨word, hword, hk⟩⟩
  rw [Bool.eq_iff_iff, Option.any_eq_true, Option.any_eq_true]
  constructor
  · rintro ⟨t, ht, hany⟩
    obtain ⟨word, hword, his⟩ := List.any_eq_true.mp hany
    have := hone word hword
    rw [ht, Option.any_some, his] at this
    obtain ⟨ℓ, hℓ, hk⟩ := Option.any_eq_true _ _ |>.mp this.symm
    exact ⟨ℓ, hℓ, List.any_eq_true.mpr ⟨word, hword, hk⟩⟩
  · rintro ⟨ℓ, hℓ, hany⟩
    obtain ⟨word, hword, hk⟩ := List.any_eq_true.mp hany
    have := hone word hword
    rw [hℓ, Option.any_some, hk] at this
    obtain ⟨t, ht, his⟩ := Option.any_eq_true _ _ |>.mp this
    exact ⟨t, ht, List.any_eq_true.mpr ⟨word, hword, his⟩⟩

/-- `validate_statement` on tokens that lie over a guarded statement. -/
theorem verdict_of_welds {sql : List Char} {seg : List Lexeme} {ts : List Token} (ht : tokens sql = .ok ts)
    (h : Welds 0 [] seg ts) (hls : Lexed seg) (hne : ts ≠ []) (hs : several ts = false) (hg : Guarded seg) :
    validate_statement sql = verdict (tokenList seg) := by
  obtain ⟨f, us, rfl⟩ := List.exists_cons_of_ne_nil hne
  have hset : settings.any f.is = (tokenList seg).head?.any fun ℓ => settings.any ℓ.isKeyword := by
    refine first_keywords h hls (fun word hw => letters_settings word (List.mem_append_left _ hw)) fun hk => hg.first ?_
    obtain ⟨ℓ, hℓ, hk⟩ := Option.any_eq_true _ _ |>.mp hk
    exact Option.any_eq_true _ _ |>.mpr ⟨ℓ, hℓ, by rw [List.any_append, hk, Bool.true_or]⟩
  have hres : reserved.any f.is = (tokenList seg).head?.any fun ℓ => reserved.any ℓ.isKeyword := by
    refine first_keywords h hls (fun word hw => letters_settings word (List.mem_append_right _ hw)) fun hk => hg.first ?_
    obtain ⟨ℓ, hℓ, hk⟩ := Option.any_eq_true _ _ |>.mp hk
    exact Option.any_eq_true _ _ |>.mpr ⟨ℓ, hℓ, by rw [List.any_append, hk, Bool.or_true]⟩
  have hscope : settings.any f.is = true →
      us.head?.any (fun t => scopes.any t.is) = (tokenList seg)[1]?.any fun ℓ => scopes.any ℓ.isKeyword := by
    intro hf
    rw [hset] at hf
    obtain ⟨ℓ, hℓ, hk⟩ := Option.any_eq_true _ _ |>.mp hf
    obtain ⟨word, hword, hk⟩ := List.any_eq_true.mp hk
    have hfirst : apart seg = true :=
      hg.first (Option.any_eq_true _ _ |>.mpr ⟨ℓ, hℓ, List.any_eq_true.mpr ⟨word, List.mem_append_left _ hword, hk⟩⟩)
    obtain ⟨f', us', i', hcons, hus, hlexed, htail⟩ :=
      after_keyword h hls hfirst (Option.any_eq_true _ _ |>.mpr ⟨ℓ, hℓ, hk⟩)
    obtain ⟨rfl, rfl⟩ := List.cons.inj hcons
    have hsecond : (tokenList seg)[1]? = (tokenList (afterFirst seg)).head? := by
      rw [← htail]
      cases tokenList seg with
      | nil => rfl
      | cons x xs => simp [List.head?_eq_getElem?]
    rw [hsecond]
    refine first_keywords hus hlexed letters_scopes fun hk => hg.scope hf ?_
    rwa [hsecond]
  have hsettings : (f.is "SET" || f.is "RESET") = settings.any f.is := by simp [settings]
  have hscopes : (f :: us)[1]?.any (fun scope => scope.is "VARIABLE" || scope.is "SESSION") =
      us.head?.any fun t => scopes.any t.is := by
    cases us <;> simp [scopes]
  rw [several] at hs
  rw [validate_statement, ht]
  simp only [bind, Except.bind, List.head?_cons, hs, Bool.false_eq_true, if_false, hsettings, hscopes, hres, verdict]
  cases hf : settings.any f.is with
  | false =>
      rw [hset] at hf
      simp [hf]
  | true =>
      rw [hscope hf]
      rw [hset] at hf
      simp [hf]

theorem verdict_append {run : List Lexeme} (h : run ≠ []) : verdict (run ++ [semicolon]) = verdict run := by
  have hk : ∀ words : List String, (words.any semicolon.isKeyword) = false := by
    intro words
    rw [List.any_eq_false]
    intro word _ h
    cases h
  obtain ⟨ℓ, rest, rfl⟩ := List.exists_cons_of_ne_nil h
  cases rest with
  | nil => simp [verdict, hk]
  | cons m rest => simp [verdict]

theorem dollar_tag_local {s v : List Char} (h : dollar_tag (s ++ ';' :: v) = none) : dollar_tag (s ++ [';']) = none := by
  cases s with
  | nil =>
      rw [List.nil_append, dollar_tag]
      exact if_neg (by simp)
  | cons c s =>
      rw [List.cons_append, dollar_tag] at h ⊢
      refine if_neg ?_
      rintro ⟨hmem, hall⟩
      have hs : '$' ∈ s := by simpa using hmem
      obtain ⟨u, r, rfl, hu⟩ := List.eq_append_cons_of_mem hs
      have hne : ∀ c ∈ u, (c != '$') = true := by
        intro c hc
        rw [bne_iff_ne]
        rintro rfl
        exact hu hc
      have htake : ∀ x, (u ++ '$' :: r ++ x).takeWhile (· != '$') = u := by
        intro x
        rw [List.append_assoc, List.cons_append]
        exact takeWhile_stops hne rfl
      rw [htake] at hall
      simp only [htake, hall] at h
      simp at h

/-- What holds of a script's lexemes holds of those of each statement. -/
theorem clears_split {glued : Bool} {a b : List Lexeme} (h : Clears glued (a ++ semicolon :: b)) :
    Clears glued (a ++ [semicolon]) ∧ Clears false b := by
  induction a generalizing glued with
  | nil => exact ⟨⟨⟨h.1.escape, h.1.dollar, by simp [semicolon], by simp [semicolon]⟩, trivial⟩, h.2⟩
  | cons ℓ a ih =>
      rw [List.cons_append] at h ⊢
      obtain ⟨hc, hrest⟩ := h
      obtain ⟨ha, hb⟩ := ih hrest
      refine ⟨⟨⟨hc.escape, hc.dollar, fun hg hk => ?_, fun hk hr => ?_⟩, ha⟩, hb⟩
      · have := hc.parameter hg hk
        rw [text_append, text_cons, ← List.append_assoc] at this
        have hlocal := dollar_tag_local (s := ℓ.text ++ text a) (v := text b) this
        rw [text_append, ← List.append_assoc]
        exact hlocal
      · cases a with
        | nil => cases hr
        | cons m a =>
            rcases hc.line hk hr with hl | hl
            · rw [List.cons_append, List.tail_cons] at hl
              exact absurd (congrArg List.length hl) (by simp)
            · refine .inr ?_
              cases a with
              | nil => cases hl
              | cons x a => exact hl

theorem clears_segments {ls seg : List Lexeme} (h : Clears false ls) (hs : seg ∈ segments [] ls) : Clears false seg := by
  induction hn : ls.length using Nat.strongRecOn generalizing ls with
  | _ n ih =>
      rcases semicolon_cases ls with hls | ⟨a, b, rfl, ha⟩
      · rw [segments_of_not_mem hls, List.nil_append, List.mem_singleton] at hs
        rwa [hs]
      · obtain ⟨hleft, hright⟩ := clears_split h
        rw [segments_append ha, List.nil_append] at hs
        rcases List.mem_cons.mp hs with rfl | hs
        · exact hleft
        · refine ih _ ?_ hright hs rfl
          rw [← hn, List.length_append, List.length_cons]
          omega

/-- The pieces are consecutive parts of the script, in order. -/
def InOrder (pieces : List (List Char)) (sql : List Char) : Prop :=
  ∃ parts : List (List Char), parts.flatten = sql ∧ pieces.Sublist parts

/-- `split_script` finds the statements of the grammar, and `validate_statement`
takes each for one statement and judges it by its first tokens. -/
structure Splits (sql : List Char) : Prop where
  fails : (∃ e, split_script sql = .error e) ↔ Unterminated sql
  pieces : ∀ pieces, split_script sql = .ok pieces → InOrder pieces sql ∧
    List.Forall₂ (fun piece run => (tokensOf piece = run ∨ tokensOf piece = run ++ [semicolon]) ∧
      validate_statement piece = verdict run) pieces (runs sql)

/-- The lexer reads the script as the grammar does; no statement is made of spaces
that it does not know, and the keywords that decide stand apart. -/
structure Regular (sql : List Char) : Prop where
  clear : Clears false (lexemes sql)
  statements : ¬Unterminated sql → ∀ seg ∈ segments [] (lexemes sql),
    (seg.any Lexeme.visible = true → seg.any Lexeme.counts = true) ∧ Guarded seg

theorem visible_of_counts {seg : List Lexeme} (h : seg.any Lexeme.counts = true) : seg.any Lexeme.visible = true := by
  obtain ⟨ℓ, hℓ, hc⟩ := List.any_eq_true.mp h
  refine List.any_eq_true.mpr ⟨ℓ, hℓ, ?_⟩
  simp only [Lexeme.counts, Bool.and_eq_true, bne_iff_ne] at hc
  refine visible_of_not_skipped ?_ hc.2
  rw [← Bool.not_eq_true]
  intro hs
  rw [not_isToken_of_skipped hs] at hc
  cases hc.1

/-- One statement of a regular script. -/
theorem piece_spec {sql : List Char} (h : Regular sql) (hk : ¬Unterminated sql) {seg : List Lexeme}
    (hs : seg ∈ segments [] (lexemes sql)) (hv : seg.any Lexeme.counts = true) :
    (tokensOf (text seg) = seg.filter Lexeme.counts ∨ tokensOf (text seg) = seg.filter Lexeme.counts ++ [semicolon]) ∧
      validate_statement (text seg) = verdict (seg.filter Lexeme.counts) := by
  obtain ⟨hread, a, ha, hshape⟩ := segments_read hs
  have hsub : ∀ ℓ ∈ seg, ℓ ∈ lexemes sql := by
    intro ℓ hℓ
    have := flatten_segments [] (lexemes sql)
    rw [List.nil_append] at this
    rw [← this]
    exact List.mem_flatten.mpr ⟨seg, hs, hℓ⟩
  have hclear : Clears false (lexemes (text seg)) := by
    rw [hread]
    exact clears_segments h.clear hs
  have hg := (h.statements hk seg hs).2
  have hlexed : Lexed seg := hread ▸ lexed_lexemes (text seg)
  have hvis := visible_of_counts hv
  rcases tokens_lexemes hclear with ⟨ts, ht, hw, -⟩ | ⟨-, ℓ, hℓ, hu⟩
  · rw [hread] at hw
    rw [tokensOf, hread]
    rcases hshape with rfl | rfl
    · obtain ⟨hts, hne⟩ := welds_statement hw hlexed ha (by simp)
      rw [hvis] at hne
      rw [filter_counts_of_not_mem ha]
      have hsingle := (several_of_ended (t := ⟨0, [], false, 0⟩) hts).1
      exact ⟨.inl rfl, verdict_of_welds ht hw hlexed (by simpa using hne) hsingle hg⟩
    · obtain ⟨us, n, rfl, hus, hne⟩ := welds_ended hw hlexed ha (by simp)
      have hfilter : (a ++ [semicolon]).filter Lexeme.counts = a.filter Lexeme.isToken := by
        rw [List.filter_append, filter_counts_of_not_mem ha]
        simp [Lexeme.counts]
      have htokens : tokenList (a ++ [semicolon]) = a.filter Lexeme.isToken ++ [semicolon] := by
        rw [tokenList, List.filter_append]
        rfl
      have hnil : a.filter Lexeme.isToken ≠ [] := by
        rw [← hfilter]
        intro hnil
        rw [List.filter_eq_nil_iff] at hnil
        obtain ⟨ℓ, hℓ, hc⟩ := List.any_eq_true.mp hv
        exact hnil ℓ hℓ hc
      rw [hfilter, ← verdict_append hnil, ← htokens]
      exact ⟨.inr rfl, verdict_of_welds ht hw hlexed (by simp) (several_of_ended hus).2 hg⟩
  · rw [hread] at hℓ
    exact absurd ⟨ℓ, hsub ℓ hℓ, hu⟩ hk

section Decidable

instance (glued : Bool) (ℓ : Lexeme) (after : List Lexeme) : Decidable (Clear glued ℓ after) :=
  have (tag : List Char) : Decidable (∀ c ∈ tag, c.toNat < 128) := List.decidableBAll _ tag
  decidable_of_iff
    ((glued = true → ℓ.text.head?.any isE = true → ℓ.text.tail.head? = some '\'' →
        quoteBody '\'' false (ℓ.text.drop 2) = quoteBody '\'' true (ℓ.text.drop 2)) ∧
      (ℓ.text.head? = some '$' → ∀ tag ∈ quoteTag ℓ.text.tail, glued = false ∧ ∀ c ∈ tag, c.toNat < 128) ∧
      (glued = false → ℓ.kind = .parameter → dollar_tag (ℓ.text ++ text after) = none) ∧
      (ℓ.kind = .lineComment → after.head? = some ⟨.space, ['\r']⟩ →
        after.tail = [] ∨ after.tail.head? = some ⟨.space, ['\n']⟩))
    ⟨fun ⟨he, hd, hp, hl⟩ => ⟨he, hd, hp, hl⟩, fun ⟨he, hd, hp, hl⟩ => ⟨he, hd, hp, hl⟩⟩

instance decidableClears : (glued : Bool) → (ls : List Lexeme) → Decidable (Clears glued ls)
  | _, [] => inferInstanceAs (Decidable True)
  | glued, ℓ :: after =>
      have := decidableClears ℓ.leaves after
      inferInstanceAs (Decidable (Clear glued ℓ after ∧ Clears ℓ.leaves after))

instance (seg : List Lexeme) : Decidable (Guarded seg) :=
  decidable_of_iff
    (((tokenList seg).head?.any (fun ℓ => (settings ++ reserved).any ℓ.isKeyword) = true → apart seg = true) ∧
      ((tokenList seg).head?.any (fun ℓ => settings.any ℓ.isKeyword) = true →
        (tokenList seg)[1]?.any (fun ℓ => scopes.any ℓ.isKeyword) = true → apart (afterFirst seg) = true))
    ⟨fun ⟨hf, hs⟩ => ⟨hf, hs⟩, fun ⟨hf, hs⟩ => ⟨hf, hs⟩⟩

end Decidable

/-- `BEGIN`, a query with every kind of quote and a setting. -/
def ordinary : List Char :=
  "BEGIN; SELECT E'a\\';b' || E'c', $t$;$t$ /* ; */; -- d\nSET VARIABLE \"x\" = 1.5e3;".toList

/-- A query and a `COMMIT` after it that the lexer takes for one string. -/
def slipping : List Char := "SELECT ''||E'\\' quote'; COMMIT; --'".toList

end Wordflow.Scripts
