import Wordflow.Scripts.Locality
import Wordflow.Scripts.Weld

namespace Wordflow.Scripts

open Library Library.Identifier Library.Text

/-- Every lexeme has one of the forms before the lexemes that follow it. -/
def Lexed : List Lexeme → Prop
  | [] => True
  | ℓ :: after => Reads ℓ (text after) ∧ ℓ.text ≠ [] ∧ Lexed after

theorem lexed_lexemes (s : List Char) : Lexed (lexemes s) := by
  induction hn : s.length using Nat.strongRecOn generalizing s with
  | _ n ih =>
      rcases eq_or_ne s [] with rfl | hs
      · trivial
      obtain ⟨rest, hrest, hr, hne, hl⟩ := lexemes_cons hs
      rw [hl]
      have hlt : rest.length < n := by
        have h := congrArg List.length hrest
        have := List.length_pos_iff.mpr hne
        rw [List.length_append] at h
        omega
      exact ⟨by rwa [text_lexemes], hne, ih _ hlt rest rfl⟩

/-- The reference tokens of a text. -/
def tokensOf (s : List Char) : List Lexeme := (lexemes s).filter Lexeme.isToken

/-- The maximal runs of tokens between semicolons that have at least one. -/
def runs (s : List Char) : List (List Lexeme) := ((tokensOf s).splitOn semicolon).filter (· ≠ [])

def Unterminated (s : List Char) : Prop := ∃ ℓ ∈ lexemes s, ℓ.kind = .unterminated

/-- The lexemes cut after each semicolon. -/
def segments : List Lexeme → List Lexeme → List (List Lexeme)
  | cur, [] => [cur]
  | cur, ℓ :: ls => if ℓ = semicolon then (cur ++ [ℓ]) :: segments [] ls else segments (cur ++ [ℓ]) ls

/-- What the lexer passes over. -/
def Lexeme.skipped (ℓ : Lexeme) : Bool := ℓ.kind.blank && !ℓ.plain

/-- A token of a statement. -/
def Lexeme.counts (ℓ : Lexeme) : Bool := ℓ.isToken && ℓ != semicolon

def Lexeme.visible (ℓ : Lexeme) : Bool := !ℓ.skipped && ℓ != semicolon

theorem segments_append {cur a b : List Lexeme} (h : semicolon ∉ a) :
    segments cur (a ++ semicolon :: b) = (cur ++ a ++ [semicolon]) :: segments [] b := by
  induction a generalizing cur with
  | nil => simp [segments]
  | cons ℓ a ih =>
      have hℓ : ℓ ≠ semicolon := fun he => h (by rw [he]; exact List.mem_cons_self)
      rw [List.cons_append, segments, if_neg hℓ, ih fun hm => h (List.mem_cons_of_mem _ hm)]
      simp

theorem segments_of_not_mem {cur a : List Lexeme} (h : semicolon ∉ a) : segments cur a = [cur ++ a] := by
  induction a generalizing cur with
  | nil => simp [segments]
  | cons ℓ a ih =>
      have hℓ : ℓ ≠ semicolon := fun he => h (by rw [he]; exact List.mem_cons_self)
      rw [segments, if_neg hℓ, ih fun hm => h (List.mem_cons_of_mem _ hm)]
      simp

section Fold

variable {sql : List Char}

theorem is_semicolon {t : Token} : t.is ";" = true ↔ t.quoted = false ∧ t.value = [';'] := by
  have hl : asciiLower ";" = [';'] := rfl
  simp only [Token.is, Bool.and_eq_true, Bool.not_eq_true', beq_iff_eq, hl]
  refine and_congr_right fun _ => ⟨fun h => ?_, fun h => by rw [h]; rfl⟩
  obtain ⟨c, hv, hc⟩ := List.map_eq_singleton_iff.mp h
  rw [hv, eq_of_toLower hc rfl]

theorem foldl_splitStep {ts : List Token} (h : ∀ t ∈ ts, t.is ";" = false) (st : Splitting) :
    ts.foldl (splitStep sql) st = { st with has_statement := st.has_statement || !ts.isEmpty } := by
  induction ts generalizing st with
  | nil => simp
  | cons t ts ih =>
      have ht : splitStep sql st t = { st with has_statement := true } := by
        rw [splitStep, if_neg (by simp [h t List.mem_cons_self])]
      rw [List.foldl_cons, ht, ih fun u hu => h u (List.mem_cons_of_mem t hu)]
      simp

theorem shut_not_semicolon {i : ℕ} {w : List Char} (hw : ';' ∉ w) : ∀ t ∈ shut i w, t.is ";" = false := by
  intro t ht
  rw [← Bool.not_eq_true, is_semicolon]
  rintro ⟨-, hv⟩
  rw [shut] at ht
  split at ht
  · cases ht
  · obtain rfl := List.mem_singleton.mp ht
    have hmem : ';' ∈ [';'] := List.mem_singleton_self _
    rw [← hv] at hmem
    exact hw hmem

theorem feed_not_semicolon {i : ℕ} {w s : List Char} (hw : ';' ∉ w) (hs : ';' ∉ s) :
    (∀ t ∈ (feed i w s).1, t.is ";" = false) ∧ ';' ∉ (feed i w s).2 := by
  induction s generalizing i w with
  | nil => simpa [feed] using hw
  | cons c s ih =>
      simp only [List.mem_cons, not_or] at hs
      rw [feed]
      split
      · obtain ⟨hts, hw'⟩ := ih (i := i + 1) (w := []) (by simp) hs.2
        refine ⟨fun t ht => ?_, hw'⟩
        rcases List.mem_append.mp ht with ht | ht
        · rcases List.mem_append.mp ht with ht | ht
          · exact shut_not_semicolon hw t ht
          · obtain rfl := List.mem_singleton.mp ht
            rw [← Bool.not_eq_true, is_semicolon]
            rintro ⟨-, hv⟩
            exact hs.1 (by simpa using hv.symm)
        · exact hts t ht
      · exact ih (by simp [hw, hs.1]) hs.2

theorem feed_visible {i : ℕ} {w s : List Char} (h : s ≠ [] ∨ w ≠ []) :
    (!(feed i w s).1.isEmpty || !(feed i w s).2.isEmpty) = true := by
  induction s generalizing i w with
  | nil => simpa [feed] using h
  | cons c s ih =>
      rw [feed]
      split
      · simp
      · exact ih (.inr (by simp))

theorem plain_semicolon {ℓ : Lexeme} {rest : List Char} (h : Reads ℓ rest) (hp : ℓ.plain = true)
    (hs : ';' ∈ ℓ.text) : ℓ = semicolon := by
  cases h with
  | punctuation c rest h =>
      obtain rfl : ';' = c := by simpa using hs
      rfl
  | space c rest h =>
      obtain rfl : ';' = c := by simpa using hs
      cases h
  | name c body rest hc h =>
      rcases List.mem_cons.mp hs with rfl | hs
      · cases hc
      · cases h _ hs
  | number s rest h => cases number_numeric _ hs
  | parameter ds rest hds h =>
      rcases List.mem_cons.mp hs with hs | hs
      · cases hs
      · cases h _ hs
  | dollarSign => cases List.mem_singleton.mp hs
  | operator c s rest hc h => cases operator_all _ _ hs
  | _ => cases hp

theorem not_isEmpty_shut {i : ℕ} {w : List Char} : (!(shut i w).isEmpty) = !w.isEmpty := by
  rw [shut]
  split
  · rename_i hw
    simp [hw]
  · rename_i hw
    simp [hw]

theorem weld_semicolon {i : ℕ} {w w' : List Char} {ts : List Token} (h : Weld i w semicolon ts w') :
    ts = shut i w ++ [⟨i, [';'], false, i + 1⟩] ∧ w' = [] := by
  generalize hs : semicolon = ℓ at h
  cases h with
  | blank _ hb hp =>
      subst hs
      cases hb
  | quoted _ value hk =>
      subst hs
      rcases hk with hk | hk | hk <;> cases hk
  | escape e body value he => cases hs
  | plain _ hp =>
      subst hs
      simp [feed, semicolon, punctuation]

theorem visible_of_not_skipped {ℓ : Lexeme} (h : ℓ.skipped = false) (hs : ℓ ≠ semicolon) : ℓ.visible = true := by
  simp [Lexeme.visible, h, hs]

/-- The tokens over a lexeme that is not a semicolon are no semicolons, and there
is one, ended or open, if the lexer sees the lexeme. -/
theorem weld_statement {i : ℕ} {w w' rest : List Char} {ℓ : Lexeme} {ts : List Token} (h : Weld i w ℓ ts w')
    (hr : Reads ℓ rest) (hne : ℓ.text ≠ []) (hs : ℓ ≠ semicolon) (hw : ';' ∉ w) :
    (∀ t ∈ ts, t.is ";" = false) ∧ ';' ∉ w' ∧ (!w.isEmpty || ℓ.visible) = (!ts.isEmpty || !w'.isEmpty) := by
  cases h with
  | blank _ hb hp =>
      refine ⟨shut_not_semicolon hw, by simp, ?_⟩
      have hv : ℓ.visible = false := by simp [Lexeme.visible, Lexeme.skipped, hb, hp]
      rw [hv, not_isEmpty_shut]
      rfl
  | quoted _ value hk =>
      refine ⟨fun t ht => ?_, by simp, ?_⟩
      · rcases List.mem_append.mp ht with ht | ht
        · exact shut_not_semicolon hw t ht
        · obtain rfl := List.mem_singleton.mp ht
          rfl
      · have hb : ℓ.kind.blank = false := by rcases hk with hk | hk | hk <;> rw [hk] <;> rfl
        rw [visible_of_not_skipped (by simp [Lexeme.skipped, hb]) hs]
        simp
  | escape e body value he =>
      have hwe : ';' ∉ w ++ [e] := by
        rw [List.mem_append, not_or]
        refine ⟨hw, fun hm => ?_⟩
        obtain rfl := List.mem_singleton.mp hm
        cases he
      refine ⟨fun t ht => ?_, by simp, ?_⟩
      · rcases List.mem_append.mp ht with ht | ht
        · exact shut_not_semicolon hwe t ht
        · obtain rfl := List.mem_singleton.mp ht
          rfl
      · rw [visible_of_not_skipped rfl hs]
        simp
  | plain _ hp =>
      obtain ⟨hts, hw'⟩ := feed_not_semicolon (i := i) hw fun hm => hs (plain_semicolon hr hp hm)
      refine ⟨hts, hw', ?_⟩
      rw [visible_of_not_skipped (by simp [Lexeme.skipped, hp]) hs, feed_visible (.inl hne), Bool.or_true]

/-- The statements `split_script` returns from the end of the fold. -/
def Splitting.finish (sql : List Char) (st : Splitting) : List (List Char) :=
  if st.has_statement then st.statements ++ [sql.drop st.start] else st.statements

theorem any_append_single (cur : List Lexeme) (ℓ : Lexeme) :
    (cur ++ [ℓ]).any Lexeme.visible = (cur.any Lexeme.visible || ℓ.visible) := by
  simp

theorem slice_text {before : List Char} {cur : List Lexeme} {ℓ : Lexeme} {rest : List Char} :
    slice (before ++ text cur ++ (ℓ.text ++ rest)) before.length (before.length + (text cur).length + ℓ.text.length) =
      text (cur ++ [ℓ]) := by
  rw [slice, List.append_assoc, List.drop_left, ← List.append_assoc]
  have hn : before.length + (text cur).length + ℓ.text.length - before.length = (text cur ++ ℓ.text).length := by
    rw [List.length_append]
    omega
  rw [hn, List.take_left]
  simp

/-- The fold of `split_script` over the tokens that lie over `ls`, after the
lexemes `cur` of the statement it is in. -/
theorem fold_segments {i : ℕ} {w : List Char} {ls : List Lexeme} {ts : List Token} (h : Welds i w ls ts)
    (hls : Lexed ls) (before : List Char) (cur : List Lexeme) (st : Splitting)
    (hw : ';' ∉ w) (hi : i = before.length + (text cur).length) (hstart : st.start = before.length)
    (hhas : (st.has_statement || !w.isEmpty) = cur.any Lexeme.visible) :
    (ts.foldl (splitStep (before ++ text cur ++ text ls)) st).finish (before ++ text cur ++ text ls) =
      st.statements ++ ((segments cur ls).filter (·.any Lexeme.visible)).map text := by
  induction h generalizing before cur st with
  | nil i w =>
      rw [foldl_splitStep (shut_not_semicolon hw), not_isEmpty_shut, hhas, Splitting.finish, segments]
      cases hv : cur.any Lexeme.visible with
      | false => simp [hv]
      | true => simp [hv, hstart]
  | cons i w ℓ ls ts w' us hweld hs ih =>
      obtain ⟨hr, hne, hls⟩ := hls
      have hsql : before ++ text cur ++ text (ℓ :: ls) = before ++ text (cur ++ [ℓ]) ++ text ls := by simp
      have hi' : i + ℓ.text.length = before.length + (text (cur ++ [ℓ])).length := by
        simp [hi, Nat.add_assoc]
      rw [List.foldl_append]
      by_cases hsemi : ℓ = semicolon
      · subst hsemi
        obtain ⟨rfl, rfl⟩ : ts = shut i w ++ [⟨i, [';'], false, i + 1⟩] ∧ w' = [] := weld_semicolon hweld
        have hslice : slice (before ++ text cur ++ text (semicolon :: ls)) before.length (i + 1) =
            text (cur ++ [semicolon]) := by
          rw [hi]
          exact slice_text
        have hstep : (shut i w ++ [(⟨i, [';'], false, i + 1⟩ : Token)]).foldl
            (splitStep (before ++ text cur ++ text (semicolon :: ls))) st =
            ⟨st.statements ++ if cur.any Lexeme.visible then [text (cur ++ [semicolon])] else [], i + 1, false⟩ := by
          rw [List.foldl_append, foldl_splitStep (shut_not_semicolon hw), not_isEmpty_shut, hhas]
          have his : (⟨i, [';'], false, i + 1⟩ : Token).is ";" = true := is_semicolon.mpr ⟨rfl, rfl⟩
          simp only [List.foldl_cons, List.foldl_nil, splitStep, his, if_true, hstart, hslice]
          cases cur.any Lexeme.visible <;> simp
        have hlen : i + 1 = (before ++ text (cur ++ [semicolon])).length := by
          rw [List.length_append, ← hi']
          rfl
        have hrest := ih hls (before ++ text (cur ++ [semicolon])) []
          ⟨st.statements ++ if cur.any Lexeme.visible then [text (cur ++ [semicolon])] else [], i + 1, false⟩
          (by simp) (by rw [text_nil, List.length_nil, Nat.add_zero]; exact hlen) hlen rfl
        rw [text_nil, List.append_nil] at hrest
        rw [hstep, hsql, hrest, segments, if_pos rfl, List.append_assoc]
        have hvis : semicolon.visible = false := rfl
        cases hv : cur.any Lexeme.visible <;> simp [hv, hvis]
      -- no token over another lexeme is a semicolon
      obtain ⟨hts, hw', hvis⟩ := weld_statement hweld hr hne hsemi hw
      rw [foldl_splitStep hts, hsql, segments, if_neg hsemi]
      refine ih hls _ _ _ hw' hi' hstart ?_
      rw [any_append_single, ← hhas, Bool.or_assoc, Bool.or_assoc, hvis]

end Fold

theorem split_script_ok {sql : List Char} {ts : List Token} (ht : tokens sql = .ok ts)
    (hs : Welds 0 [] (lexemes sql) ts) : split_script sql =
      .ok (((segments [] (lexemes sql)).filter (·.any Lexeme.visible)).map text) := by
  have hfold := fold_segments hs (lexed_lexemes sql) [] [] ⟨[], 0, false⟩ (by simp) rfl rfl rfl
  simp only [text_nil, List.append_nil, List.nil_append, text_lexemes] at hfold
  rw [split_script, ht, ← hfold]
  rfl

/-- The first semicolon of a list of lexemes. -/
theorem semicolon_cases (ls : List Lexeme) :
    semicolon ∉ ls ∨ ∃ a b, ls = a ++ semicolon :: b ∧ semicolon ∉ a := by
  by_cases h : semicolon ∈ ls
  · obtain ⟨a, b, hab, ha⟩ := List.eq_append_cons_of_mem h
    exact .inr ⟨a, b, hab, ha⟩
  · exact .inl h

theorem flatten_segments (cur ls : List Lexeme) : (segments cur ls).flatten = cur ++ ls := by
  induction ls generalizing cur with
  | nil => simp [segments]
  | cons ℓ ls ih =>
      rw [segments]
      split
      · rw [List.flatten_cons, ih]
        simp
      · rw [ih]
        simp

/-- A segment is a run of lexemes with at most a semicolon at its end, and it is
read alone as it is read in the script. -/
theorem segments_read {s : List Char} {seg : List Lexeme} (h : seg ∈ segments [] (lexemes s)) :
    lexemes (text seg) = seg ∧ ∃ a, semicolon ∉ a ∧ (seg = a ∨ seg = a ++ [semicolon]) := by
  induction hn : (lexemes s).length using Nat.strongRecOn generalizing s with
  | _ n ih =>
      rcases semicolon_cases (lexemes s) with hs | ⟨a, b, hab, ha⟩
      · rw [segments_of_not_mem hs, List.nil_append, List.mem_singleton] at h
        subst h
        rw [text_lexemes]
        exact ⟨rfl, _, hs, .inl rfl⟩
      · obtain ⟨hleft, hright⟩ := lexemes_split hab
        rw [hab, segments_append ha, List.nil_append] at h
        rcases List.mem_cons.mp h with rfl | h
        · rw [text_append]
          exact ⟨hleft, a, ha, .inr rfl⟩
        · rw [← hright] at h
          refine ih _ ?_ h rfl
          rw [hright, ← hn, hab, List.length_append, List.length_cons]
          omega

theorem filter_counts_of_not_mem {ls : List Lexeme} (h : semicolon ∉ ls) :
    ls.filter Lexeme.counts = ls.filter Lexeme.isToken := by
  refine List.filter_congr fun ℓ hℓ => ?_
  have : ℓ ≠ semicolon := fun he => h (he ▸ hℓ)
  simp [Lexeme.counts, this]

theorem splitOn_tokens (ls : List Lexeme) :
    (ls.filter Lexeme.isToken).splitOn semicolon = (segments [] ls).map (·.filter Lexeme.counts) := by
  induction hn : ls.length using Nat.strongRecOn generalizing ls with
  | _ n ih =>
      have hne : ∀ {a : List Lexeme}, semicolon ∉ a → ∀ x ∈ a.filter Lexeme.isToken, (x == semicolon) = false := by
        intro a ha x hx
        rw [beq_eq_false_iff_ne]
        rintro rfl
        exact ha (List.mem_of_mem_filter hx)
      rcases semicolon_cases ls with hs | ⟨a, b, rfl, ha⟩
      · rw [segments_of_not_mem hs, List.splitOn_eq_splitOnP, List.splitOnP_eq_singleton (hne hs)]
        simp [filter_counts_of_not_mem hs]
      · have hsplit : (a ++ semicolon :: b).filter Lexeme.isToken =
            a.filter Lexeme.isToken ++ semicolon :: b.filter Lexeme.isToken := by
          rw [List.filter_append, List.filter_cons_of_pos rfl]
        have hlt : b.length < n := by
          rw [← hn, List.length_append, List.length_cons]
          omega
        rw [segments_append ha, hsplit, List.splitOn_eq_splitOnP,
          List.splitOnP_append_cons_of_forall_mem (hne ha) _ (by simp), ← List.splitOn_eq_splitOnP, ih _ hlt b rfl]
        have hsemi : semicolon.counts = false := rfl
        simp [filter_counts_of_not_mem ha, hsemi]

theorem runs_eq (s : List Char) :
    runs s = ((segments [] (lexemes s)).filter (·.any Lexeme.counts)).map (·.filter Lexeme.counts) := by
  rw [runs, tokensOf, splitOn_tokens, List.filter_map]
  congr 1
  refine List.filter_congr fun seg _ => ?_
  rw [Bool.eq_iff_iff]
  simp [List.filter_eq_nil_iff]

end Wordflow.Scripts
