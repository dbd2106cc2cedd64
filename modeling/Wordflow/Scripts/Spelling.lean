import Wordflow.Library.Fallible
import Wordflow.Scripts.Keywords

namespace Wordflow.Scripts

open Library Library.Fallible Library.Text

/-- A token stands for some of the text, and a quoted one says what the text in its quotes is. -/
structure Spelled (sql : List Char) (t : Token) : Prop where
  nonempty : t.start < t.stop
  quoted : t.quoted = true → ∀ c, delimiter c = true → (sql.drop t.start).head? = some c →
    t.value = undouble c ((sql.drop (t.start + 1)).take (t.stop - t.start - 2))

/-- The tokens of a text up to `i`. -/
structure Lined (sql : List Char) (out : List Token) (i : ℕ) : Prop where
  spelled : ∀ t ∈ out, Spelled sql t
  stop : ∀ t ∈ out, t.stop ≤ i
  sorted : out.Pairwise fun t u => t.stop ≤ u.start

/-- What a round of the lexer that takes `n` characters adds to its tokens. -/
def Adds (out : List Token) (i : ℕ) (c : Char) (s : List Char) (r : Scanned) : Prop :=
  1 ≤ r.2 ∧ r.1.2 = i + r.2 ∧ (r.1.1 = out ∨ ∃ t, r.1.1 = out ++ [t] ∧ t.start = i ∧ t.stop = i + r.2 ∧
    (t.quoted = true → delimiter c = true → t.value = undouble c (s.take (r.2 - 2))))

theorem adds_skipped {out : List Token} {i n : ℕ} {c : Char} {s : List Char} (hn : 1 ≤ n) : Adds out i c s (skipped out i n) :=
  ⟨hn, rfl, .inl rfl⟩

theorem adds_pushed {out : List Token} {i n : ℕ} {c : Char} {s value : List Char} {quoted : Bool} (hn : 1 ≤ n)
    (h : quoted = true → delimiter c = true → value = undouble c (s.take (n - 2))) : Adds out i c s (pushed out i n value quoted) :=
  ⟨hn, rfl, .inr ⟨_, rfl, rfl, rfl, h⟩⟩

theorem scan_adds {out : List Token} {i : ℕ} {c : Char} {s : List Char} {r : Scanned}
    (h : scan (out, i) (c :: s) = .ok r) : Adds out i c s r := by
  rw [scan] at h
  split at h
  · cases h
    exact adds_skipped (by simp)
  split at h
  · rename_i hline
    obtain ⟨rfl, -⟩ := startsWith_two.mp hline
    cases h
    refine adds_skipped ?_
    rw [lineLength, List.takeWhile_cons_of_pos rfl]
    exact Nat.succ_le_succ (Nat.zero_le _)
  split at h
  · split at h
    · cases h
    · cases h
      exact adds_skipped (by omega)
  split at h
  · simp only at h
    split at h
    · cases h
    · rename_i n hn
      cases h
      exact adds_pushed (by omega) fun _ _ => rfl
  · rename_i hdelimiter
    have hplain : delimiter c ≠ true := by simpa [delimiter] using hdelimiter
    split at h
    · rename_i tag htag
      split at h
      · cases h
      · rename_i n hn
        cases h
        have hpos : 0 < tag.length := by
          split at htag
          · rw [dollar_tag] at htag
            split at htag
            · cases htag
              simp
            · cases htag
          · cases htag
        exact adds_pushed (by omega) fun _ hc => absurd hc hplain
    split at h
    · cases h
      exact adds_pushed (by simp) fun _ hc => absurd hc hplain
    · cases h
      exact adds_pushed (by omega) fun _ hc => absurd hc hplain

theorem Lined.add {sql : List Char} {out : List Token} {i n : ℕ} {t : Token} (h : Lined sql out i)
    (hstart : t.start = i) (hstop : t.stop = i + n) (ht : Spelled sql t) : Lined sql (out ++ [t]) (i + n) := by
  refine ⟨fun u hu => ?_, fun u hu => ?_, ?_⟩
  · rcases List.mem_append.mp hu with hu | hu
    · exact h.spelled u hu
    · rwa [List.mem_singleton.mp hu]
  · rcases List.mem_append.mp hu with hu | hu
    · exact (h.stop u hu).trans (Nat.le_add_right i n)
    · rw [List.mem_singleton.mp hu, hstop]
  · refine List.pairwise_append.mpr ⟨h.sorted, List.pairwise_singleton _ _, fun u hu v hv => ?_⟩
    rw [List.mem_singleton.mp hv, hstart]
    exact h.stop u hu

theorem tokens_lined {sql : List Char} {ts : List Token} (h : tokens sql = .ok ts) : ∃ i, Lined sql ts i := by
  obtain ⟨⟨out, i⟩, hdrive, rfl⟩ := map_eq_ok.mp h
  have hstart : Lined sql [] 0 ∧ sql = sql.drop 0 := ⟨⟨by simp, by simp, .nil⟩, rfl⟩
  suffices hstep : ∀ st xs st' n, Lined sql st.1 st.2 ∧ xs = sql.drop st.2 → xs ≠ [] → scan st xs = .ok (st', n) →
      1 ≤ n ∧ Lined sql st'.1 st'.2 ∧ xs.drop n = sql.drop st'.2 by
    obtain ⟨k, hlined, -⟩ := Scan.drive_invariant (P := fun st xs => Lined sql st.1 st.2 ∧ xs = sql.drop st.2) hstep hstart hdrive
    exact ⟨i, hlined⟩
  rintro ⟨out, i⟩ xs ⟨out', i'⟩ n ⟨hlined, hxs⟩ hne hscan
  obtain ⟨c, s, rfl⟩ := List.exists_cons_of_ne_nil hne
  have hadds := scan_adds hscan
  simp only [Adds] at hadds
  obtain ⟨hn, rfl, hadds⟩ := hadds
  simp only at hlined hxs ⊢
  have hrest : s = sql.drop (i + 1) := by
    rw [← List.drop_drop, ← hxs]
    rfl
  refine ⟨hn, ?_, by rw [hxs, List.drop_drop]⟩
  rcases hadds with rfl | ⟨t, rfl, hstart, hstop, hquoted⟩
  · exact ⟨hlined.spelled, fun t ht => (hlined.stop t ht).trans (Nat.le_add_right i n), hlined.sorted⟩
  · refine hlined.add hstart hstop ⟨by omega, fun hq d hd hhead => ?_⟩
    rw [hstart, ← hxs, List.head?_cons, Option.some.injEq] at hhead
    subst hhead
    have hlength : t.stop - t.start - 2 = n - 2 := by omega
    rw [hquoted hq hd, hlength, hstart, ← hrest]

section Stretches

variable {i : ℕ} {w w' : List Char} {a b gap rest : List Lexeme} {ts : List Token}

/-- A lexeme that leaves no word open. -/
theorem weld_closed {ℓ : Lexeme} (h : Weld i w ℓ ts w') (hne : ℓ.text ≠ []) (hℓ : ℓ.leaves = false) : w' = [] := by
  cases h with
  | blank | quoted | escape => rfl
  | plain _ hp =>
      obtain ⟨s, c, hsplit⟩ : ∃ s c, ℓ.text = s ++ [c] := ⟨_, _, (List.dropLast_append_getLast hne).symm⟩
      have hc : punctuation c = true := by
        rw [Lexeme.leaves, hp, hsplit] at hℓ
        simpa using hℓ
      rw [hsplit]
      exact (feed_punctuation hc).1

/-- The tokens before and after a place between two lexemes. -/
theorem welds_append (h : Welds i w (a ++ b) ts) (ha : ∀ ℓ ∈ a, ℓ.text ≠ []) :
    ∃ us v vs, ts = us ++ vs ∧ Welds (i + (text a).length) v b vs ∧ (a = [] → v = w) ∧
      ∀ ℓ ∈ a.getLast?, ℓ.leaves = false → v = [] := by
  induction a generalizing i w ts with
  | nil => exact ⟨[], w, ts, rfl, h, fun _ => rfl, by simp⟩
  | cons ℓ a ih =>
      obtain ⟨hℓ, ha⟩ := List.forall_mem_cons.mp ha
      cases h with
      | cons _ _ _ _ ts v us hweld hs =>
          obtain ⟨us, v', vs, rfl, hvs, hnil, hlast⟩ := ih hs ha
          refine ⟨ts ++ us, v', vs, by simp, ?_, by simp, ?_⟩
          · rwa [text_cons, List.length_append, ← Nat.add_assoc]
          · rcases eq_or_ne a [] with rfl | hne
            · rintro m hm hleaves
              obtain rfl : ℓ = m := by simpa using hm
              rw [hnil rfl]
              exact weld_closed hweld hℓ hleaves
            · rintro m hm
              rw [List.getLast?_cons_of_ne_nil hne] at hm
              exact hlast m hm

theorem welds_skip (h : Welds i [] (gap ++ rest) ts) (hgap : ∀ ℓ ∈ gap, ℓ.skipped = true) :
    Welds (i + (text gap).length) [] rest ts := by
  induction gap generalizing i ts with
  | nil => exact h
  | cons ℓ gap ih =>
      obtain ⟨hℓ, hgap⟩ := List.forall_mem_cons.mp hgap
      cases h with
      | cons _ _ _ _ ts v us hweld hs =>
          obtain ⟨rfl, rfl⟩ := weld_nil_blank hweld hℓ
          rw [text_cons, List.length_append, ← Nat.add_assoc]
          exact ih hs hgap

/-- A punctuation mark after skipped lexemes ends the open word. -/
theorem welds_mark {c : Char} (hc : punctuation c = true) (h : Welds i w (gap ++ ⟨.punctuation, [c]⟩ :: rest) ts)
    (hgap : ∀ ℓ ∈ gap, ℓ.skipped = true) : ∃ us, Welds (i + (text gap).length + 1) [] rest us ∧
      ts = shut i w ++ ⟨i + (text gap).length, [c], false, i + (text gap).length + 1⟩ :: us := by
  have hmark : ∀ {j : ℕ} {v : List Char} {ts : List Token}, Welds j v (⟨.punctuation, [c]⟩ :: rest) ts →
      ∃ us, Welds (j + 1) [] rest us ∧ ts = shut j v ++ ⟨j, [c], false, j + 1⟩ :: us := by
    intro j v ts h
    cases h with
    | cons _ _ _ _ ts v us hweld hs =>
        cases hweld with
        | blank _ hb => cases hb
        | quoted _ value hk => rcases hk with hk | hk | hk <;> cases hk
        | plain _ hp =>
            simp only [feed, hc, if_true] at hs ⊢
            exact ⟨us, hs, by simp⟩
  cases gap with
  | nil => exact hmark h
  | cons ℓ gap =>
      obtain ⟨hℓ, hgap⟩ := List.forall_mem_cons.mp hgap
      simp only [Lexeme.skipped, Bool.and_eq_true, Bool.not_eq_true'] at hℓ
      cases h with
      | cons _ _ _ _ ts v us hweld hs =>
          obtain ⟨rfl, rfl⟩ : ts = shut i w ∧ v = [] := by
            cases hweld with
            | blank _ hb hp => exact ⟨rfl, rfl⟩
            | quoted _ value hk => rcases hk with hk | hk | hk <;> rw [hk] at hℓ <;> cases hℓ.1
            | escape e body value he => cases hℓ.1
            | plain _ hp => rw [hp] at hℓ; cases hℓ.2
          obtain ⟨us, hus, rfl⟩ := hmark (welds_skip hs hgap)
          rw [text_cons, List.length_append, ← Nat.add_assoc]
          exact ⟨us, hus, rfl⟩

/-- The token of a name or a string, as far as it does not depend on the text. -/
structure Stands (i : ℕ) (ℓ : Lexeme) (t : Token) : Prop where
  start : t.start = i
  stop : t.stop = i + ℓ.text.length
  quoted : t.quoted = (ℓ.kind != .name)
  value : ℓ.kind = .name → t.value = ℓ.text

/-- A name or a string between an end of a word and a punctuation mark. -/
theorem welds_stands {c : Char} {ℓ : Lexeme} {r : List Char} (hc : punctuation c = true)
    (h : Welds i w (ℓ :: gap ++ ⟨.punctuation, [c]⟩ :: rest) ts) (hgap : ∀ ℓ ∈ gap, ℓ.skipped = true) (hr : Reads ℓ r)
    (hk : ℓ.kind = .name ∧ w = [] ∨ ℓ.kind = .quotedName ∨ ℓ.kind = .string) :
    ∃ n t us, n = i + ℓ.text.length + (text gap).length ∧ Stands i ℓ t ∧ Welds (n + 1) [] rest us ∧
      ts = shut i w ++ t :: ⟨n, [c], false, n + 1⟩ :: us := by
  cases h with
  | cons _ _ _ _ ts v us hweld hs =>
      obtain ⟨us, hus, rfl⟩ := welds_mark hc hs hgap
      rcases hk with ⟨hk, rfl⟩ | hk
      · obtain ⟨rfl, rfl⟩ : ts = [] ∧ v = ℓ.text := weld_name hweld (name_text hr hk) hk
        have hne : ℓ.text ≠ [] := by
          cases hr with
          | name => exact List.cons_ne_nil _ _
          | _ => cases hk
        refine ⟨_, ⟨i, ℓ.text, false, i + ℓ.text.length⟩, us, rfl, ⟨rfl, rfl, by simp [hk], fun _ => rfl⟩, hus, ?_⟩
        rw [shut, if_neg hne, Nat.add_sub_cancel]
        rfl
      · obtain ⟨value, rfl, rfl⟩ : ∃ value, ts = shut i w ++ [⟨i, value, true, i + ℓ.text.length⟩] ∧ v = [] := by
          cases hweld with
          | blank _ hb => rcases hk with hk | hk <;> rw [hk] at hb <;> cases hb
          | quoted _ value => exact ⟨value, rfl, rfl⟩
          | escape e body value he => rcases hk with hk | hk <;> cases hk
          | plain _ hp => rcases hk with hk | hk <;> simp [Lexeme.plain, hk] at hp
        refine ⟨_, ⟨i, value, true, i + ℓ.text.length⟩, us, rfl, ⟨rfl, rfl, ?_, fun hname => ?_⟩, hus, by simp [shut]⟩
        · rcases hk with hk | hk <;> rw [hk] <;> rfl
        · rcases hk with hk | hk <;> rw [hk] at hname <;> cases hname

theorem lexed_append {a b : List Lexeme} (h : Lexed (a ++ b)) : Lexed b := by
  induction a with
  | nil => exact h
  | cons ℓ a ih => exact ih h.2.2

section Values

variable {sql r : List Char} {ℓ : Lexeme} {t : Token}

theorem Stands.head (h : Stands i ℓ t) (hsql : sql.drop i = ℓ.text ++ r) (hne : ℓ.text ≠ []) :
    (sql.drop t.start).head? = ℓ.text.head? := by
  rw [h.start, hsql, List.head?_append_of_ne_nil _ hne]

theorem Stands.value_quoted (h : Stands i ℓ t) (hs : Spelled sql t) (hsql : sql.drop i = ℓ.text ++ r)
    (hk : ℓ.kind ≠ .name) {c : Char} (hc : delimiter c = true) {body : List Char} (htext : ℓ.text = c :: body) :
    t.value = undouble c ℓ.text.tail.dropLast := by
  have hquoted : t.quoted = true := by
    rw [h.quoted]
    simpa using hk
  have hhead : (sql.drop t.start).head? = some c := by
    rw [h.head hsql (by simp [htext]), htext]
    rfl
  have hdrop : sql.drop (t.start + 1) = body ++ r := by
    rw [h.start, ← List.drop_drop, hsql, htext]
    rfl
  have hlength : t.stop - t.start - 2 = body.length - 1 := by
    rw [h.stop, h.start, htext, List.length_cons]
    omega
  rw [hs.quoted hquoted c hc hhead, hdrop, hlength, htext, List.tail_cons, List.dropLast_eq_take,
    List.take_append_of_le_length (Nat.sub_le _ _)]

end Values

end Stretches

end Wordflow.Scripts
