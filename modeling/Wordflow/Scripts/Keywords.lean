import Wordflow.Scripts.Boundaries

namespace Wordflow.Scripts

open Library Library.Identifier Library.Text

def Lexeme.isKeyword (ℓ : Lexeme) (word : String) : Bool :=
  ℓ.kind == .name && ℓ.text.map Char.toLower == asciiLower word

/-- Whether a lexeme continues the word before it. -/
def Lexeme.joins (ℓ : Lexeme) : Bool :=
  (ℓ.plain && ℓ.text.head?.any (!punctuation ·)) || ℓ.kind == .escapeString

/-- A word of two letters or more. -/
def Letters (word : String) : Prop := (∀ c ∈ asciiLower word, c.isAlpha = true) ∧ 2 ≤ (asciiLower word).length

instance (word : String) : Decidable (Letters word) :=
  decidable_of_iff ((asciiLower word).all Char.isAlpha = true ∧ 2 ≤ (asciiLower word).length) (by simp [Letters])

theorem weld_nil_blank {i : ℕ} {w' : List Char} {ℓ : Lexeme} {ts : List Token} (h : Weld i [] ℓ ts w')
    (hs : ℓ.skipped = true) : ts = [] ∧ w' = [] := by
  simp only [Lexeme.skipped, Bool.and_eq_true, Bool.not_eq_true'] at hs
  cases h with
  | blank _ hb hp => exact ⟨rfl, rfl⟩
  | quoted _ value hk => rcases hk with hk | hk | hk <;> rw [hk] at hs <;> cases hs.1
  | escape e body value he => cases hs.1
  | plain _ hp => rw [hp] at hs; cases hs.2

theorem welds_dropWhile {i : ℕ} {ls : List Lexeme} {ts : List Token} (h : Welds i [] ls ts) :
    ∃ i', Welds i' [] (ls.dropWhile Lexeme.skipped) ts := by
  induction ls generalizing i ts with
  | nil => exact ⟨i, h⟩
  | cons ℓ ls ih =>
      rw [List.dropWhile_cons]
      split
      · rename_i hs
        cases h with
        | cons _ _ _ _ ts w' us hweld hrest =>
            obtain ⟨rfl, rfl⟩ := weld_nil_blank hweld hs
            exact ih hrest
      · exact ⟨i, h⟩

theorem lexed_dropWhile {ls : List Lexeme} {p : Lexeme → Bool} (h : Lexed ls) : Lexed (ls.dropWhile p) := by
  induction ls with
  | nil => trivial
  | cons ℓ ls ih =>
      rw [List.dropWhile_cons]
      split
      · exact ih h.2.2
      · exact h

/-- The word that is open takes the characters up to the first punctuation. -/
theorem feed_first {i : ℕ} {w t : List Char} (hw : w ≠ []) :
    ((∀ c ∈ t, punctuation c = false) ∧ feed i w t = ([], w ++ t)) ∨
      ∃ u v n m us, t = u ++ v ∧ (∀ c ∈ v.head?, punctuation c = true) ∧ v ≠ [] ∧
        (feed i w t).1 = ⟨n, w ++ u, false, m⟩ :: us := by
  induction t generalizing i w with
  | nil => exact .inl ⟨by simp, by simp [feed]⟩
  | cons c t ih =>
      cases hc : punctuation c with
      | true =>
          refine .inr ⟨[], c :: t, i - w.length, i, [⟨i, [c], false, i + 1⟩] ++ (feed (i + 1) [] t).1, rfl,
            by simpa using hc, by simp, ?_⟩
          rw [feed, if_pos hc, shut, if_neg hw]
          simp
      | false =>
          have hf : feed i w (c :: t) = feed (i + 1) (w ++ [c]) t := by rw [feed, if_neg (by simp [hc])]
          rw [hf]
          rcases ih (i := i + 1) (w := w ++ [c]) (by simp) with ⟨hall, hfeed⟩ | ⟨u, v, n, m, us, rfl, hv, hne, hfeed⟩
          · exact .inl ⟨List.forall_mem_cons.mpr ⟨hc, hall⟩, by rw [hfeed]; simp⟩
          · exact .inr ⟨c :: u, v, n, m, us, rfl, hv, hne, by rw [hfeed]; simp⟩

/-- The token of the open word: what follows either leaves it as it is or goes on
with the first character of the next lexeme. -/
theorem welds_word {i : ℕ} {w : List Char} {ls : List Lexeme} {ts : List Token} (h : Welds i w ls ts) (hw : w ≠ [])
    (hne : ∀ ℓ ∈ ls, ℓ.text ≠ []) :
    ∃ v n m us, ts = ⟨n, w ++ v, false, m⟩ :: us ∧
      (ls.head?.any Lexeme.joins = false → v = [] ∧ ∃ i', Welds i' [] ls us) ∧
      ∀ ℓ ∈ ls.head?, ℓ.joins = true → v.head? = ℓ.text.head? := by
  induction h with
  | nil i w =>
      refine ⟨[], _, _, [], by rw [shut, if_neg hw, List.append_nil], fun _ => ⟨rfl, i, .nil i []⟩, by simp⟩
  | cons i w ℓ ls ts w' us hweld hs ih =>
      have hls : ∀ m ∈ ls, m.text ≠ [] := fun m hm => hne m (List.mem_cons_of_mem _ hm)
      have hshut : shut i w = [⟨i - w.length, w, false, i⟩] := by rw [shut, if_neg hw]
      simp only [List.head?_cons, Option.mem_def, Option.some.injEq, forall_eq']
      cases hweld with
      | blank _ hb hp =>
          refine ⟨[], i - w.length, i, us, by rw [hshut, List.append_nil]; rfl, fun _ => ⟨rfl, i, ?_⟩, fun hj => ?_⟩
          · exact .cons i [] ℓ ls [] [] us (.blank i [] ℓ hb hp) hs
          · have hk : ℓ.kind ≠ .escapeString := by
              rintro hk
              rw [hk] at hb
              cases hb
            simp [Lexeme.joins, hp, hk] at hj
      | quoted _ value hk =>
          refine ⟨[], i - w.length, i, ⟨i, value, true, i + ℓ.text.length⟩ :: us,
            by rw [hshut, List.append_nil]; rfl, fun _ => ⟨rfl, i, ?_⟩, fun hj => ?_⟩
          · exact .cons i [] ℓ ls _ [] us (.quoted i [] ℓ value hk) hs
          · have hp : ℓ.plain = false := by
              rcases hk with hk | hk | hk <;> simp [Lexeme.plain, hk]
            rcases hk with hk | hk | hk <;> simp [Lexeme.joins, hp, hk] at hj
      | escape e body value he =>
          refine ⟨[e], _, _, _, by rw [shut, if_neg (by simp)]; rfl, fun hj => ?_, fun _ => rfl⟩
          simp [Lexeme.joins] at hj
      | plain _ hp =>
          obtain ⟨c, t, hct⟩ := List.exists_cons_of_ne_nil (hne ℓ List.mem_cons_self)
          cases hc : punctuation c with
          | true =>
              have hfeed : ∀ v, feed i v ℓ.text =
                  (shut i v ++ ([⟨i, [c], false, i + 1⟩] ++ (feed (i + 1) [] t).1), (feed (i + 1) [] t).2) := by
                intro v
                rw [hct, feed, if_pos hc, List.append_assoc]
              refine ⟨[], i - w.length, i, ([⟨i, [c], false, i + 1⟩] ++ (feed (i + 1) [] t).1) ++ us, ?_,
                fun _ => ⟨rfl, i, ?_⟩, fun hj => ?_⟩
              · rw [hfeed, hshut, List.append_nil]
                rfl
              · have := Welds.cons i [] ℓ ls _ _ us (.plain i [] ℓ hp) (by rw [hfeed] at hs ⊢; exact hs)
                rwa [hfeed] at this
              · have hk : ℓ.kind ≠ .escapeString := by
                  rintro hk
                  simp [Lexeme.plain, hk] at hp
                simp [Lexeme.joins, hct, hc, hk] at hj
          | false =>
              have hj : ℓ.joins = true := by simp [Lexeme.joins, hp, hct, hc]
              rcases feed_first (i := i) (t := ℓ.text) hw with ⟨hall, hfeed⟩ | ⟨u, v, n, m, us', huv, hv, hvne, hfeed⟩
              · rw [hfeed] at hs ih ⊢
                obtain ⟨v, n, m, us', rfl, -, -⟩ := ih (by simp [hw]) hls
                refine ⟨ℓ.text ++ v, n, m, us', by simp, fun h => ?_, fun _ => by simp [hct]⟩
                rw [Option.any_some, hj] at h
                cases h
              · refine ⟨u, n, m, us' ++ us, by rw [hfeed]; rfl, fun h => ?_, fun _ => ?_⟩
                · rw [Option.any_some, hj] at h
                  cases h
                · cases u with
                  | nil =>
                      rw [List.nil_append] at huv
                      have := hv c (by rw [← huv, hct]; rfl)
                      rw [hc] at this
                      cases this
                  | cons d u => simp [huv]

theorem is_keyword {t : Token} {word : String} (hw : Letters word) (h : t.is word = true) :
    t.quoted = false ∧ t.value.map Char.toLower = asciiLower word ∧ (∀ c ∈ t.value, c.isAlpha = true) ∧
      2 ≤ t.value.length := by
  simp only [Token.is, Bool.and_eq_true, Bool.not_eq_true', beq_iff_eq] at h
  obtain ⟨hq, hv⟩ := h
  refine ⟨hq, hv, fun c hc => isAlpha_of_toLower (hw.1 _ ?_), ?_⟩
  · rw [← hv]
    exact List.mem_map_of_mem hc
  · have := hw.2
    rwa [← hv, List.length_map] at this

theorem isAlpha_facts {c : Char} (h : c.isAlpha = true) :
    isWhitespace c = false ∧ punctuation c = false ∧ c.isDigit = false ∧ c ≠ '$' := by
  have hn := (nameRest_facts (c := c) (by simp [nameRest, tagRest, nameStart, h])).2.2.1
  have hd : c ≠ '$' := by
    rintro rfl
    cases h
  simp only [isAlpha_eq, isUpper_eq, isLower_eq, Bool.or_eq_true, Bool.and_eq_true, decide_eq_true_eq,
    UInt32.le_iff_toNat_le, ge_iff_le] at h
  have hA : 'A'.val.toNat = 65 := rfl
  have hZ : 'Z'.val.toNat = 90 := rfl
  have ha : 'a'.val.toNat = 97 := rfl
  have hz : 'z'.val.toNat = 122 := rfl
  have hc : c.toNat = c.val.toNat := rfl
  refine ⟨?_, hn, ?_, hd⟩
  · rw [← Bool.not_eq_true]
    simp only [isWhitespace, Bool.or_eq_true, Bool.and_eq_true, decide_eq_true_eq, beq_iff_eq]
    omega
  · rw [← Bool.not_eq_true]
    simp only [Char.isDigit, Bool.and_eq_true, decide_eq_true_eq, UInt32.le_iff_toNat_le, ge_iff_le]
    have h0 : '0'.val.toNat = 48 := rfl
    have h9 : '9'.val.toNat = 57 := rfl
    omega

/-- A plain lexeme that starts with a letter is a name. -/
theorem name_of_isAlpha {ℓ : Lexeme} {rest : List Char} (h : Reads ℓ rest) (hp : ℓ.plain = true) {c : Char}
    (hc : ℓ.text.head? = some c) (ha : c.isAlpha = true) : ℓ.kind = .name := by
  obtain ⟨hw, hpunct, hdigit, hd⟩ := isAlpha_facts ha
  cases h with
  | name => rfl
  | space d rest h =>
      obtain rfl : d = c := by simpa using hc
      rw [hw] at h
      cases h
  | number s rest h hs =>
      obtain ⟨u, hu⟩ := List.head?_eq_some_iff.mp hc
      have hcons : s = c :: (u ++ rest) := by
        rw [hs]
        exact congrArg (· ++ rest) hu
      rw [hcons, numberStart_cons] at h
      split at h
      · rename_i hdot
        subst hdot
        cases ha
      · rw [hdigit] at h
        cases h
  | parameter ds rest =>
      obtain rfl : '$' = c := by simpa using hc
      exact absurd rfl hd
  | dollarSign rest =>
      obtain rfl : '$' = c := by simpa using hc
      exact absurd rfl hd
  | punctuation d rest h =>
      obtain rfl : d = c := by simpa using hc
      rw [hpunct] at h
      cases h
  | operator d s rest h hs =>
      have := operator_all _ _ (List.mem_of_mem_head? hc)
      simp [operatorChar, nameRest, tagRest, nameStart, ha] at this
  | _ => cases hp

theorem lexed_ne_nil {ls : List Lexeme} (h : Lexed ls) : ∀ ℓ ∈ ls, ℓ.text ≠ [] := by
  induction ls with
  | nil => simp
  | cons ℓ ls ih => exact List.forall_mem_cons.mpr ⟨h.2.1, ih h.2.2⟩

theorem name_text {ℓ : Lexeme} {rest : List Char} (h : Reads ℓ rest) (hk : ℓ.kind = .name) :
    ∀ c ∈ ℓ.text, punctuation c = false := by
  cases h with
  | name c body rest hc h =>
      intro d hd
      refine (nameRest_facts ?_).2.2.1
      rcases List.mem_cons.mp hd with rfl | hd
      · simp [nameRest, tagRest, hc]
      · exact h d hd
  | _ => cases hk

theorem weld_name {i : ℕ} {w w' : List Char} {ℓ : Lexeme} {ts : List Token} (h : Weld i w ℓ ts w')
    (htext : ∀ c ∈ ℓ.text, punctuation c = false) (hk : ℓ.kind = .name) : ts = [] ∧ w' = w ++ ℓ.text := by
  cases h with
  | blank _ hb => rw [hk] at hb; cases hb
  | quoted _ value hq => rcases hq with hq | hq | hq <;> rw [hk] at hq <;> cases hq
  | escape e body value he => cases hk
  | plain _ _ => rw [feed_of_not_punctuation htext]; exact ⟨rfl, rfl⟩

/-- The first token over a name is the name, unless something is glued to it. -/
theorem first_name {i : ℕ} {ℓ : Lexeme} {ls : List Lexeme} {ts : List Token} (h : Welds i [] (ℓ :: ls) ts)
    (hls : Lexed (ℓ :: ls)) (hk : ℓ.kind = .name) : ∃ v n m us, ts = ⟨n, ℓ.text ++ v, false, m⟩ :: us ∧
      (ls.head?.any Lexeme.joins = false → v = [] ∧ ∃ i', Welds i' [] ls us) ∧
      (ls.head?.any Lexeme.joins = true → ∃ c ∈ v, c.isAlpha = false) := by
  obtain ⟨hr, hne, hrest⟩ := hls
  have hp : ℓ.plain = true := by simp [Lexeme.plain, hk]
  cases h with
  | cons _ _ _ _ ts w' us hweld hs =>
      obtain ⟨rfl, rfl⟩ : ts = [] ∧ w' = ℓ.text := weld_name hweld (name_text hr hk) hk
      obtain ⟨v, n, m, us', rfl, hfree, hjoins⟩ := welds_word hs hne (lexed_ne_nil hrest)
      refine ⟨v, n, m, us', rfl, hfree, fun hj => ?_⟩
      cases ls with
      | nil => cases hj
      | cons ℓ' ls =>
          have hv := hjoins ℓ' rfl hj
          obtain ⟨c, t, hct⟩ := List.exists_cons_of_ne_nil hrest.2.1
          rw [hct, List.head?_cons] at hv
          refine ⟨c, List.mem_of_mem_head? hv, ?_⟩
          have hhead : (text (ℓ' :: ls)).head? = some c := by rw [text_cons, hct]; rfl
          generalize text (ℓ' :: ls) = rest at hr hhead
          cases hr with
          | name d body rest hd hbody hnext =>
              have := hnext c hhead
              rw [← Bool.not_eq_true]
              intro ha
              simp [nameRest, tagRest, nameStart, ha] at this
          | _ => cases hk

/-- The first token over lexemes of which the first is seen: it is a keyword only
if the lexeme is and stands apart from the next. -/
theorem first_token {i : ℕ} {ℓ : Lexeme} {ls : List Lexeme} {ts : List Token} (h : Welds i [] (ℓ :: ls) ts)
    (hls : Lexed (ℓ :: ls)) (hs : ℓ.skipped = false) {word : String} (hw : Letters word) :
    ts.head?.any (·.is word) = (ℓ.isKeyword word && !ls.head?.any Lexeme.joins) := by
  by_cases hk : ℓ.kind = .name
  · obtain ⟨v, n, m, us, rfl, hfree, hjoins⟩ := first_name h hls hk
    rw [List.head?_cons, Option.any_some]
    cases hj : ls.head?.any Lexeme.joins with
    | false =>
        obtain ⟨rfl, -⟩ := hfree hj
        simp [Token.is, Lexeme.isKeyword, hk]
    | true =>
        obtain ⟨c, hc, ha⟩ := hjoins hj
        rw [Bool.not_true, Bool.and_false, ← Bool.not_eq_true]
        intro his
        have := (is_keyword hw his).2.2.1 c (List.mem_append_right _ hc)
        rw [ha] at this
        cases this
  · have hnot : ℓ.isKeyword word = false := by simp [Lexeme.isKeyword, hk]
    rw [hnot, Bool.false_and, ← Bool.not_eq_true]
    intro his
    obtain ⟨f, hf, his⟩ : ∃ f, ts.head? = some f ∧ f.is word = true := by
      simpa [Option.any_eq_true] using his
    obtain ⟨hq, -, halpha, hlen⟩ := is_keyword hw his
    obtain ⟨hr, hne, hrest⟩ := hls
    cases h with
    | cons _ _ _ _ ts w' us hweld hs' =>
        cases hweld with
        | blank _ hb hp => simp [Lexeme.skipped, hb, hp] at hs
        | quoted _ value hk' =>
            obtain rfl : (⟨i, value, true, i + ℓ.text.length⟩ : Token) = f := by simpa [shut] using hf
            cases hq
        | escape e body value he =>
            obtain rfl : (⟨i + 1 - 1, [e], false, i + 1⟩ : Token) = f := by simpa [shut] using hf
            simp at hlen
        | plain _ hp =>
            obtain ⟨c, t, hct⟩ := List.exists_cons_of_ne_nil hne
            have hc : c.isAlpha = false := by
              rw [← Bool.not_eq_true]
              exact fun ha => hk (name_of_isAlpha hr hp (by rw [hct]; rfl) ha)
            rw [hct] at hf hs'
            cases hpc : punctuation c with
            | true =>
                obtain rfl : (⟨i, [c], false, i + 1⟩ : Token) = f := by simpa [feed, hpc, shut] using hf
                simp at hlen
            | false =>
                have hfeed : feed i [] (c :: t) = feed (i + 1) [c] t := by
                  rw [feed, if_neg (by simp [hpc]), List.nil_append]
                rw [hfeed] at hf hs'
                have hmem : c ∈ f.value := by
                  rcases feed_first (i := i + 1) (t := t) (List.cons_ne_nil c []) with
                    ⟨-, hfeed⟩ | ⟨u, v, n, m, us', -, -, -, hfeed⟩
                  · rw [hfeed] at hf hs'
                    obtain ⟨v, n, m, us', rfl, -, -⟩ := welds_word hs' (by simp) (lexed_ne_nil hrest)
                    obtain rfl : (⟨n, [c] ++ t ++ v, false, m⟩ : Token) = f := by simpa using hf
                    simp
                  · obtain rfl : (⟨n, [c] ++ u, false, m⟩ : Token) = f := by simpa [hfeed] using hf
                    simp
                rw [halpha c hmem] at hc
                cases hc

def tokenList (ls : List Lexeme) : List Lexeme := ls.filter Lexeme.isToken

/-- The lexemes after the first token. -/
def afterFirst (ls : List Lexeme) : List Lexeme := (ls.dropWhile (!·.isToken)).tail

/-- The first token is the first thing that the lexer sees, and nothing is glued to
it. -/
def apart (ls : List Lexeme) : Bool :=
  match ls.dropWhile Lexeme.skipped with
  | [] => true
  | ℓ :: rest => ℓ.isToken && !rest.head?.any Lexeme.joins

theorem not_isToken_of_skipped {ℓ : Lexeme} (h : ℓ.skipped = true) : ℓ.isToken = false := by
  simp only [Lexeme.skipped, Bool.and_eq_true] at h
  simp [Lexeme.isToken, h.1]

theorem isToken_of_isKeyword {ℓ : Lexeme} {word : String} (h : ℓ.isKeyword word = true) : ℓ.isToken = true := by
  simp only [Lexeme.isKeyword, Bool.and_eq_true, beq_iff_eq] at h
  simp [Lexeme.isToken, h.1, Kind.blank]

theorem dropWhile_skipped {ls rest : List Lexeme} {ℓ : Lexeme} (h : ls.dropWhile Lexeme.skipped = ℓ :: rest)
    (ht : ℓ.isToken = true) : ls.dropWhile (!·.isToken) = ℓ :: rest := by
  induction ls with
  | nil => cases h
  | cons m ls ih =>
      rw [List.dropWhile_cons] at h ⊢
      cases hm : m.skipped with
      | true =>
          rw [hm, if_pos rfl] at h
          simp only [not_isToken_of_skipped hm, Bool.not_false, if_true]
          exact ih h
      | false =>
          simp only [hm, Bool.false_eq_true, if_false] at h
          obtain ⟨rfl, rfl⟩ := List.cons.inj h
          simp [ht]

theorem tokenList_eq {ls rest : List Lexeme} {ℓ : Lexeme} (h : ls.dropWhile (!·.isToken) = ℓ :: rest) :
    tokenList ls = ℓ :: tokenList rest := by
  induction ls with
  | nil => cases h
  | cons m ls ih =>
      rw [List.dropWhile_cons] at h
      cases hm : m.isToken with
      | true =>
          simp only [hm, Bool.not_true, Bool.false_eq_true, if_false] at h
          obtain ⟨rfl, rfl⟩ := List.cons.inj h
          simp [tokenList, hm]
      | false =>
          simp only [hm, Bool.not_false, if_true] at h
          rw [← ih h]
          simp [tokenList, hm]

theorem tokenList_eq_nil {ls : List Lexeme} (h : ls.dropWhile Lexeme.skipped = []) : tokenList ls = [] := by
  rw [tokenList, List.filter_eq_nil_iff]
  intro ℓ hℓ
  rw [List.dropWhile_eq_nil_iff] at h
  simp [not_isToken_of_skipped (h ℓ hℓ)]

section First

variable {i : ℕ} {ls : List Lexeme} {ts : List Token}

/-- The lexer and the grammar agree on the keyword that comes first. -/
theorem first_keyword (h : Welds i [] ls ts) (hls : Lexed ls) {word : String} (hw : Letters word)
    (hapart : (tokenList ls).head?.any (·.isKeyword word) = true → apart ls = true) :
    ts.head?.any (·.is word) = (tokenList ls).head?.any (·.isKeyword word) := by
  obtain ⟨i', hd⟩ := welds_dropWhile h
  have hlexed := lexed_dropWhile (p := Lexeme.skipped) hls
  cases hdrop : ls.dropWhile Lexeme.skipped with
  | nil =>
      rw [hdrop] at hd
      cases hd
      rw [tokenList_eq_nil hdrop]
      rfl
  | cons ℓ rest =>
      have hskip : ℓ.skipped = false := by
        have := List.head?_dropWhile_not Lexeme.skipped ls
        rw [hdrop] at this
        simpa using this
      rw [hdrop] at hd hlexed
      rw [first_token hd hlexed hskip hw]
      simp only [apart, hdrop] at hapart
      cases ht : ℓ.isToken with
      | true =>
          rw [tokenList_eq (dropWhile_skipped hdrop ht), List.head?_cons, Option.any_some] at hapart ⊢
          cases hk : ℓ.isKeyword word with
          | false => rfl
          | true => simpa [ht] using hapart hk
      | false =>
          have hk : ℓ.isKeyword word = false := by
            rw [← Bool.not_eq_true]
            intro hk
            rw [isToken_of_isKeyword hk] at ht
            cases ht
          rw [hk, Bool.false_and]
          symm
          rw [← Bool.not_eq_true]
          intro hf
          have := hapart hf
          rw [ht] at this
          cases this

/-- What the lexer reads after a keyword that comes first. -/
theorem after_keyword (h : Welds i [] ls ts) (hls : Lexed ls) {word : String} (hapart : apart ls = true)
    (hk : (tokenList ls).head?.any (·.isKeyword word) = true) :
    ∃ f us i', ts = f :: us ∧ Welds i' [] (afterFirst ls) us ∧ Lexed (afterFirst ls) ∧
      (tokenList ls).tail = tokenList (afterFirst ls) := by
  obtain ⟨i', hd⟩ := welds_dropWhile h
  have hlexed := lexed_dropWhile (p := Lexeme.skipped) hls
  cases hdrop : ls.dropWhile Lexeme.skipped with
  | nil =>
      rw [tokenList_eq_nil hdrop] at hk
      cases hk
  | cons ℓ rest =>
      rw [hdrop] at hd hlexed
      simp only [apart, hdrop, Bool.and_eq_true, Bool.not_eq_true'] at hapart
      obtain ⟨ht, hj⟩ := hapart
      have hdw := dropWhile_skipped hdrop ht
      have htl := tokenList_eq hdw
      rw [htl, List.head?_cons, Option.any_some, Lexeme.isKeyword, Bool.and_eq_true, beq_iff_eq] at hk
      obtain ⟨v, n, m, us, rfl, hfree, -⟩ := first_name hd hlexed hk.1
      obtain ⟨rfl, i'', hus⟩ := hfree hj
      have hafter : afterFirst ls = rest := by rw [afterFirst, hdw, List.tail_cons]
      refine ⟨_, us, i'', rfl, ?_, ?_, ?_⟩
      · rwa [hafter]
      · rw [hafter]
        exact hlexed.2.2
      · rw [hafter, htl, List.tail_cons]

end First

end Wordflow.Scripts
