import Wordflow.Ddl.Reading
import Wordflow.Scripts.Spelling

namespace Wordflow.Ddl

open Library Library.Identifier Library.Quoting Library.Text Scripts

theorem mem_windows {α : Type*} {n : ℕ} {items window : List α} :
    window ∈ windows n items ↔ window.length = n ∧ ∃ us vs, items = us ++ (window ++ vs) := by
  rw [windows, List.mem_filter, List.mem_map]
  constructor
  · rintro ⟨⟨suffix, hsuffix, rfl⟩, hlength⟩
    obtain ⟨us, hus⟩ := (List.mem_tails _ _).mp hsuffix
    exact ⟨by simpa using hlength, us, suffix.drop n, by rw [List.take_append_drop, hus]⟩
  · rintro ⟨rfl, us, vs, rfl⟩
    exact ⟨⟨window ++ vs, (List.mem_tails _ _).mpr (List.suffix_append _ _), List.take_left⟩, by simp⟩

/-- The lexemes up to the end of the first `n` tokens. -/
def reach : ℕ → List Lexeme → List Lexeme
  | 0, _ => []
  | _ + 1, [] => []
  | n + 1, ℓ :: ls => ℓ :: reach (if ℓ.isToken then n else n + 1) ls

/-- A name begins a word of its own, and the lexer passes over what stands between it
and the `n` tokens after it. -/
structure Apart (n : ℕ) (a : List Lexeme) (ℓ : Lexeme) (ls : List Lexeme) : Prop where
  before : ℓ.kind = .name → ∀ m ∈ a.getLast?, m.leaves = false
  after : ∀ m ∈ reach n ls, m.isToken = true ∨ m.skipped = true

theorem reach_append {n : ℕ} {gap rest : List Lexeme} {ℓ : Lexeme} (hgap : ∀ m ∈ gap, m.isToken = false)
    (hℓ : ℓ.isToken = true) : reach (n + 1) (gap ++ ℓ :: rest) = gap ++ ℓ :: reach n rest := by
  induction gap with
  | nil => rw [List.nil_append, reach, if_pos hℓ, List.nil_append]
  | cons m gap ih =>
      obtain ⟨hm, hgap⟩ := List.forall_mem_cons.mp hgap
      rw [List.cons_append, reach, if_neg (by simp [hm]), ih hgap, List.cons_append]

/-- The first token after a place, and that the lexer passes over what stands before it. -/
theorem reach_skipped {n : ℕ} {ls : List Lexeme} {ℓ : Lexeme} {tokens : List Lexeme}
    (h : ∀ m ∈ reach (n + 1) ls, m.isToken = true ∨ m.skipped = true) (htokens : ls.filter Lexeme.isToken = ℓ :: tokens) :
    ∃ gap rest, ls = gap ++ ℓ :: rest ∧ (∀ m ∈ gap, m.skipped = true) ∧ rest.filter Lexeme.isToken = tokens ∧
      ∀ m ∈ reach n rest, m.isToken = true ∨ m.skipped = true := by
  obtain ⟨gap, rest, rfl, hgap, hℓ, hrest⟩ := filter_eq_cons htokens
  rw [reach_append hgap hℓ] at h
  refine ⟨gap, rest, rfl, fun m hm => ?_, hrest, fun m hm => h m (by simp [hm])⟩
  exact (h m (List.mem_append_left _ hm)).resolve_left (by simp [hgap m hm])

section Values

variable {sql r : List Char} {i : ℕ} {ℓ : Lexeme} {t : Token}

theorem value_of_name (h : Stands i ℓ t) (hs : Spelled sql t) (hsql : sql.drop i = ℓ.text ++ r) (hr : Reads ℓ r) :
    nameValue ℓ = if ℓ.kind = .name ∨ ℓ.kind = .quotedName then some t.value else none := by
  cases hr with
  | name c body rest => simp [nameValue, h.value rfl]
  | quotedName body rest hbody =>
      have hvalue := h.value_quoted hs hsql (by simp) (c := '"') rfl rfl
      simp [nameValue, hvalue]
  | _ => simp [nameValue]

theorem value_of_string (h : Stands i ℓ t) (hs : Spelled sql t) (hsql : sql.drop i = ℓ.text ++ r) (hr : Reads ℓ r)
    (hk : ℓ.kind = .string) : t.value = stringValue ℓ ∧ startsString sql t = true := by
  cases hr with
  | string body rest hbody =>
      refine ⟨h.value_quoted hs hsql (by simp) (c := '\'') rfl rfl, ?_⟩
      rw [startsString, h.head hsql (by simp)]
      rfl
  | _ => cases hk

theorem not_startsString (h : Stands i ℓ t) (hsql : sql.drop i = ℓ.text ++ r) (hr : Reads ℓ r)
    (hk : ℓ.kind = .name ∨ ℓ.kind = .quotedName) : startsString sql t = false := by
  cases hr with
  | name c body rest hc =>
      have hquote : c ≠ '\'' := (nameStart_facts hc).2.2.2.1
      rw [startsString, h.head hsql (List.cons_ne_nil _ _)]
      simpa using hquote
  | quotedName body rest hbody =>
      rw [startsString, h.head hsql (List.cons_ne_nil _ _)]
      rfl
  | _ => rcases hk with hk | hk <;> cases hk

end Values

section Places

variable {database : String} {sql : List Char} {i n : ℕ} {a ls : List Lexeme} {ℓ : Lexeme} {ts : List Token}

/-- The lexer between two words of a text: the lexemes and the tokens to come. -/
structure Place (sql : List Char) (i : ℕ) (ls : List Lexeme) (ts : List Token) : Prop where
  welds : Welds i [] ls ts
  lexed : Lexed ls
  drop : sql.drop i = text ls

/-- A name or a string with a punctuation mark after it. -/
structure Part (sql : List Char) (i : ℕ) (ℓ : Lexeme) (c : Char) (t : Token) (rest : List Lexeme) (us : List Token) (n : ℕ) : Prop where
  stands : Stands i ℓ t
  reads : ∃ r, sql.drop i = ℓ.text ++ r ∧ Reads ℓ r
  place : Place sql (n + 1) rest us

theorem drop_text {b : List Lexeme} (h : sql.drop i = text (a ++ b)) : sql.drop (i + (text a).length) = text b := by
  rw [← List.drop_drop, h, text_append, List.drop_left]

/-- The first part of a text where it may go on an open word. -/
theorem part_here {w : List Char} {c : Char} {gap rest : List Lexeme} (hc : punctuation c = true)
    (h : Welds i w (ℓ :: gap ++ mark c :: rest) ts) (hlexed : Lexed (ℓ :: gap ++ mark c :: rest))
    (hsql : sql.drop i = text (ℓ :: gap ++ mark c :: rest)) (hgap : ∀ m ∈ gap, m.skipped = true)
    (hk : ℓ.kind = .name ∧ w = [] ∨ ℓ.kind = .quotedName ∨ ℓ.kind = .string) :
    ∃ t us, ts = shut i w ++ t :: ⟨i + ℓ.text.length + (text gap).length, [c], false, i + ℓ.text.length + (text gap).length + 1⟩ :: us ∧
      Part sql i ℓ c t rest us (i + ℓ.text.length + (text gap).length) := by
  obtain ⟨_, t, us, rfl, ht, hus, rfl⟩ := welds_stands hc h hgap hlexed.1 hk
  refine ⟨t, us, rfl, ht, ⟨_, hsql, hlexed.1⟩, hus, ?_, ?_⟩
  · rw [List.append_cons] at hlexed
    exact lexed_append hlexed
  · rw [List.append_cons] at hsql
    rw [← drop_text hsql]
    simp [mark, Nat.add_assoc]

/-- The next part of a text, after lexemes that are passed over. -/
theorem Place.part {c : Char} {tokens : List Lexeme} (h : Place sql i ls ts) (hc : punctuation c = true)
    (hreach : ∀ m ∈ reach (n + 2) ls, m.isToken = true ∨ m.skipped = true)
    (htokens : ls.filter Lexeme.isToken = ℓ :: mark c :: tokens)
    (hk : ℓ.kind = .name ∨ ℓ.kind = .quotedName ∨ ℓ.kind = .string) :
    ∃ gap rest t us m, Part sql (i + (text gap).length) ℓ c t rest us m ∧ ts = t :: ⟨m, [c], false, m + 1⟩ :: us ∧
      (∃ gap', ls = gap ++ ℓ :: (gap' ++ mark c :: rest)) ∧ rest.filter Lexeme.isToken = tokens ∧
      ∀ m ∈ reach n rest, m.isToken = true ∨ m.skipped = true := by
  obtain ⟨gap, after, rfl, hgap, hafter, hreach⟩ := reach_skipped hreach htokens
  obtain ⟨gap', rest, rfl, hgap', hrest, hreach⟩ := reach_skipped hreach hafter
  obtain ⟨t, us, rfl, hpart⟩ := part_here hc (welds_skip h.welds hgap) (lexed_append h.lexed) (drop_text h.drop) hgap'
    (hk.imp_left fun hk => ⟨hk, rfl⟩)
  exact ⟨gap, rest, t, us, _, hpart, rfl, ⟨gap', rfl⟩, hrest, hreach⟩

/-- Where a name is, there is a token. -/
theorem Place.exists_token {tokens : List Lexeme} (h : Place sql i ls ts)
    (hreach : ∀ m ∈ reach (n + 1) ls, m.isToken = true ∨ m.skipped = true)
    (htokens : ls.filter Lexeme.isToken = ℓ :: tokens) (hk : ℓ.kind = .name ∨ ℓ.kind = .quotedName) : ∃ t us, ts = t :: us := by
  obtain ⟨gap, after, rfl, hgap, hafter, hreach⟩ := reach_skipped hreach htokens
  have hwelds := welds_skip h.welds hgap
  rcases hk with hk | hk
  · obtain ⟨v, n, m, us, rfl, -⟩ := first_name hwelds (lexed_append h.lexed) hk
    exact ⟨_, us, rfl⟩
  · cases hwelds with
    | cons _ _ _ _ ts v us hweld hs =>
        cases hweld with
        | blank _ hb => rw [hk] at hb; cases hb
        | quoted _ value => exact ⟨_, us, rfl⟩
        | escape e body value he => cases hk
        | plain _ hp => simp [Lexeme.plain, hk] at hp

theorem kind_of_nameValue (h : (nameValue ℓ).isSome = true) : ℓ.kind = .name ∨ ℓ.kind = .quotedName := by
  rw [nameValue] at h
  split at h
  · exact .inl ‹_›
  · exact .inr ‹_›
  · cases h

variable {L gap rest : List Lexeme} (hwelds : Welds 0 [] L ts) (hlexed : Lexed L) (hspelled : ∀ t ∈ ts, Spelled sql t)
  (hsql : sql = text L)

include hwelds hlexed in
/-- The lexer comes to a lexeme that begins a word of its own with no word open. -/
theorem welds_at (hL : L = a ++ ℓ :: ls) (hbefore : ℓ.kind = .name → ∀ m ∈ a.getLast?, m.leaves = false)
    (hk : ℓ.kind = .name ∨ ℓ.kind = .quotedName ∨ ℓ.kind = .string) :
    ∃ w us vs, ts = us ++ vs ∧ Welds (text a).length w (ℓ :: ls) vs ∧
      (ℓ.kind = .name ∧ w = [] ∨ ℓ.kind = .quotedName ∨ ℓ.kind = .string) := by
  subst hL
  have hne : ∀ m ∈ a, m.text ≠ [] := fun m hm => lexed_ne_nil hlexed m (List.mem_append_left _ hm)
  obtain ⟨us, w, vs, rfl, hvs, hnil, hlast⟩ := welds_append hwelds hne
  rw [Nat.zero_add] at hvs
  refine ⟨w, us, vs, rfl, hvs, hk.imp_left fun hk => ⟨hk, ?_⟩⟩
  rcases eq_or_ne a [] with rfl | ha
  · exact hnil rfl
  · have hlast' := List.getLast?_eq_getLast_of_ne_nil ha
    exact hlast _ hlast' (hbefore hk _ hlast')

include hwelds hlexed hspelled hsql in
/-- The window of a database part. -/
theorem qualified_window (hL : L = a ++ ℓ :: ls) (hq : Qualified database ℓ ls gap rest) (hapart : Apart 4 a ℓ ls) :
    ∃ window ∈ windows 5 ts, qualifierEdit sql database window =
      some ⟨(text a).length, (text a).length + ℓ.text.length + (text gap).length + 1, []⟩ := by
  have hvalue : (nameValue ℓ).isSome = true := by
    obtain ⟨v, hv, -⟩ := (Option.any_eq_true _ _).mp hq.name
    rw [hv]
    rfl
  have hkind := kind_of_nameValue hvalue
  obtain ⟨w, us, vs, rfl, hvs, hk⟩ := welds_at hwelds hlexed hL hapart.before (hkind.imp_right .inl)
  obtain ⟨p2, p4, more, htokens, hp2, hp4⟩ := hq.ahead
  have hreach := hapart.after
  rw [hq.split, reach_append hq.gap rfl] at hreach
  have hgap : ∀ m ∈ gap, m.skipped = true := fun m hm =>
    (hreach m (List.mem_append_left _ hm)).resolve_left (by simp [hq.gap m hm])
  have hrest : ∀ m ∈ reach 3 rest, m.isToken = true ∨ m.skipped = true := fun m hm => hreach m (by simp [hm])
  -- the database part, its schema and its object are read one after the other
  rw [hq.split] at hvs hL
  have hdrop : sql.drop (text a).length = text (ℓ :: gap ++ mark '.' :: rest) := by
    rw [hsql, hL, text_append, List.drop_left]
    rfl
  obtain ⟨t0, vs, rfl, hfirst⟩ := part_here rfl hvs (lexed_append (hL ▸ hlexed)) hdrop hgap hk
  generalize hn : (text a).length + ℓ.text.length + (text gap).length = n at hfirst hspelled ⊢
  obtain ⟨_, rest', t2, vs, m, hsecond, rfl, -, htokens, hrest⟩ := hfirst.place.part (n := 1) rfl hrest htokens
    ((kind_of_nameValue hp2).imp_right .inl)
  obtain ⟨t4, vs, rfl⟩ := hsecond.place.exists_token hrest htokens (kind_of_nameValue hp4)
  refine ⟨[t0, ⟨n, ['.'], false, n + 1⟩, t2, ⟨m, ['.'], false, m + 1⟩, t4],
    mem_windows.mpr ⟨rfl, us ++ shut (text a).length w, vs, by simp⟩, ?_⟩
  obtain ⟨r, hr, hreads⟩ := hfirst.reads
  have hname : nameValue ℓ = some t0.value := by
    rw [value_of_name hfirst.stands (hspelled t0 (by simp)) hr hreads, if_pos hkind]
  have hsame : sameName database t0.value = true := by
    have hany := hq.name
    rwa [hname, Option.any_some] at hany
  have hstring : startsString sql t0 = false := not_startsString hfirst.stands hr hreads hkind
  rw [qualifierEdit, hsame, hstring, hfirst.stands.start]
  rfl

theorem kind_of_isSequenceFunction (h : isSequenceFunction ℓ = true) : ℓ.kind = .name := by
  simp only [isSequenceFunction, Lexeme.isKeyword, Bool.or_eq_true, Bool.and_eq_true, beq_iff_eq] at h
  exact h.elim And.left And.left

theorem isSequenceFunction_eq {t : Token} (h : Stands i ℓ t) (hk : ℓ.kind = .name) :
    (t.is "nextval" || t.is "currval") = isSequenceFunction ℓ := by
  simp [isSequenceFunction, Token.is, Lexeme.isKeyword, h.quoted, h.value hk, hk]

/-- The tokens of a call: what stands between them is passed over. -/
theorem reach_call {b : List Lexeme} (hb : b.filter Lexeme.isToken = [mark '(']) (hℓ : ℓ.isToken = true)
    (hclose : (ls.filter Lexeme.isToken).head? = some (mark ')'))
    (h : ∀ m ∈ reach 3 (b ++ ℓ :: ls), m.isToken = true ∨ m.skipped = true) :
    ∃ g₁ g₂ g₃ rest, b = g₁ ++ mark '(' :: g₂ ∧ ls = g₃ ++ mark ')' :: rest ∧
      (∀ m ∈ g₁, m.skipped = true) ∧ (∀ m ∈ g₂, m.skipped = true) ∧ ∀ m ∈ g₃, m.skipped = true := by
  obtain ⟨more, hmore⟩ := List.head?_eq_some_iff.mp hclose
  obtain ⟨g₁, g₂, rfl, hg₁, -, hg₂⟩ := filter_eq_cons hb
  obtain ⟨g₃, rest, rfl, hg₃, hdot, -⟩ := filter_eq_cons hmore
  have hg₂ : ∀ m ∈ g₂, m.isToken = false := fun m hm => by simpa using List.filter_eq_nil_iff.mp hg₂ m hm
  rw [List.append_assoc, List.cons_append, reach_append hg₁ rfl, reach_append hg₂ hℓ, reach_append hg₃ hdot] at h
  have hskipped : ∀ g : List Lexeme, (∀ m ∈ g, m.isToken = false) →
      (∀ m ∈ g, m ∈ g₁ ++ mark '(' :: (g₂ ++ ℓ :: (g₃ ++ mark ')' :: reach 0 rest))) → ∀ m ∈ g, m.skipped = true := by
    intro g hg hmem m hm
    exact (h m (hmem m hm)).resolve_left (by simp [hg m hm])
  exact ⟨g₁, g₂, g₃, rest, rfl, rfl, hskipped g₁ hg₁ (by simp +contextual), hskipped g₂ hg₂ (by simp +contextual),
    hskipped g₃ hg₃ (by simp +contextual)⟩

include hwelds hlexed hspelled hsql in
/-- The window of a call of a sequence function. -/
theorem call_window {f : Lexeme} {b : List Lexeme} (hL : L = a ++ f :: (b ++ ℓ :: ls)) (hb : b.filter Lexeme.isToken = [mark '('])
    (hf : isSequenceFunction f = true) (hk : ℓ.kind = .string) (hclose : (ls.filter Lexeme.isToken).head? = some (mark ')'))
    (hapart : Apart 3 a f (b ++ ℓ :: ls)) :
    ∃ window ∈ windows 4 ts, ∃ t, sequenceCall sql window = some t ∧ t.start = (text (a ++ f :: b)).length ∧
      t.stop = (text (a ++ f :: b)).length + ℓ.text.length ∧ t.value = stringValue ℓ := by
  have hkind := kind_of_isSequenceFunction hf
  have htoken : ℓ.isToken = true := by rw [Lexeme.isToken, hk]; rfl
  obtain ⟨w, us, vs, rfl, hvs, hw⟩ := welds_at hwelds hlexed hL hapart.before (.inl hkind)
  obtain ⟨g₁, g₂, g₃, rest, rfl, rfl, hg₁, hg₂, hg₃⟩ := reach_call hb htoken hclose hapart.after
  have hassoc : L = a ++ (f :: g₁ ++ mark '(' :: (g₂ ++ (ℓ :: g₃ ++ mark ')' :: rest))) := by rw [hL]; simp
  have hdrop : sql.drop (text a).length = text (f :: g₁ ++ mark '(' :: (g₂ ++ (ℓ :: g₃ ++ mark ')' :: rest))) := by
    rw [hsql, hassoc, text_append, List.drop_left]
  have hlexed' := lexed_append (hassoc ▸ hlexed)
  have hvs' : Welds (text a).length w (f :: g₁ ++ mark '(' :: (g₂ ++ (ℓ :: g₃ ++ mark ')' :: rest))) vs := by simpa using hvs
  obtain ⟨t0, vs, rfl, hfirst⟩ := part_here rfl hvs' hlexed' hdrop hg₁ hw
  generalize hn : (text a).length + f.text.length + (text g₁).length = n at hfirst hspelled ⊢
  have hplace := hfirst.place
  obtain ⟨t2, vs, rfl, hstring⟩ := part_here rfl (welds_skip hplace.welds hg₂) (lexed_append hplace.lexed)
    (drop_text hplace.drop) hg₃ (.inr (.inr hk))
  generalize hm : n + 1 + (text g₂).length + ℓ.text.length + (text g₃).length = m at hstring hspelled ⊢
  refine ⟨[t0, ⟨n, ['('], false, n + 1⟩, t2, ⟨m, [')'], false, m + 1⟩],
    mem_windows.mpr ⟨rfl, us ++ shut (text a).length w, vs, by simp [shut]⟩, t2, ?_⟩
  obtain ⟨r, hr, hreads⟩ := hstring.reads
  obtain ⟨hvalue, hstarts⟩ := value_of_string hstring.stands (hspelled t2 (by simp)) hr hreads hk
  have hstart : n + 1 + (text g₂).length = (text (a ++ f :: (g₁ ++ mark '(' :: g₂))).length := by
    simp only [text_append, text_cons, List.length_append, ← hn, mark, List.length_singleton]
    omega
  refine ⟨?_, hstring.stands.start.trans hstart, hstring.stands.stop.trans (by rw [hstart]), hvalue⟩
  rw [sequenceCall, isSequenceFunction_eq hfirst.stands hkind, hf, hstarts]
  rfl

end Places

end Wordflow.Ddl
