import Wordflow.Ddl.Names

namespace Wordflow.Ddl

open Library Library.Identifier Library.Quoting Library.Text Scripts

/-- Each lexeme is the one that is read before the text of those after it. -/
def Reading : List Lexeme → Prop
  | [] => True
  | ℓ :: ls => lexeme (ℓ.text ++ text ls) = ℓ ∧ ℓ.text ≠ [] ∧ Reading ls

theorem reading_lexemes (s : List Char) : Reading (lexemes s) := by
  induction hn : s.length using Nat.strongRecOn generalizing s with
  | _ n ih =>
      rcases eq_or_ne s [] with rfl | hs
      · trivial
      obtain ⟨rest, hrest, -, hne, hl⟩ := lexemes_cons hs
      rw [hl]
      have hlt : rest.length < n := by
        have hlength := congrArg List.length hrest
        have hpos := List.length_pos_iff.mpr hne
        rw [List.length_append] at hlength
        omega
      refine ⟨?_, hne, ih _ hlt rest rfl⟩
      rw [text_lexemes, ← hrest]

theorem lexemes_of_reading {ls : List Lexeme} (h : Reading ls) : lexemes (text ls) = ls := by
  induction ls with
  | nil => rfl
  | cons ℓ ls ih =>
      obtain ⟨hread, hne, hrest⟩ := h
      have htext : ℓ.text ++ text ls = (lexeme (ℓ.text ++ text ls)).text ++ text ls := by rw [hread]
      rw [text_cons, lexemes_eq (by simp [hne]) htext (by rwa [hread]), hread, ih hrest]

theorem Reading.reads {ℓ : Lexeme} {ls : List Lexeme} (h : Reading (ℓ :: ls)) : Reads ℓ (text ls) := by
  obtain ⟨rest, hrest, hreads⟩ := lexeme_reads (by simp [h.2.1]) h.1
  rwa [List.append_cancel_left hrest]

theorem Reading.append {a b : List Lexeme} (h : Reading (a ++ b)) : Reading b := by
  induction a with
  | nil => exact h
  | cons ℓ a ih => exact ih h.2.2

section Heads

variable {r : List Char} {ℓ : Lexeme}

/-- A blank or a name starts with no digit and no exponent. -/
theorem quiet_start (h : Reads ℓ r) (hk : ℓ.isToken = false ∨ (nameValue ℓ).isSome = true) (s : List Char) :
    digits (ℓ.text ++ s) = [] ∧ power (ℓ.text ++ s) = [] ∧ (ℓ.text ++ s).head? ≠ some '.' ∧ ℓ.text.head? ≠ some '$' := by
  have hplain {c : Char} (t : List Char) (hdigit : c.isDigit = false) (hplus : c ≠ '+') (hminus : c ≠ '-') (hdot : c ≠ '.')
      (hdollar : c ≠ '$') : digits (c :: t) = [] ∧ power (c :: t) = [] ∧ (c :: t).head? ≠ some '.' ∧ some c ≠ some '$' := by
    have hdigits : digits (c :: t) = [] := List.takeWhile_cons_of_neg (by simp [hdigit])
    refine ⟨hdigits, ?_, by simpa using hdot, by simpa using hdollar⟩
    rw [power_cons, if_neg (by simp [hplus, hminus]), hdigits]
  cases h with
  | space c rest h =>
      refine hplain s ?_ ?_ ?_ ?_ ?_
      · rw [← Bool.not_eq_true]
        simp only [isWhitespace, Bool.or_eq_true, Bool.and_eq_true, decide_eq_true_eq, beq_iff_eq] at h
        simp only [Char.isDigit, Bool.and_eq_true, decide_eq_true_eq, UInt32.le_iff_toNat_le, ge_iff_le]
        have hzero : '0'.val.toNat = 48 := rfl
        have hnine : '9'.val.toNat = 57 := rfl
        have hc : c.toNat = c.val.toNat := rfl
        omega
      all_goals
        rintro rfl
        cases h
  | lineComment body rest h hrest => exact ⟨rfl, rfl, by simp, by simp⟩
  | blockComment body rest h => exact ⟨rfl, rfl, by simp, by simp⟩
  | quotedName body rest h => exact ⟨rfl, rfl, by simp, by simp⟩
  | name c body rest hc h hrest he =>
      obtain ⟨hspace, hminus, hslash, hquote, hdouble⟩ := nameStart_facts hc
      refine hplain (body ++ s) ?_ ?_ hminus ?_ ?_
      · rw [← Bool.not_eq_true]
        intro hdigit
        simp only [nameStart, Bool.or_eq_true, Bool.and_eq_true, beq_iff_eq, decide_eq_true_eq] at hc
        rcases hc with (halpha | rfl) | hwide
        · rw [(isAlpha_facts halpha).2.2.1] at hdigit
          cases hdigit
        · cases hdigit
        · simp only [Char.isDigit, Bool.and_eq_true, decide_eq_true_eq, UInt32.le_iff_toNat_le, ge_iff_le] at hdigit
          have hnine : '9'.val.toNat = 57 := rfl
          have hval : c.toNat = c.val.toNat := rfl
          omega
      all_goals
        rintro rfl
        cases hc
  | _ => simp [Lexeme.isToken, Kind.blank, nameValue] at hk

end Heads

section Parts

variable {database : String} {before : List Lexeme} {ℓ : Lexeme} {ls : List Lexeme}

theorem filter_eq_cons {α : Type*} {p : α → Bool} {items : List α} {a : α} {as : List α} (h : items.filter p = a :: as) :
    ∃ gap rest, items = gap ++ a :: rest ∧ (∀ b ∈ gap, p b = false) ∧ p a = true ∧ rest.filter p = as := by
  obtain ⟨gap, rest, rfl, hgap, ha, hrest⟩ := List.filter_eq_cons_iff.mp h
  exact ⟨gap, rest, rfl, fun b hb => by simpa using hgap b hb, ha, hrest⟩

/-- What is seen of a qualified name. -/
structure Qualified (database : String) (ℓ : Lexeme) (ls gap rest : List Lexeme) : Prop where
  split : ls = gap ++ mark '.' :: rest
  gap : ∀ m ∈ gap, m.isToken = false
  name : (nameValue ℓ).any (sameName database) = true
  ahead : ∃ p2 p4 more, rest.filter Lexeme.isToken = p2 :: mark '.' :: p4 :: more ∧
    (nameValue p2).isSome = true ∧ (nameValue p4).isSome = true

theorem qualified_iff : qualified database ℓ (ls.filter Lexeme.isToken) = true ↔ ∃ gap rest, Qualified database ℓ ls gap rest := by
  constructor
  · intro h
    unfold qualified at h
    rw [Bool.and_eq_true] at h
    obtain ⟨hname, h⟩ := h
    split at h
    · rename_i p1 p2 p3 p4 more htokens
      simp only [Bool.and_eq_true, beq_iff_eq] at h
      obtain ⟨⟨⟨rfl, hp2⟩, rfl⟩, hp4⟩ := h
      obtain ⟨gap, rest, rfl, hgap, -, hrest⟩ := filter_eq_cons htokens
      exact ⟨gap, rest, rfl, hgap, hname, p2, p4, more, hrest, hp2, hp4⟩
    · cases h
  · rintro ⟨gap, rest, rfl, hgap, hname, p2, p4, more, hrest, hp2, hp4⟩
    have hgap' : gap.filter Lexeme.isToken = [] := List.filter_eq_nil_iff.mpr fun m hm => by simp [hgap m hm]
    have hdot : (mark '.').isToken = true := rfl
    rw [List.filter_append, hgap', List.nil_append, List.filter_cons_of_pos hdot, hrest, qualified, hname]
    simp [hp2, hp4]

theorem Qualified.partLength {gap rest : List Lexeme} (h : Qualified database ℓ ls gap rest) : partLength ls = gap.length + 1 := by
  have htake : ls.takeWhile (!·.isToken) = gap := by
    rw [h.split, List.takeWhile_append_of_pos fun m hm => by simp [h.gap m hm]]
    rw [List.takeWhile_cons_of_neg (by rintro hdot; cases hdot), List.append_nil]
  rw [Ddl.partLength, htake]

def isComment (ℓ : Lexeme) : Bool := ℓ.kind == .lineComment || ℓ.kind == .blockComment

theorem rebased_skip {part rest : List Lexeme} (h : ∀ m ∈ part, isComment m = false) :
    rebased database part.length before (part ++ rest) = rebased database 0 (part.foldl push before) rest := by
  induction part generalizing before with
  | nil => rfl
  | cons m part ih =>
      obtain ⟨hm, hpart⟩ := List.forall_mem_cons.mp h
      have hplain : ¬(m.kind = .lineComment ∨ m.kind = .blockComment) := by simpa [isComment] using hm
      rw [List.length_cons, List.cons_append, rebased, if_neg hplain, List.nil_append, ih hpart, List.foldl_cons]

theorem foldl_push_blank {gap : List Lexeme} (h : ∀ m ∈ gap, m.isToken = false) : gap.foldl push before = before := by
  induction gap with
  | nil => rfl
  | cons m gap ih =>
      obtain ⟨hm, hgap⟩ := List.forall_mem_cons.mp h
      rw [List.foldl_cons, push, if_neg (by simp [hm]), ih hgap]

theorem leading_iff : leading database before ℓ ls = true ↔
    before.head? ≠ some (mark '.') ∧ ∃ gap rest, Qualified database ℓ ls gap rest := by
  rw [leading, Bool.and_eq_true, qualified_iff]
  simp

theorem rebased_leading (hleading : before.head? ≠ some (mark '.')) {gap rest : List Lexeme}
    (h : Qualified database ℓ ls gap rest) (hgap : ∀ m ∈ gap, isComment m = false) :
    rebased database 0 before (ℓ :: ls) = rebased database 0 (mark '.' :: push before ℓ) rest := by
  rw [rebased, if_pos (leading_iff.mpr ⟨hleading, gap, rest, h⟩), h.partLength, h.split]
  have hpart : gap.length + 1 = (gap ++ [mark '.']).length := by simp
  have hassoc : gap ++ mark '.' :: rest = gap ++ [mark '.'] ++ rest := by simp
  rw [hpart, hassoc, rebased_skip, List.foldl_append, foldl_push_blank h.gap]
  · rfl
  · intro m hm
    rcases List.mem_append.mp hm with hm | hm
    · exact hgap m hm
    · rw [List.mem_singleton.mp hm]
      rfl

theorem rebased_kept (h : leading database before ℓ ls = false) :
    rebased database 0 before (ℓ :: ls) = (rebasedString database before ℓ ls).getD ℓ :: rebased database 0 (push before ℓ) ls := by
  rw [rebased, if_neg (by simp [h])]

/-- What is seen of a string that is replaced. -/
theorem rebasedString_some {ℓ' : Lexeme} (h : rebasedString database before ℓ ls = some ℓ') :
    ℓ.kind = .string ∧ (∃ p0 more, before = mark '(' :: p0 :: more ∧ isSequenceFunction p0 = true) ∧
      (ls.filter Lexeme.isToken).head? = some (mark ')') ∧
      ∃ s, sequenceNamed database (stringValue ℓ) = some s ∧ ℓ' = ⟨.string, sequenceLiteral s.1 s.2⟩ := by
  unfold rebasedString at h
  split at h
  · rename_i p1 p0 more
    split at h
    · rename_i hcall
      simp only [Bool.and_eq_true, beq_iff_eq] at hcall
      obtain ⟨⟨⟨hf, rfl⟩, hk⟩, hclose⟩ := hcall
      obtain ⟨s, hs, rfl⟩ := Option.map_eq_some_iff.mp h
      exact ⟨hk, ⟨p0, more, rfl, hf⟩, hclose, s, hs, rfl⟩
    · cases h
  · cases h

theorem quoteBody_doubled {v r : List Char} (h : r.head? ≠ some '\'') :
    quoteBody '\'' false (doubled '\'' v ++ '\'' :: r) = some (doubled '\'' v ++ ['\'']) := by
  induction v with
  | nil =>
      cases r with
      | nil => rfl
      | cons d r =>
          have hd : d ≠ '\'' := fun heq => h (congrArg some heq)
          simp [doubled, quoteBody, hd]
  | cons c v ih =>
      rw [doubled_cons]
      by_cases hc : c = '\''
      · rw [if_pos hc]
        simp only [List.cons_append, List.nil_append, quoteBody, ih]
        simp
      · obtain ⟨d, t, ht⟩ : ∃ d t, doubled '\'' v ++ '\'' :: r = d :: t := List.exists_cons_of_ne_nil (by simp)
        rw [ht] at ih
        rw [if_neg hc, List.append_assoc, ht, List.cons_append, List.nil_append, quoteBody]
        simp [hc, ih]

theorem lexeme_literal {v r : List Char} (h : r.head? ≠ some '\'') : lexeme (literal v ++ r) = ⟨.string, literal v⟩ := by
  have hread : lexeme (literal v ++ r) = enclosed .string ['\''] (doubled '\'' v ++ '\'' :: r)
      (quoteBody '\'' false (doubled '\'' v ++ '\'' :: r)) := by
    simp [literal, enclose, lexeme, isWhitespace]
  rw [hread, quoteBody_doubled h]
  rfl

end Parts

section Rebased

variable {database : String} {L : List Lexeme}

/-- Where the database part of a name is dropped, no comment goes with it and what
stands before it does not run into what stands after it. -/
def Loose (database : String) (L : List Lexeme) : Prop :=
  ∀ a ℓ ls, L = a ++ ℓ :: ls → leading database (a.foldl push []) ℓ ls = true →
    (∀ m ∈ ls.take (partLength ls), isComment m = false) ∧
      ∀ m ∈ a.getLast?, lexeme (m.text ++ text (ls.drop (partLength ls))) = m

theorem Qualified.part {ℓ : Lexeme} {ls gap rest : List Lexeme} (h : Qualified database ℓ ls gap rest) :
    ls.take (Ddl.partLength ls) = gap ++ [mark '.'] ∧ ls.drop (Ddl.partLength ls) = rest := by
  have hassoc : ls = (gap ++ [mark '.']) ++ rest := by rw [h.split]; simp
  have hlength : Ddl.partLength ls = (gap ++ [mark '.']).length := by rw [h.partLength]; simp
  rw [hlength, hassoc]
  exact ⟨List.take_left, List.drop_left⟩

/-- The lexeme after a database part stays, and it is a blank or a name. -/
theorem Qualified.next {ℓ : Lexeme} {ls gap rest : List Lexeme} (h : Qualified database ℓ ls gap rest) :
    ∃ m more, rest = m :: more ∧ (m.isToken = false ∨ (nameValue m).isSome = true) := by
  obtain ⟨p2, p4, more, htokens, hp2, -⟩ := h.ahead
  cases rest with
  | nil => cases htokens
  | cons m rest =>
      refine ⟨m, rest, rfl, ?_⟩
      by_cases hm : m.isToken = true
      · rw [List.filter_cons_of_pos hm] at htokens
        exact .inr ((List.cons.inj htokens).1 ▸ hp2)
      · exact .inl (by simpa using hm)

theorem string_of_nameValue {ℓ : Lexeme} (h : ℓ.isToken = false ∨ (nameValue ℓ).isSome = true) : ℓ.kind ≠ .string := by
  rintro hk
  simp [Lexeme.isToken, Kind.blank, nameValue, hk] at h

theorem rebased_next {m : Lexeme} {more before : List Lexeme} (hm : m.isToken = false ∨ (nameValue m).isSome = true) :
    rebased database 0 (mark '.' :: before) (m :: more) = m :: rebased database 0 (push (mark '.' :: before) m) more := by
  have hleading : leading database (mark '.' :: before) m more = false := by
    rw [← Bool.not_eq_true, leading_iff]
    exact fun h => h.1 rfl
  have hstring : rebasedString database (mark '.' :: before) m more = none := by
    cases hs : rebasedString database (mark '.' :: before) m more with
    | none => rfl
    | some ℓ' => exact absurd (rebasedString_some hs).1 (string_of_nameValue hm)
  rw [rebased_kept hleading, hstring]
  rfl

theorem rebased_stays {m : Lexeme} {more before : List Lexeme} (hvalue : nameValue m = none) (hk : m.kind ≠ .string) :
    rebased database 0 before (m :: more) = m :: rebased database 0 (push before m) more := by
  have hleading : leading database before m more = false := by
    rw [← Bool.not_eq_true, leading_iff]
    rintro ⟨-, gap, rest, hname⟩
    have hany := hname.name
    rw [hvalue] at hany
    cases hany
  have hstring : rebasedString database before m more = none := by
    cases hs : rebasedString database before m more with
    | none => rfl
    | some ℓ' => exact absurd (rebasedString_some hs).1 hk
  rw [rebased_kept hleading, hstring]
  rfl

theorem Reading.string_head {ℓ : Lexeme} {ls : List Lexeme} (h : Reading (ℓ :: ls)) (hk : ℓ.kind = .string) :
    (text ls).head? ≠ some '\'' := by
  have hreads := h.reads
  generalize hrest : text ls = rest at hreads
  cases hreads with
  | string body rest hbody => exact (quoteBody_iff.mp hbody).2
  | _ => cases hk

theorem Reading.string_text {ℓ : Lexeme} {ls : List Lexeme} (h : Reading (ℓ :: ls)) (hk : ℓ.kind = .string) :
    ∃ t, ℓ.text = '\'' :: t := by
  have hreads := h.reads
  generalize text ls = rest at hreads
  cases hreads with
  | string body rest hbody => exact ⟨body, rfl⟩
  | _ => cases hk

/-- What stands before a string in a call of a sequence function does not see the string. -/
theorem lexeme_before_string {ℓ : Lexeme} {t t' : List Char} (h : lexeme (ℓ.text ++ '\'' :: t) = ℓ) (hne : ℓ.text ≠ [])
    (hk : ℓ.isToken = false ∨ ℓ = mark '(') : lexeme (ℓ.text ++ '\'' :: t') = ℓ := by
  have hkind : ℓ.kind ≠ .unterminated ∧ ℓ.kind ≠ .number ∧ ℓ.kind ≠ .operator := by
    refine ⟨?_, ?_, ?_⟩ <;> intro hkind <;> rcases hk with hk | rfl <;> simp_all [Lexeme.isToken, Kind.blank, mark]
  have hdollar : ℓ.text.head? ≠ some '$' := by
    rcases hk with hk | rfl
    · obtain ⟨rest, hrest, hreads⟩ := lexeme_reads (by simp [hne]) h
      exact (quiet_start hreads (.inl hk) []).2.2.2
    · exact fun hhead => by cases hhead
  have hswap : lexeme (ℓ.text ++ '\'' :: t') = lexeme (ℓ.text ++ '\'' :: t) := by
    refine lexeme_swap hne rfl (by rw [h]) (by rw [h]; exact hkind.1) (fun hnumber => ?_) (fun hoperator => ?_)
      fun hhead => absurd hhead hdollar
    · rw [h] at hnumber
      exact absurd hnumber hkind.2.1
    · rw [h] at hoperator
      exact absurd hoperator hkind.2.2
  exact hswap.trans h

theorem foldl_push_concat (a : List Lexeme) (ℓ : Lexeme) : (a ++ [ℓ]).foldl push [] = push (a.foldl push []) ℓ := by
  rw [List.foldl_append]
  rfl

/-- The rebased lexemes are read as they are, and no lexeme before them sees a change. -/
structure Kept (database : String) (before R : List Lexeme) : Prop where
  reading : Reading (rebased database 0 before R)
  alike : Alike (text R) (text (rebased database 0 before R))

/-- A name that loses its database part. -/
theorem kept_leading {before R ls gap rest : List Lexeme} {ℓ : Lexeme} (hread : Reading (ℓ :: ls))
    (hname : Qualified database ℓ ls gap rest) (hR : rebased database 0 before (ℓ :: ls) = rebased database 0 (mark '.' :: R) rest)
    (h : Kept database (mark '.' :: R) rest) : Kept database before (ℓ :: ls) := by
  obtain ⟨m, more, rfl, hm⟩ := hname.next
  have hrest : Reading (m :: more) := by
    rw [hname.split, List.append_cons, ← List.cons_append] at hread
    exact hread.append
  have hvalue : (nameValue ℓ).isSome = true := by
    cases hn : nameValue ℓ with
    | none =>
        have hany := hname.name
        rw [hn] at hany
        cases hany
    | some value => rfl
  have hquiet := quiet_start hrest.reads hm
  refine ⟨hR ▸ h.reading, ?_⟩
  rw [hR, rebased_next hm, text_cons, text_cons]
  refine ⟨fun hdigit => absurd (hquiet _).1 hdigit, fun hpower => absurd (hquiet _).2.1 hpower, fun hdot => ?_⟩
  exact absurd hdot (quiet_start hread.reads (.inr hvalue) _).2.2.1

/-- A lexeme that stays. -/
theorem kept_cons {before ls : List Lexeme} {ℓ : Lexeme} (hne : ℓ.text ≠ [])
    (hR : rebased database 0 before (ℓ :: ls) = ℓ :: rebased database 0 (push before ℓ) ls)
    (hℓ : lexeme (ℓ.text ++ text (rebased database 0 (push before ℓ) ls)) = ℓ) (h : Kept database (push before ℓ) ls) :
    Kept database before (ℓ :: ls) := by
  refine ⟨hR ▸ ⟨hℓ, hne, h.reading⟩, ?_⟩
  rw [hR, text_cons, text_cons]
  exact h.alike.append hne

/-- A string that is replaced. -/
theorem kept_string {before ls : List Lexeme} {ℓ ℓ' : Lexeme} (hread : Reading (ℓ :: ls))
    (hstring : rebasedString database before ℓ ls = some ℓ') (h : Kept database (push before ℓ) ls) :
    Kept database before (ℓ :: ls) := by
  obtain ⟨hk, -, hclose, s, -, rfl⟩ := rebasedString_some hstring
  have hleading : leading database before ℓ ls = false := by
    rw [← Bool.not_eq_true, leading_iff]
    rintro ⟨-, gap, rest, hname⟩
    have hany := hname.name
    simp [nameValue, hk] at hany
  have hR : rebased database 0 before (ℓ :: ls) =
      ⟨.string, sequenceLiteral s.1 s.2⟩ :: rebased database 0 (push before ℓ) ls := by
    rw [rebased_kept hleading, hstring]
    rfl
  have hhead : (text (rebased database 0 (push before ℓ) ls)).head? = (text ls).head? := by
    cases ls with
    | nil => rfl
    | cons m more =>
        have hm : m.isToken = false ∨ m = mark ')' := by
          by_cases hm : m.isToken = true
          · rw [List.filter_cons_of_pos hm, List.head?_cons, Option.some.injEq] at hclose
            exact .inr hclose
          · exact .inl (by simpa using hm)
        have hvalue : nameValue m = none ∧ m.kind ≠ .string := by
          rcases hm with hm | rfl
          · refine ⟨?_, fun hkind => ?_⟩
            · rw [nameValue]
              split <;> simp_all [Lexeme.isToken, Kind.blank]
            · simp [Lexeme.isToken, Kind.blank, hkind] at hm
          · exact ⟨rfl, fun hkind => by cases hkind⟩
        rw [rebased_stays hvalue.1 hvalue.2, text_cons, text_cons]
        obtain ⟨c, t, ht⟩ := List.exists_cons_of_ne_nil hread.2.2.2.1
        rw [ht]
        rfl
  refine ⟨?_, ?_⟩
  · rw [hR]
    refine ⟨lexeme_literal ?_, by simp [sequenceLiteral, literal, enclose], h.reading⟩
    rw [hhead]
    exact hread.string_head hk
  · obtain ⟨t, ht⟩ := hread.string_text hk
    rw [hR, text_cons, text_cons, ht]
    exact ⟨fun hdigit => absurd rfl hdigit, fun hpower => absurd rfl hpower, fun hdot => by cases hdot⟩

/-- The tokens up to the end of a database part. -/
theorem foldl_push_part {before gap : List Lexeme} {ℓ : Lexeme} (hgap : ∀ m ∈ gap, m.isToken = false) :
    (ℓ :: (gap ++ [mark '.'])).foldl push before = mark '.' :: push before ℓ := by
  rw [List.foldl_cons, List.foldl_append, foldl_push_blank hgap]
  rfl

/-- A lexeme stands before what becomes of the lexemes after it. -/
theorem lexeme_before_rebased {a ls : List Lexeme} {ℓ : Lexeme} (hloose : Loose database L) (hL : L = a ++ ℓ :: ls)
    (hread : Reading (ℓ :: ls)) (hk : ℓ.kind ≠ .unterminated)
    (h : ∀ b R, ls = b ++ R → Kept database (b.foldl push (push (a.foldl push []) ℓ)) R) :
    lexeme (ℓ.text ++ text (rebased database 0 (push (a.foldl push []) ℓ) ls)) = ℓ := by
  obtain ⟨hℓ, hne, hls⟩ := hread
  cases ls with
  | nil => exact hℓ
  | cons m more =>
      generalize hB : push (a.foldl push []) ℓ = before at h ⊢
      have hL' : L = (a ++ [ℓ]) ++ m :: more := by simp [hL]
      have hkept := (h [] (m :: more) rfl).reading
      rw [List.foldl_nil] at hkept
      by_cases hleading : leading database before m more = true
      · -- the database part goes: the lexeme after it follows
        have hbefore := hloose _ m more hL' (by rwa [foldl_push_concat, hB])
        obtain ⟨hfirst, gap, rest, hname⟩ := leading_iff.mp hleading
        rw [hname.part.1, hname.part.2] at hbefore
        have hgap : ∀ x ∈ gap, isComment x = false := fun x hx => hbefore.1 x (List.mem_append_left _ hx)
        have hstands := hbefore.2 ℓ (by simp)
        rw [rebased_leading hfirst hname hgap] at hkept ⊢
        obtain ⟨p, later, rfl, hp⟩ := hname.next
        rw [rebased_next hp] at hkept ⊢
        have halike := (h (m :: (gap ++ [mark '.']) ++ [p]) later (by simp [hname.split])).alike
        rw [List.foldl_append, foldl_push_part hname.gap] at halike
        have hrest : Reading (p :: later) := by
          rw [hname.split, List.append_cons, ← List.cons_append] at hls
          exact hls.append
        rw [text_cons] at hstands ⊢
        exact lexeme_follow hrest.1 hkept.1 hrest.2.1 halike hstands hne hk
      · rw [Bool.not_eq_true] at hleading
        rw [rebased_kept hleading] at hkept ⊢
        cases hstring : rebasedString database before m more with
        | none =>
            rw [hstring, Option.getD_none] at hkept
            have halike := (h [m] more rfl).alike
            rw [Option.getD_none, text_cons]
            rw [text_cons] at hℓ
            exact lexeme_follow hls.1 hkept.1 hls.2.1 halike hℓ hne hk
        | some m' =>
            obtain ⟨hkind, ⟨p0, earlier, hopen, -⟩, -, s, -, rfl⟩ := rebasedString_some hstring
            obtain ⟨t, ht⟩ := hls.string_text hkind
            have hℓopen : ℓ.isToken = false ∨ ℓ = mark '(' := by
              rw [hopen, push] at hB
              split at hB
              · exact .inr (List.cons.inj hB).1
              · exact .inl (by simpa using ‹¬ℓ.isToken = true›)
            rw [text_cons, ht, List.cons_append] at hℓ
            rw [Option.getD_some, text_cons, sequenceLiteral, literal, enclose]
            exact lexeme_before_string hℓ hne hℓopen

theorem rebased_reading (hloose : Loose database L) {a R : List Lexeme} (hL : L = a ++ R) (hread : Reading R)
    (hk : ∀ m ∈ R, m.kind ≠ .unterminated) : Kept database (a.foldl push []) R := by
  induction hn : R.length using Nat.strongRecOn generalizing a R with
  | _ n ih =>
      -- what the induction says of every text that starts later
      have hlater : ∀ b S, b ≠ [] → R = b ++ S → Kept database (b.foldl push (a.foldl push [])) S := by
        rintro b S hb rfl
        rw [← List.foldl_append]
        have hlt : S.length < n := by
          have hpos := List.length_pos_iff.mpr hb
          rw [List.length_append] at hn
          omega
        exact ih S.length hlt (by simp [hL]) hread.append (fun m hm => hk m (List.mem_append_right b hm)) rfl
      cases R with
      | nil => exact ⟨trivial, .refl _⟩
      | cons ℓ ls =>
          by_cases hleading : leading database (a.foldl push []) ℓ ls = true
          · have hcomments := (hloose a ℓ ls hL hleading).1
            obtain ⟨hfirst, gap, rest, hname⟩ := leading_iff.mp hleading
            rw [hname.part.1] at hcomments
            have hgap : ∀ x ∈ gap, isComment x = false := fun x hx => hcomments x (List.mem_append_left _ hx)
            have hrest := hlater (ℓ :: (gap ++ [mark '.'])) rest (List.cons_ne_nil _ _) (by simp [hname.split])
            rw [foldl_push_part hname.gap] at hrest
            exact kept_leading hread hname (rebased_leading hfirst hname hgap) hrest
          · rw [Bool.not_eq_true] at hleading
            have hls : Kept database (push (a.foldl push []) ℓ) ls := hlater [ℓ] ls (List.cons_ne_nil _ _) rfl
            cases hstring : rebasedString database (a.foldl push []) ℓ ls with
            | some ℓ' => exact kept_string hread hstring hls
            | none =>
                refine kept_cons hread.2.1 (by rw [rebased_kept hleading, hstring, Option.getD_none]) ?_ hls
                refine lexeme_before_rebased hloose hL hread (hk ℓ List.mem_cons_self) fun b S hls => ?_
                exact hlater (ℓ :: b) S (List.cons_ne_nil _ _) (by rw [hls, List.cons_append])

end Rebased

end Wordflow.Ddl
