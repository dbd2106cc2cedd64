import Mathlib.Algebra.GroupWithZero.Nat
import Wordflow.Ddl.Edits
import Wordflow.Ddl.Windows

namespace Wordflow.Ddl

open Library Library.Fallible Library.Identifier Library.Quoting Library.Text Scripts

/-- The literal of a call is read as the grammar does, and the call is one of the grammar
where it is to be replaced. -/
structure Called (sql : List Char) (database : String) (s : Token) : Prop where
  read : ∃ ns, tokens s.value = .ok ns ∧ sequenceParts database ns = sequenceNamed database s.value
  stands : (sequenceNamed database s.value).isSome = true → ∃ b ℓ ls, lexemes sql = b ++ ℓ :: ls ∧
    (text b).length = s.start ∧ (rebasedString database (b.foldl push []) ℓ ls).isSome = true

/-- The lexer reads the qualified names and the calls of the text as the grammar does, and
what is left of a name stands in the place of the whole. -/
structure Aligned (sql : List Char) (database : String) : Prop where
  clear : Clears false (lexemes sql)
  loose : Loose database (lexemes sql)
  names : ∀ a ℓ ls, lexemes sql = a ++ ℓ :: ls → leading database (a.foldl push []) ℓ ls = true → Apart 4 a ℓ ls
  calls : ∀ a f b ℓ ls, lexemes sql = a ++ f :: (b ++ ℓ :: ls) → b.filter Lexeme.isToken = [mark '('] →
    (rebasedString database [mark '(', f] ℓ ls).isSome = true → Apart 3 a f (b ++ ℓ :: ls)
  literals : ∀ ts, tokens sql = .ok ts → ∀ window ∈ windows 4 ts, ∀ s ∈ sequenceCall sql window, Called sql database s

/-- Each window of five tokens that is taken for a qualified name begins with the database part of one. -/
def Leads (sql : List Char) (database : String) : Prop :=
  ∀ ts, tokens sql = .ok ts → ∀ window ∈ windows 5 ts, ∀ e ∈ qualifierEdit sql database window,
    ∃ a ℓ ls, lexemes sql = a ++ ℓ :: ls ∧ (text a).length = e.start ∧ leading database (a.foldl push []) ℓ ls = true

/-- The edit of a call whose literal the lexer reads as the grammar does. -/
def namedEdit (sql : List Char) (database : String) (window : List Token) : Option Edit :=
  (sequenceCall sql window).bind fun s =>
    (sequenceNamed database s.value).map fun parts => ⟨s.start, s.stop, sequenceLiteral parts.1 parts.2⟩

section Starts

variable {sql : List Char} {database : String} {ts : List Token} {e f : Edit} {es : List Edit}

theorem pairwise_windows {α : Type*} {R : α → α → Prop} {n : ℕ} {items : List α} (h : items.Pairwise R) :
    (windows n items).Pairwise fun u v => ∀ (k : ℕ) x y, u[k]? = some x → v[k]? = some y → R x y := by
  have htails : items.tails.Pairwise fun u v => ∀ (k : ℕ) x y, u[k]? = some x → v[k]? = some y → R x y := by
    induction items with
    | nil => exact List.pairwise_singleton _ _
    | cons a items ih =>
        rw [List.tails_cons]
        refine List.pairwise_cons.mpr ⟨fun v hv k x y hx hy => ?_, ih (List.pairwise_cons.mp h).2⟩
        obtain ⟨before, rfl⟩ := (List.mem_tails _ _).mp hv
        have hy' : (a :: (before ++ v))[before.length + k + 1]? = some y := by
          rw [List.getElem?_cons_succ, List.getElem?_append_right (Nat.le_add_right _ _), Nat.add_sub_cancel_left, hy]
        obtain ⟨hk, rfl⟩ := List.getElem?_eq_some_iff.mp hx
        obtain ⟨hk', rfl⟩ := List.getElem?_eq_some_iff.mp hy'
        exact List.pairwise_iff_getElem.mp h k _ hk hk' (by omega)
  have htake {u : List α} {k : ℕ} {x : α} (hx : (u.take n)[k]? = some x) : u[k]? = some x := by
    rw [List.getElem?_take] at hx
    split at hx
    · exact hx
    · cases hx
  exact (List.pairwise_map.mpr (htails.imp fun huv k x y hx hy => huv k x y (htake hx) (htake hy))).filter _

theorem pairwise_edits {f : List Token → Option Edit} {n k : ℕ} (h : ts.Pairwise fun t u => t.start < u.start)
    (hf : ∀ window e, f window = some e → ∃ t, window[k]? = some t ∧ e.start = t.start) :
    ((windows n ts).filterMap f).Pairwise fun e e' => e.start < e'.start := by
  refine (pairwise_windows h).filterMap f fun u v huv e he e' he' => ?_
  obtain ⟨t, ht, hstart⟩ := hf u e he
  obtain ⟨t', ht', hstart'⟩ := hf v e' he'
  rw [hstart, hstart']
  exact huv k t t' ht ht'

theorem eq_of_start (h : es.Pairwise fun e f => e.start < f.start) (he : e ∈ es) (hf : f ∈ es) (hstart : e.start = f.start) :
    e = f := by
  have hnodup : (es.map Edit.start).Nodup := List.pairwise_map.mpr (h.imp fun hlt => hlt.ne)
  exact List.inj_on_of_nodup_map hnodup he hf hstart

theorem qualifierEdit_start (window : List Token) (e : Edit) (h : qualifierEdit sql database window = some e) :
    ∃ t, window[0]? = some t ∧ e.start = t.start ∧ startsString sql t = false := by
  unfold qualifierEdit at h
  split at h
  · rename_i p0 p1 p2 p3 p4
    split at h
    · rename_i hcond
      cases h
      simp only [Bool.and_eq_true, Bool.not_eq_true'] at hcond
      exact ⟨p0, rfl, rfl, hcond.2⟩
    · cases h
  · cases h

theorem sequenceCall_start {window : List Token} {s : Token} (h : sequenceCall sql window = some s) :
    window[2]? = some s ∧ startsString sql s = true := by
  unfold sequenceCall at h
  split at h
  · split at h
    · rename_i hcond
      cases h
      simp only [Bool.and_eq_true] at hcond
      exact ⟨rfl, hcond.2⟩
    · cases h
  · cases h

theorem namedEdit_start (window : List Token) (e : Edit) (h : namedEdit sql database window = some e) :
    ∃ t, window[2]? = some t ∧ e.start = t.start ∧ startsString sql t = true := by
  obtain ⟨s, hs, he⟩ := Option.bind_eq_some_iff.mp h
  obtain ⟨parts, -, rfl⟩ := Option.map_eq_some_iff.mp he
  exact ⟨s, (sequenceCall_start hs).1, rfl, (sequenceCall_start hs).2⟩

end Starts

section Edits

variable {sql : List Char} {database : String} {ts : List Token} {e : Edit}

def qualifierEdits (sql : List Char) (database : String) (ts : List Token) : List Edit :=
  (windows 5 ts).filterMap (qualifierEdit sql database)

def namedEdits (sql : List Char) (database : String) (ts : List Token) : List Edit :=
  (windows 4 ts).filterMap (namedEdit sql database)

theorem portableEdits_eq (hts : tokens sql = .ok ts) (h : Aligned sql database) : portableEdits sql database =
    .ok ((qualifierEdits sql database ts ++ namedEdits sql database ts).mergeSort fun e f => e.start ≤ f.start) := by
  have hsequences : (windows 4 ts).mapM (sequenceEdit sql database) = .ok ((windows 4 ts).map (namedEdit sql database)) := by
    refine mapM_ok fun window hwindow => ?_
    rw [sequenceEdit, namedEdit]
    cases hs : sequenceCall sql window with
    | none => rfl
    | some s =>
        obtain ⟨ns, hns, hparts⟩ := (h.literals ts hts window hwindow s hs).read
        simp only [hns, Option.bind_some, ← hparts]
        rfl
  rw [portableEdits, hts]
  change (windows 4 ts).mapM (sequenceEdit sql database) >>= _ = _
  rw [hsequences]
  have hsame : ((windows 4 ts).map (namedEdit sql database)).filterMap id = namedEdits sql database ts := by
    rw [List.filterMap_map]
    rfl
  change Except.ok _ = _
  rw [hsame]
  rfl

theorem starts_lt (hts : tokens sql = .ok ts) : ts.Pairwise fun t u => t.start < u.start := by
  obtain ⟨i, hlined⟩ := tokens_lined hts
  refine hlined.sorted.imp_of_mem fun ht hu hle => ?_
  exact (hlined.spelled _ ht).nonempty.trans_le hle

theorem qualifierEdits_pairwise (hts : tokens sql = .ok ts) :
    (qualifierEdits sql database ts).Pairwise fun e f => e.start < f.start :=
  pairwise_edits (starts_lt hts) fun window e he =>
    (qualifierEdit_start window e he).imp fun _ ht => ⟨ht.1, ht.2.1⟩

theorem namedEdits_pairwise (hts : tokens sql = .ok ts) :
    (namedEdits sql database ts).Pairwise fun e f => e.start < f.start :=
  pairwise_edits (starts_lt hts) fun window e he =>
    (namedEdit_start window e he).imp fun _ ht => ⟨ht.1, ht.2.1⟩

/-- No two edits start at one place. -/
theorem edits_nodup (hts : tokens sql = .ok ts) : (qualifierEdits sql database ts ++ namedEdits sql database ts).Nodup := by
  refine List.nodup_append.mpr ⟨(qualifierEdits_pairwise hts).imp fun hlt heq => ?_, (namedEdits_pairwise hts).imp fun hlt heq => ?_, ?_⟩
  · rw [heq] at hlt
    exact lt_irrefl _ hlt
  · rw [heq] at hlt
    exact lt_irrefl _ hlt
  · rintro e he f hf rfl
    obtain ⟨window, -, hwindow⟩ := List.mem_filterMap.mp he
    obtain ⟨window', -, hwindow'⟩ := List.mem_filterMap.mp hf
    obtain ⟨t, -, hstart, hplain⟩ := qualifierEdit_start window e hwindow
    obtain ⟨u, -, hstart', hstring⟩ := namedEdit_start window' e hwindow'
    rw [startsString, ← hstart', hstart] at hstring
    rw [startsString, hstring] at hplain
    cases hplain

theorem foldl_push (a before : List Lexeme) : a.foldl push before = (a.filter Lexeme.isToken).reverse ++ before := by
  induction a generalizing before with
  | nil => rfl
  | cons ℓ a ih =>
      rw [List.foldl_cons, ih, push, List.filter_cons]
      split
      · simp
      · rfl

/-- A rebased string is in a call. -/
theorem call_of_rebasedString {b ls : List Lexeme} {ℓ ℓ' : Lexeme} (h : rebasedString database (b.foldl push []) ℓ ls = some ℓ') :
    ∃ a f b', b = a ++ f :: b' ∧ b'.filter Lexeme.isToken = [mark '('] ∧ rebasedString database [mark '(', f] ℓ ls = some ℓ' := by
  obtain ⟨-, ⟨f, more, hbefore, -⟩, -⟩ := rebasedString_some h
  have htokens : b.filter Lexeme.isToken = more.reverse ++ [f, mark '('] := by
    rw [foldl_push, List.append_nil] at hbefore
    rw [← List.reverse_reverse (b.filter Lexeme.isToken), hbefore]
    simp
  obtain ⟨b₁, b₂, rfl, -, hb₂⟩ := List.filter_eq_append_iff.mp htokens
  obtain ⟨gap, rest, rfl, -, -, hrest⟩ := filter_eq_cons hb₂
  refine ⟨b₁ ++ gap, f, rest, by simp, hrest, ?_⟩
  rw [← h, hbefore]
  rfl

variable (hts : tokens sql = .ok ts) (h : Aligned sql database)

include hts h in
theorem aligned_facts : Welds 0 [] (lexemes sql) ts ∧ (∀ ℓ ∈ lexemes sql, ℓ.kind ≠ .unterminated) ∧ ∀ t ∈ ts, Spelled sql t := by
  obtain ⟨i, hlined⟩ := tokens_lined hts
  rcases tokens_lexemes h.clear with ⟨us, hus, hwelds, hk⟩ | ⟨⟨e, he⟩, -⟩
  · rw [hts] at hus
    cases hus
    exact ⟨hwelds, hk, hlined.spelled⟩
  · rw [hts] at he
    cases he

include hts h in
/-- Where the database part of a name is, the code drops it. -/
theorem mem_qualifierEdits {a ls : List Lexeme} {ℓ : Lexeme} (hL : lexemes sql = a ++ ℓ :: ls)
    (hleading : leading database (a.foldl push []) ℓ ls = true) :
    ∃ e ∈ qualifierEdits sql database ts, e.start = (text a).length ∧
      editAt database (text a).length (a.foldl push []) ℓ ls = some e := by
  obtain ⟨hwelds, -, hspelled⟩ := aligned_facts hts h
  obtain ⟨hfirst, gap, rest, hname⟩ := leading_iff.mp hleading
  obtain ⟨window, hwindow, hedit⟩ := qualified_window hwelds (lexed_lexemes sql) hspelled (text_lexemes sql).symm hL hname
    (h.names a ℓ ls hL hleading)
  exact ⟨_, List.mem_filterMap.mpr ⟨window, hwindow, hedit⟩, rfl, editAt_leading hfirst hname⟩

include hts h in
/-- Where the literal of a call is, the code replaces it. -/
theorem mem_namedEdits {b ls : List Lexeme} {ℓ ℓ' : Lexeme} (hL : lexemes sql = b ++ ℓ :: ls)
    (hstring : rebasedString database (b.foldl push []) ℓ ls = some ℓ') :
    ∃ e ∈ namedEdits sql database ts, e.start = (text b).length ∧
      editAt database (text b).length (b.foldl push []) ℓ ls = some e := by
  obtain ⟨hwelds, -, hspelled⟩ := aligned_facts hts h
  obtain ⟨a, f, b, rfl, hb, hcall⟩ := call_of_rebasedString hstring
  obtain ⟨hk, ⟨p0, more, hbefore, hf⟩, hclose, parts, hparts, rfl⟩ := rebasedString_some hcall
  cases hbefore
  have hL' : lexemes sql = a ++ f :: (b ++ ℓ :: ls) := by simp [hL]
  obtain ⟨window, hwindow, s, hs, hstart, hstop, hvalue⟩ := call_window hwelds (lexed_lexemes sql) hspelled
    (text_lexemes sql).symm hL' hb hf hk hclose (h.calls a f b ℓ ls hL' hb (by rw [hcall]; rfl))
  have hedit : namedEdit sql database window = some ⟨s.start, s.stop, sequenceLiteral parts.1 parts.2⟩ := by
    rw [namedEdit, hs, Option.bind_some, hvalue, hparts]
    rfl
  refine ⟨_, List.mem_filterMap.mpr ⟨window, hwindow, hedit⟩, hstart, ?_⟩
  have hvalue' : nameValue ℓ = none := by rw [nameValue, hk]
  rw [editAt_kept (not_leading_of_nameValue hvalue'), hstring, hstart, hstop]
  rfl

include hts h in
theorem referenceEdits_subset (he : e ∈ referenceEdits database 0 [] (lexemes sql)) :
    e ∈ qualifierEdits sql database ts ++ namedEdits sql database ts := by
  obtain ⟨b, ℓ, ls, hL, hedit⟩ := mem_referenceEdits.mp he
  rw [Nat.zero_add] at hedit
  by_cases hleading : leading database (b.foldl push []) ℓ ls = true
  · obtain ⟨f, hf, -, hsame⟩ := mem_qualifierEdits hts h hL hleading
    rw [hedit] at hsame
    cases hsame
    exact List.mem_append_left _ hf
  · have hstring := hedit
    rw [editAt_kept (by simpa using hleading)] at hstring
    obtain ⟨ℓ', hstring, -⟩ := Option.map_eq_some_iff.mp hstring
    obtain ⟨f, hf, -, hsame⟩ := mem_namedEdits hts h hL hstring
    rw [hedit] at hsame
    cases hsame
    exact List.mem_append_right _ hf

include hts h in
theorem namedEdits_subset (he : e ∈ namedEdits sql database ts) : e ∈ referenceEdits database 0 [] (lexemes sql) := by
  obtain ⟨window, hwindow, hedit⟩ := List.mem_filterMap.mp he
  obtain ⟨s, hs, hsame⟩ := Option.bind_eq_some_iff.mp hedit
  obtain ⟨parts, hparts, rfl⟩ := Option.map_eq_some_iff.mp hsame
  obtain ⟨b, ℓ, ls, hL, hstart, hstring⟩ := (h.literals ts hts window hwindow s hs).stands (by rw [hparts]; rfl)
  obtain ⟨ℓ', hstring⟩ := Option.isSome_iff_exists.mp hstring
  obtain ⟨f, hf, hfstart, hfedit⟩ := mem_namedEdits hts h hL hstring
  obtain rfl := eq_of_start (namedEdits_pairwise hts) he hf (hstart.symm.trans hfstart.symm)
  exact mem_referenceEdits.mpr ⟨b, ℓ, ls, hL, by rwa [Nat.zero_add]⟩

include hts h in
/-- The code drops nothing else exactly where each of its windows leads. -/
theorem leads_iff : Leads sql database ↔ ∀ e ∈ qualifierEdits sql database ts, e ∈ referenceEdits database 0 [] (lexemes sql) := by
  constructor
  · intro hleads e he
    obtain ⟨window, hwindow, hedit⟩ := List.mem_filterMap.mp he
    obtain ⟨a, ℓ, ls, hL, hstart, hleading⟩ := hleads ts hts window hwindow e hedit
    obtain ⟨f, hf, hfstart, hfedit⟩ := mem_qualifierEdits hts h hL hleading
    obtain rfl := eq_of_start (qualifierEdits_pairwise hts) he hf (hstart.symm.trans hfstart.symm)
    exact mem_referenceEdits.mpr ⟨a, ℓ, ls, hL, by rwa [Nat.zero_add]⟩
  · intro hsub us hus window hwindow e hedit
    rw [hts] at hus
    cases hus
    have he : e ∈ qualifierEdits sql database ts := List.mem_filterMap.mpr ⟨window, hwindow, hedit⟩
    obtain ⟨b, ℓ, ls, hL, hat⟩ := mem_referenceEdits.mp (hsub e he)
    rw [Nat.zero_add] at hat
    by_cases hleading : leading database (b.foldl push []) ℓ ls = true
    · obtain ⟨f, hf, hfstart, hfedit⟩ := mem_qualifierEdits hts h hL hleading
      rw [hat] at hfedit
      cases hfedit
      exact ⟨b, ℓ, ls, hL, hfstart.symm, hleading⟩
    · -- a literal of a call is no name
      have hstring := hat
      rw [editAt_kept (by simpa using hleading)] at hstring
      obtain ⟨ℓ', hstring, -⟩ := Option.map_eq_some_iff.mp hstring
      obtain ⟨f, hf, -, hsame⟩ := mem_namedEdits hts h hL hstring
      rw [hat] at hsame
      cases hsame
      exact absurd rfl ((List.nodup_append.mp (edits_nodup hts)).2.2 e he e hf)

end Edits

/-- How edits change the length of a text. -/
theorem length_applyEdits {es : List Edit} {t out : List Char} (h : applyEdits es t = some out) :
    out.length + (es.map fun e => e.stop - e.start).sum = t.length + (es.map fun e => e.replacement.length).sum := by
  induction es generalizing out with
  | nil =>
      cases h
      rfl
  | cons e es ih =>
      obtain ⟨u, hu, hreplace⟩ := Option.bind_eq_some_iff.mp h
      have hlength := ih hu
      rw [replaceRange] at hreplace
      split at hreplace
      · rename_i hrange
        cases hreplace
        simp only [List.length_append, List.length_take, List.length_drop, List.map_cons, List.sum_cons]
        omega
      · cases hreplace

end Wordflow.Ddl
