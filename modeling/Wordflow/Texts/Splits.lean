import Mathlib.Data.List.Sort
import Mathlib.Data.Set.Card
import Wordflow.Library.Identifier
import Wordflow.Library.Regex
import Wordflow.Library.Slices

namespace Wordflow.Texts

open Library Library.Regex

section Source

/-- The longer ones first. -/
def byLength (delimiters : List (List Char)) : List (List Char) := delimiters.insertionSort fun d e => extent e ≤ extent d

def delimiterPattern (delimiters : List (List Char)) (right : Bool) : Option Pattern :=
  let delimiters := if right then delimiters.map List.reverse else delimiters
  parse (['|'].intercalate ((byLength delimiters).map escape))

/-- What stands between matches, from a position on. -/
def pieces (text : List Char) : Nat → List (Nat × Nat) → List (List Char)
  | start, [] => [text.drop start]
  | start, delimiter :: rest => (text.take delimiter.1).drop start :: pieces text delimiter.2 rest

variable (word : Char → Bool)

def splitText (text : List Char) (pattern : Pattern) (parts : Nat) (right : Bool) : List (List Char) :=
  let text := if right then text.reverse else text
  let result := pieces text 0 ((findAll word (fun c d => c = d) pattern text).take (parts - 1))
  if right then result.reverse.map List.reverse else result

/-- A row of `wordflow_split`. -/
def splitRow (text : Option (List Char)) (delimiters : List (List Char)) (parts : Nat) (right : Bool) :
    Except String (Option (List (Option (List Char)))) :=
  match text with
  | none => .ok none
  | some text =>
      if ¬(2 ≤ parts ∧ parts ≤ 50) then .error "Split needs between 2 and 50 columns"
      else if delimiters = [] ∨ [] ∈ delimiters then .error "Enter nonempty literal delimiters"
      else match delimiterPattern delimiters right with
        | none => .error "regex parse error"
        | some pattern =>
            let values := splitText word text pattern parts right
            .ok (some (values.map some ++ List.replicate (parts - values.length) none))

/-- What a text is split into by a list of delimiters. -/
def split (delimiters : List (List Char)) (text : List Char) (parts : Nat) (right : Bool) : Option (List (List Char)) :=
  (delimiterPattern delimiters right).map fun pattern => splitText word text pattern parts right

end Source

section Meaning

/-- The longest delimiter that a text starts with. -/
def Longest (delimiters : List (List Char)) (text d : List Char) : Prop :=
  d ∈ delimiters ∧ d <+: text ∧ ∀ e ∈ delimiters, e <+: text → e.length ≤ d.length

/-- The longest delimiter that a text ends with. -/
def LongestEnd (delimiters : List (List Char)) (text d : List Char) : Prop :=
  d ∈ delimiters ∧ d <:+ text ∧ ∀ e ∈ delimiters, e <:+ text → e.length ≤ d.length

/-- The pieces of a text that is split from the left, into so many parts at most. -/
inductive LeftSplit (delimiters : List (List Char)) : Nat → List Char → List (List Char) → Prop
  | rest {parts : Nat} {text : List Char} (h : parts = 0 ∨ ∀ d ∈ delimiters, ¬d <:+: text) :
      LeftSplit delimiters (parts + 1) text [text]
  | next {parts : Nat} {p d text : List Char} {ps : List (List Char)} (hd : Longest delimiters (d ++ text) d)
      (hp : ∀ before after, p = before ++ after → after ≠ [] → ∀ e ∈ delimiters, ¬e <+: after ++ d ++ text)
      (h : LeftSplit delimiters (parts + 1) text ps) : LeftSplit delimiters (parts + 2) (p ++ d ++ text) (p :: ps)

/-- The pieces of a text that is split from the right. -/
inductive RightSplit (delimiters : List (List Char)) : Nat → List Char → List (List Char) → Prop
  | rest {parts : Nat} {text : List Char} (h : parts = 0 ∨ ∀ d ∈ delimiters, ¬d <:+: text) :
      RightSplit delimiters (parts + 1) text [text]
  | next {parts : Nat} {p d text : List Char} {ps : List (List Char)} (hd : LongestEnd delimiters (text ++ d) d)
      (hp : ∀ before after, p = before ++ after → before ≠ [] → ∀ e ∈ delimiters, ¬e <:+ text ++ d ++ before)
      (h : RightSplit delimiters (parts + 1) text ps) : RightSplit delimiters (parts + 2) (text ++ d ++ p) (ps ++ [p])

/-- The pieces with the delimiters between them. -/
def weave : List (List Char) → List (List Char) → List Char
  | p :: ps, d :: ds => p ++ d ++ weave ps ds
  | ps, _ => ps.flatten

/-- A delimiter stands at a place of a text. -/
def Occurs (delimiters : List (List Char)) (text : List Char) (i j : Nat) : Prop :=
  ∃ before d after, d ∈ delimiters ∧ text = before ++ d ++ after ∧ i = before.length ∧ j = i + d.length

/-- No two occurrences of delimiters overlap. -/
def Apart (delimiters : List (List Char)) (text : List Char) : Prop :=
  ∀ i j k l, Occurs delimiters text i j → Occurs delimiters text k l → (i, j) = (k, l) ∨ j ≤ k ∨ l ≤ i

end Meaning

section Longest

variable {delimiters : List (List Char)} {text d e : List Char} {word : Char → Bool} {pattern : Pattern}

theorem extent_mono (h : d <+: e) (hne : d.length < e.length) : extent d < extent e := by
  obtain ⟨rest, rfl⟩ := h
  rw [List.length_append] at hne
  have hpos := extent_pos (List.length_pos_iff.mp (Nat.pos_of_lt_add_right hne))
  rw [extent_append]
  omega

theorem Longest.unique (h : Longest delimiters text d) (h' : Longest delimiters text e) : d = e := by
  obtain ⟨hmem, hstarts, hlongest⟩ := h
  obtain ⟨hmem', hstarts', hlongest'⟩ := h'
  have hlength := Nat.le_antisymm (hlongest' d hmem hstarts) (hlongest e hmem' hstarts')
  exact (List.prefix_of_prefix_length_le hstarts hstarts' (Nat.le_of_eq hlength)).eq_of_length hlength

/-- The first delimiter that the text starts with is the longest, when the longer ones come first. -/
theorem find_longest (hsorted : delimiters.Pairwise fun d e => extent e ≤ extent d)
    (hfind : delimiters.find? (fun s => agrees (fun c d => decide (c = d)) s text) = some d) : Longest delimiters text d := by
  obtain ⟨hd, before, after, rfl, hbefore⟩ := List.find?_eq_some_iff_append.mp hfind
  rw [agrees_iff_start] at hd
  refine ⟨List.mem_append_right _ List.mem_cons_self, hd, fun e he hstarts => ?_⟩
  rcases List.mem_append.mp he with he | he
  · have hnot := hbefore e he
    rw [(agrees_iff_start e text).mpr hstarts] at hnot
    cases hnot
  · rcases List.mem_cons.mp he with rfl | he
    · exact Nat.le_refl _
    · have hle := List.rel_of_pairwise_cons (List.pairwise_append.mp hsorted).2.1 he
      by_contra hlt
      have hlength := Nat.not_le.mp hlt
      have hmono := extent_mono (List.prefix_of_prefix_length_le hd hstarts (Nat.le_of_lt hlength)) hlength
      omega

theorem byLength_pairwise (delimiters : List (List Char)) : (byLength delimiters).Pairwise fun d e => extent e ≤ extent d :=
  @List.pairwise_insertionSort _ _ _ ⟨fun d e => Nat.le_total (extent e) (extent d)⟩ ⟨fun _ _ _ h h' => Nat.le_trans h' h⟩ _

theorem mem_byLength : d ∈ byLength delimiters ↔ d ∈ delimiters := List.mem_insertionSort _

theorem find_byLength : (byLength delimiters).find? (fun s => agrees (fun c d => decide (c = d)) s text) = some d ↔
    Longest delimiters text d := by
  have hmem : ∀ d, Longest (byLength delimiters) text d ↔ Longest delimiters text d := by
    intro d
    simp only [Longest, mem_byLength]
  constructor
  · intro hfind
    exact (hmem d).mp (find_longest (byLength_pairwise delimiters) hfind)
  · intro hd
    cases hfind : (byLength delimiters).find? (fun s => agrees (fun c d => decide (c = d)) s text) with
    | none =>
        have hnone := List.find?_eq_none.mp hfind d (mem_byLength.mpr hd.1)
        exact absurd ((agrees_iff_start d text).mpr hd.2.1) hnone
    | some e => rw [((hmem e).mp (find_longest (byLength_pairwise delimiters) hfind)).unique hd]

theorem exists_longest (he : e ∈ delimiters) (hstarts : e <+: text) : ∃ d, Longest delimiters text d := by
  cases hfind : (byLength delimiters).find? (fun s => agrees (fun c d => decide (c = d)) s text) with
  | none =>
      have hnone := List.find?_eq_none.mp hfind e (mem_byLength.mpr he)
      exact absurd ((agrees_iff_start e text).mpr hstarts) hnone
  | some d => exact ⟨d, find_byLength.mp hfind⟩

theorem delimiterPattern_isSome (hne : delimiters ≠ []) : ∃ p, delimiterPattern delimiters false = some p := by
  have hsorted : byLength delimiters ≠ [] := by
    obtain ⟨d, hd⟩ := List.exists_mem_of_ne_nil _ hne
    exact List.ne_nil_of_mem (mem_byLength.mpr hd)
  obtain ⟨s, rest, heq⟩ := List.exists_cons_of_ne_nil hsorted
  refine ⟨anyOf none s rest, ?_⟩
  rw [delimiterPattern, if_neg Bool.false_ne_true, heq]
  exact parseFrom_anyOf none s rest

/-- A place where the longest delimiter stands. -/
def LongestAt (delimiters : List (List Char)) (text : List Char) (i j : Nat) : Prop :=
  ∃ d, Longest delimiters (text.drop i) d ∧ j = i + d.length

theorem matchAt_delimiter (hne : delimiters ≠ []) (hp : delimiterPattern delimiters false = some pattern) {i j : Nat} :
    matchAt word (fun c d => c = d) pattern text i = some j ↔ LongestAt delimiters text i j := by
  have hsorted : byLength delimiters ≠ [] := by
    obtain ⟨d, hd⟩ := List.exists_mem_of_ne_nil _ hne
    exact List.ne_nil_of_mem (mem_byLength.mpr hd)
  rw [delimiterPattern, if_neg Bool.false_ne_true] at hp
  rw [matchAt_alternatives hp hsorted, Option.map_eq_some_iff]
  constructor
  · rintro ⟨d, hfind, rfl⟩
    exact ⟨d, find_byLength.mp hfind, rfl⟩
  · rintro ⟨d, hd, rfl⟩
    exact ⟨d, find_byLength.mpr hd, rfl⟩

theorem LongestAt.bounds (hempty : [] ∉ delimiters) {i j : Nat} (h : LongestAt delimiters text i j) :
    i < j ∧ j ≤ text.length := by
  obtain ⟨d, ⟨hmem, hstarts, -⟩, rfl⟩ := h
  have hpos : 0 < d.length := by
    rw [List.length_pos_iff]
    rintro rfl
    exact hempty hmem
  have hlength := hstarts.length_le
  rw [List.length_drop] at hlength
  omega

theorem found_successive (hne : delimiters ≠ []) (hempty : [] ∉ delimiters)
    (hp : delimiterPattern delimiters false = some pattern) (text : List Char) :
    Successive (LongestAt delimiters text) 0 (findAll word (fun c d => c = d) pattern text) := by
  have hfound := @findAll_successive word (fun c d => c = d) pattern text
    fun i j hmatch => ((matchAt_delimiter hne hp).mp hmatch).bounds hempty
  exact hfound.congr fun i j => matchAt_delimiter hne hp

end Longest

section Left

variable {delimiters : List (List Char)} {text : List Char}

/-- The pieces between the first matches are split from the left. -/
theorem leftSplit_pieces {start : Nat} {hits : List (Nat × Nat)}
    (h : Successive (LongestAt delimiters text) start hits) (parts : Nat) :
    LeftSplit delimiters (parts + 1) (text.drop start) (pieces text start (hits.take parts)) := by
  induction h generalizing parts with
  | @done start hnone =>
      rw [List.take_nil, pieces]
      refine .rest (.inr ?_)
      rintro e he ⟨before, after, hsplit⟩
      have hdrop : text.drop (start + before.length) = e ++ after := by
        rw [← List.drop_drop, ← hsplit, List.append_assoc, List.drop_left]
      obtain ⟨d, hd⟩ := exists_longest he (hdrop ▸ List.prefix_append e after)
      exact hnone _ _ (Nat.le_add_right _ _) ⟨d, hd, rfl⟩
  | @next start i j rest hle hbefore hmatch hrest ih =>
      cases parts with
      | zero => exact .rest (.inl rfl)
      | succ parts =>
          obtain ⟨d, hd, rfl⟩ := hmatch
          have hafter : text.drop i = d ++ text.drop (i + d.length) := by
            obtain ⟨after, hafter⟩ := hd.2.1
            rw [← List.drop_drop, ← hafter, List.drop_left]
          have hsplit : text.drop start = (text.take i).drop start ++ d ++ text.drop (i + d.length) := by
            rw [List.append_assoc, ← hafter, List.drop_take, ← Nat.add_sub_cancel' hle, ← List.drop_drop, Nat.add_sub_cancel_left,
              List.take_append_drop]
          rw [List.take_succ_cons, pieces, hsplit]
          refine .next (hafter ▸ hd) (fun before after hpiece hne e he hstarts => ?_) (ih parts)
          have hdrop : text.drop (start + before.length) = after ++ d ++ text.drop (i + d.length) := by
            rw [← List.drop_drop, hsplit, hpiece, List.append_assoc, List.append_assoc, List.drop_left, List.append_assoc]
          have hlength : before.length + after.length ≤ i - start := by
            have h := congrArg List.length hpiece
            rw [List.length_append, List.length_drop, List.length_take] at h
            omega
          have hpos := List.length_pos_iff.mpr hne
          obtain ⟨l, hl⟩ := exists_longest he (hdrop ▸ hstarts)
          exact hbefore _ _ (Nat.le_add_right _ _) (by omega) ⟨l, hl, rfl⟩

theorem LeftSplit.reverse {parts : Nat} {ps : List (List Char)} (h : LeftSplit (delimiters.map List.reverse) parts text ps) :
    RightSplit delimiters parts text.reverse (ps.reverse.map List.reverse) := by
  have hmem : ∀ {d}, d ∈ delimiters → d.reverse ∈ delimiters.map List.reverse := List.mem_map_of_mem
  induction h with
  | rest h =>
      refine .rest (h.imp_right fun hnone d hd hinfix => hnone _ (hmem hd) ?_)
      rw [← List.reverse_infix, List.reverse_reverse]
      exact hinfix
  | @next parts p d text ps hd hp h ih =>
      obtain ⟨hin, hstarts, hlongest⟩ := hd
      obtain ⟨d, hd, rfl⟩ := List.mem_map.mp hin
      rw [List.reverse_cons, List.map_append, List.map_singleton, List.reverse_append, List.reverse_append, ← List.append_assoc,
        List.reverse_reverse]
      refine .next ⟨hd, List.suffix_append _ _, fun e he hsuffix => ?_⟩ (fun before after hpiece hne e he hsuffix => ?_) ih
      · have hlength := hlongest _ (hmem he) (by
          rw [← List.reverse_suffix, List.reverse_append, List.reverse_reverse, List.reverse_reverse]
          exact hsuffix)
        rwa [List.length_reverse, List.length_reverse] at hlength
      · refine hp after.reverse before.reverse ?_ (List.reverse_ne_nil_iff.mpr hne) _ (hmem he) ?_
        · rw [← List.reverse_append, ← hpiece, List.reverse_reverse]
        · rw [← List.reverse_suffix]
          simpa using hsuffix

theorem weave_concat {ps ds : List (List Char)} {p d : List Char} (h : ps.length = ds.length + 1) :
    weave (ps ++ [p]) (ds ++ [d]) = weave ps ds ++ d ++ p := by
  induction ds generalizing ps with
  | nil =>
      obtain ⟨q, rfl⟩ := List.length_eq_one_iff.mp h
      simp [weave]
  | cons e ds ih =>
      cases ps with
      | nil => cases h
      | cons q ps =>
          rw [List.cons_append, List.cons_append, weave, weave, ih (Nat.succ.inj h)]
          simp only [List.append_assoc]

/-- Pieces with delimiters between them that make up the text. -/
def Lossless (delimiters : List (List Char)) (parts : Nat) (text : List Char) (ps : List (List Char)) : Prop :=
  ps.length ≤ parts ∧ ∃ ds, ps.length = ds.length + 1 ∧ (∀ d ∈ ds, d ∈ delimiters) ∧ weave ps ds = text

theorem LeftSplit.lossless {parts : Nat} {ps : List (List Char)} (h : LeftSplit delimiters parts text ps) :
    Lossless delimiters parts text ps := by
  induction h with
  | rest => exact ⟨Nat.le_add_left _ _, [], rfl, List.forall_mem_nil _, List.append_nil _⟩
  | @next parts p d text ps hd _ _ ih =>
      obtain ⟨hparts, ds, hlength, hds, rfl⟩ := ih
      exact ⟨Nat.succ_le_succ hparts, d :: ds, congrArg Nat.succ hlength, List.forall_mem_cons.mpr ⟨hd.1, hds⟩, rfl⟩

theorem RightSplit.lossless {parts : Nat} {ps : List (List Char)} (h : RightSplit delimiters parts text ps) :
    Lossless delimiters parts text ps := by
  induction h with
  | rest => exact ⟨Nat.le_add_left _ _, [], rfl, List.forall_mem_nil _, List.append_nil _⟩
  | @next parts p d text ps hd _ _ ih =>
      obtain ⟨hparts, ds, hlength, hds, rfl⟩ := ih
      refine ⟨?_, ds ++ [d], ?_, ?_, weave_concat hlength⟩
      · rw [List.length_append]
        exact Nat.succ_le_succ hparts
      · rw [List.length_append, List.length_append, hlength]
        rfl
      · exact List.forall_mem_append.mpr ⟨hds, List.forall_mem_singleton.mpr hd.1⟩

end Left

section Directions

variable {delimiters : List (List Char)} {text : List Char}

theorem Occurs.bounds (hempty : [] ∉ delimiters) {i j : Nat} (h : Occurs delimiters text i j) : i < j ∧ j ≤ text.length := by
  obtain ⟨before, d, after, hd, rfl, rfl, rfl⟩ := h
  have hpos : 0 < d.length := by
    rw [List.length_pos_iff]
    rintro rfl
    exact hempty hd
  rw [List.length_append, List.length_append]
  omega

theorem occurs_of_start {d : List Char} {i : Nat} (hi : i ≤ text.length) (hd : d ∈ delimiters) (h : d <+: text.drop i) :
    Occurs delimiters text i (i + d.length) := by
  obtain ⟨after, hafter⟩ := h
  refine ⟨text.take i, d, after, hd, ?_, (List.length_take_of_le hi).symm, rfl⟩
  rw [List.append_assoc, hafter, List.take_append_drop]

/-- Where no two occurrences overlap, each of them is the longest. -/
theorem longestAt_iff_occurs (hempty : [] ∉ delimiters) (hapart : Apart delimiters text) {i j : Nat} :
    LongestAt delimiters text i j ↔ Occurs delimiters text i j := by
  constructor
  · intro h
    have hbounds := h.bounds hempty
    obtain ⟨d, ⟨hd, hstarts, -⟩, rfl⟩ := h
    exact occurs_of_start (by omega) hd hstarts
  · intro h
    have hbounds' := h.bounds hempty
    obtain ⟨before, e, after, he, htext, hi, hj⟩ := id h
    have hstarts : e <+: text.drop i := by
      rw [htext, hi, List.append_assoc, List.drop_left]
      exact List.prefix_append e after
    obtain ⟨d, hd⟩ := exists_longest he hstarts
    have hat : LongestAt delimiters text i (i + d.length) := ⟨d, hd, rfl⟩
    have hbounds := hat.bounds hempty
    rcases hapart _ _ _ _ h (occurs_of_start (by omega) hd.1 hd.2.1) with heq | hle | hle
    · obtain ⟨-, rfl⟩ := Prod.mk.inj heq
      exact hat
    · omega
    · omega

theorem Occurs.reverse {i j : Nat} (h : Occurs delimiters text i j) :
    Occurs (delimiters.map List.reverse) text.reverse (text.length - j) (text.length - i) := by
  obtain ⟨before, d, after, hd, rfl, rfl, rfl⟩ := h
  refine ⟨after.reverse, d.reverse, before.reverse, List.mem_map_of_mem hd, ?_, ?_, ?_⟩
  · simp only [List.reverse_append, List.append_assoc]
  · rw [List.length_append, List.length_append, List.length_reverse]
    omega
  · rw [List.length_append, List.length_append, List.length_reverse]
    omega

theorem nil_not_reversed (hempty : [] ∉ delimiters) : [] ∉ delimiters.map List.reverse := by
  intro h
  obtain ⟨d, hd, hnil⟩ := List.mem_map.mp h
  exact hempty (List.reverse_eq_nil_iff.mp hnil ▸ hd)

theorem occurs_reverse (hempty : [] ∉ delimiters) {i j : Nat} : Occurs (delimiters.map List.reverse) text.reverse i j ↔
    j ≤ text.length ∧ Occurs delimiters text (text.length - j) (text.length - i) := by
  constructor
  · intro h
    have hbounds := h.bounds (nil_not_reversed hempty)
    have hback := h.reverse
    rw [List.length_reverse] at hbounds
    rw [List.map_map, List.reverse_involutive.comp_self, List.map_id, List.reverse_reverse, List.length_reverse] at hback
    exact ⟨hbounds.2, hback⟩
  · rintro ⟨hj, h⟩
    have hbounds := h.bounds hempty
    have hback := h.reverse
    rwa [Nat.sub_sub_self hj, Nat.sub_sub_self (by omega)] at hback

/-- The places of a text, as places of the text reversed. -/
def mirror (length : Nat) (hits : List (Nat × Nat)) : List (Nat × Nat) :=
  (hits.map fun hit => (length - hit.2, length - hit.1)).reverse

theorem pieces_concat {start i j : Nat} {hits : List (Nat × Nat)} (h : ∀ hit ∈ hits, hit.1 ≤ i) :
    pieces text start (hits ++ [(i, j)]) = pieces (text.take i) start hits ++ [text.drop j] := by
  induction hits generalizing start with
  | nil => rfl
  | cons hit hits ih =>
      obtain ⟨hhit, hhits⟩ := List.forall_mem_cons.mp h
      rw [List.cons_append, pieces, ih hhits, pieces, List.take_take, Nat.min_eq_left hhit, List.cons_append]

/-- The pieces of the text reversed, between the same matches. -/
theorem pieces_mirror {start : Nat} {hits : List (Nat × Nat)} (hstart : start ≤ text.length)
    (hpairwise : hits.Pairwise fun hit next => hit.2 ≤ next.1) (hhits : ∀ hit ∈ hits, start ≤ hit.1 ∧ hit.1 ≤ hit.2 ∧ hit.2 ≤ text.length) :
    (pieces (text.drop start).reverse 0 (mirror text.length hits)).reverse.map List.reverse = pieces text start hits := by
  induction hits generalizing start with
  | nil => simp [mirror, pieces]
  | cons hit hits ih =>
      obtain ⟨i, j⟩ := hit
      obtain ⟨hafter, hpairwise⟩ := List.pairwise_cons.mp hpairwise
      obtain ⟨⟨hi, hij, hj⟩, hrest⟩ := List.forall_mem_cons.mp hhits
      have hmirror : mirror text.length ((i, j) :: hits) = mirror text.length hits ++ [(text.length - j, text.length - i)] := by
        rw [mirror, List.map_cons, List.reverse_cons, ← mirror]
      have hbefore : ∀ hit ∈ mirror text.length hits, hit.1 ≤ text.length - j := by
        intro hit hhit
        rw [mirror, List.mem_reverse] at hhit
        obtain ⟨next, hnext, rfl⟩ := List.mem_map.mp hhit
        have hle : j ≤ next.1 := hafter next hnext
        have hnext' := hrest next hnext
        simp only
        omega
      have htake : (text.drop start).reverse.take (text.length - j) = (text.drop j).reverse := by
        rw [List.take_reverse, List.drop_drop, List.length_drop]
        congr 2
        omega
      have hdrop : (text.drop start).reverse.drop (text.length - i) = ((text.take i).drop start).reverse := by
        rw [List.drop_reverse, List.length_drop, List.drop_take]
        congr 2
        omega
      rw [hmirror, pieces_concat hbefore, List.reverse_append, List.map_append, List.reverse_singleton, List.map_singleton,
        List.singleton_append, pieces, htake, hdrop, List.reverse_reverse]
      rw [ih hj hpairwise fun hit hhit => ⟨hafter hit hhit, (hrest hit hhit).2⟩]

theorem mem_mirror {length i j : Nat} {hits : List (Nat × Nat)} (hhits : ∀ hit ∈ hits, hit.1 < hit.2 ∧ hit.2 ≤ length) :
    (i, j) ∈ mirror length hits ↔ i < j ∧ j ≤ length ∧ (length - j, length - i) ∈ hits := by
  rw [mirror, List.mem_reverse, List.mem_map]
  constructor
  · rintro ⟨⟨k, l⟩, hmem, heq⟩
    obtain ⟨rfl, rfl⟩ := Prod.mk.inj heq
    obtain ⟨hlt, hle⟩ : k < l ∧ l ≤ length := hhits _ hmem
    simp only
    rw [Nat.sub_sub_self hle, Nat.sub_sub_self (by omega)]
    exact ⟨by omega, Nat.sub_le _ _, hmem⟩
  · rintro ⟨hlt, hle, hmem⟩
    refine ⟨_, hmem, ?_⟩
    rw [Nat.sub_sub_self hle, Nat.sub_sub_self (by omega)]

theorem mirror_pairwise {length : Nat} {hits : List (Nat × Nat)} (h : hits.Pairwise fun hit next => hit.2 ≤ next.1) :
    (mirror length hits).Pairwise fun hit next => hit.2 ≤ next.1 := by
  rw [mirror, List.pairwise_reverse, List.pairwise_map]
  exact h.imp fun hle => Nat.sub_le_sub_left hle length

/-- Both directions find the same matches, where no two occurrences overlap. -/
theorem found_mirror {hits hits' : List (Nat × Nat)} (hempty : [] ∉ delimiters) (hapart : Apart delimiters text)
    (h : Successive (Occurs delimiters text) 0 hits)
    (h' : Successive (Occurs (delimiters.map List.reverse) text.reverse) 0 hits') : hits' = mirror text.length hits := by
  have hbounds : ∀ i j, Occurs delimiters text i j → i < j ∧ j ≤ text.length := fun i j => Occurs.bounds hempty
  have hmem : ∀ i j, Occurs delimiters text i j ↔ (i, j) ∈ hits := by
    intro i j
    constructor
    · exact h.complete (fun i j hmatch => (hbounds i j hmatch).1) hapart (Nat.zero_le i)
    · exact fun hhit => (h.mem (fun i j hmatch => Nat.le_of_lt (hbounds i j hmatch).1) _ hhit).2
  have hhits : ∀ hit ∈ hits, hit.1 < hit.2 ∧ hit.2 ≤ text.length := fun hit hhit => hbounds _ _ ((hmem _ _).mpr hhit)
  refine h'.unique (fun i j k hj hk => ?_) (successive_of_pairwise (mirror_pairwise (h.pairwise fun i j hmatch =>
    Nat.le_of_lt (hbounds i j hmatch).1)) (fun hit hhit => ((mem_mirror hhits).mp hhit).1) (fun _ _ => Nat.zero_le _) fun i j _ => ?_)
  · obtain ⟨hjn, hj⟩ := (occurs_reverse hempty).mp hj
    obtain ⟨hkn, hk⟩ := (occurs_reverse hempty).mp hk
    have hij := (hbounds _ _ hj).1
    have hik := (hbounds _ _ hk).1
    rcases hapart _ _ _ _ hj hk with heq | hle | hle
    · have := (Prod.mk.inj heq).1
      omega
    · omega
    · omega
  · rw [occurs_reverse hempty, mem_mirror hhits, ← hmem]
    constructor
    · rintro ⟨hle, hmatch⟩
      have hlt := hbounds _ _ hmatch
      exact ⟨by omega, hle, hmatch⟩
    · rintro ⟨-, hle, hmatch⟩
      exact ⟨hle, hmatch⟩

/-- All the matches are used, when there are fewer occurrences than parts. -/
theorem length_of_fewer {hits : List (Nat × Nat)} {parts : Nat} (hempty : [] ∉ delimiters)
    (h : Successive (Occurs delimiters text) 0 hits)
    (hfewer : {hit : Nat × Nat | Occurs delimiters text hit.1 hit.2}.encard < parts) : hits.length < parts := by
  have hle : ∀ i j, Occurs delimiters text i j → i < j := fun i j hmatch => (hmatch.bounds hempty).1
  have hmem := h.mem fun i j hmatch => Nat.le_of_lt (hle i j hmatch)
  have hnodup : hits.Nodup := by
    refine (h.pairwise fun i j hmatch => Nat.le_of_lt (hle i j hmatch)).imp_of_mem ?_
    rintro hit next hhit - hbefore rfl
    have hlt := hle _ _ (hmem hit hhit).2
    omega
  have hsub : (hits.toFinset : Set (Nat × Nat)) ⊆ {hit : Nat × Nat | Occurs delimiters text hit.1 hit.2} := by
    intro hit hhit
    exact (hmem hit (List.mem_toFinset.mp hhit)).2
  have hcard := (Set.encard_le_encard hsub).trans_lt hfewer
  rw [Set.encard_coe_eq_coe_finsetCard, List.toFinset_card_of_nodup hnodup] at hcard
  exact_mod_cast hcard

end Directions

section Splits

variable {word : Char → Bool} {delimiters : List (List Char)}

theorem split_left (hne : delimiters ≠ []) (hempty : [] ∉ delimiters) (text : List Char) (parts : Nat) :
    ∃ hits, Successive (LongestAt delimiters text) 0 hits ∧
      split word delimiters text parts false = some (pieces text 0 (hits.take (parts - 1))) := by
  obtain ⟨pattern, hp⟩ := delimiterPattern_isSome hne
  refine ⟨_, @found_successive _ word _ hne hempty hp text, ?_⟩
  rw [split, hp]
  rfl

theorem split_right (text : List Char) (parts : Nat) : split word delimiters text parts true =
    (split word (delimiters.map List.reverse) text.reverse parts false).map fun ps => ps.reverse.map List.reverse := by
  rw [split, split, Option.map_map]
  rfl

/-- The order of the delimiters does not matter. -/
theorem split_congr {others : List (List Char)} (hne : delimiters ≠ []) (hempty : [] ∉ delimiters)
    (h : ∀ d, d ∈ others ↔ d ∈ delimiters) (text : List Char) (parts : Nat) :
    split word others text parts false = split word delimiters text parts false := by
  have hne' : others ≠ [] := by
    obtain ⟨d, hd⟩ := List.exists_mem_of_ne_nil _ hne
    exact List.ne_nil_of_mem ((h d).mpr hd)
  have hempty' : [] ∉ others := fun hnil => hempty ((h []).mp hnil)
  have hat : LongestAt others text = LongestAt delimiters text := by
    funext i j
    simp only [LongestAt, Longest, h]
  obtain ⟨hits, hhits, hsplit⟩ := @split_left word _ hne hempty text parts
  obtain ⟨hits', hhits', hsplit'⟩ := @split_left word _ hne' hempty' text parts
  rw [hat] at hhits'
  have hsame : hits' = hits := by
    refine hhits'.unique (fun i j k hj hk => ?_) hhits
    obtain ⟨d, hd, rfl⟩ := hj
    obtain ⟨e, he, rfl⟩ := hk
    rw [hd.unique he]
  rw [hsplit, hsplit', hsame]

/-- Both directions give the same pieces, where no two occurrences overlap and all of them are used. -/
theorem directions_agree {hits hits' : List (Nat × Nat)} {text : List Char} {parts : Nat} (hempty : [] ∉ delimiters)
    (h : Successive (LongestAt delimiters text) 0 hits)
    (h' : Successive (LongestAt (delimiters.map List.reverse) text.reverse) 0 hits') (hapart : Apart delimiters text)
    (hfewer : {hit : Nat × Nat | Occurs delimiters text hit.1 hit.2}.encard < parts) :
    (pieces text.reverse 0 (hits'.take (parts - 1))).reverse.map List.reverse = pieces text 0 (hits.take (parts - 1)) := by
  have hapart' : Apart (delimiters.map List.reverse) text.reverse := by
    intro i j k l hij hkl
    have hi := hij.bounds (nil_not_reversed hempty)
    have hk := hkl.bounds (nil_not_reversed hempty)
    obtain ⟨hj, hij⟩ := (occurs_reverse hempty).mp hij
    obtain ⟨hl, hkl⟩ := (occurs_reverse hempty).mp hkl
    rw [Prod.mk.injEq]
    rcases hapart _ _ _ _ hij hkl with heq | hle | hle
    · obtain ⟨h1, h2⟩ := Prod.mk.inj heq
      omega
    · omega
    · omega
  have hocc := h.congr fun i j => longestAt_iff_occurs hempty hapart
  have hocc' := h'.congr fun i j => longestAt_iff_occurs (nil_not_reversed hempty) hapart'
  have hlength := length_of_fewer hempty hocc hfewer
  have hmirror := found_mirror hempty hapart hocc hocc'
  have hbounds : ∀ i j, Occurs delimiters text i j → i < j ∧ j ≤ text.length := fun i j => Occurs.bounds hempty
  have hle : ∀ i j, Occurs delimiters text i j → i ≤ j := fun i j hmatch => Nat.le_of_lt (hbounds i j hmatch).1
  have hlength' : hits'.length = hits.length := by
    rw [hmirror, mirror, List.length_reverse, List.length_map]
  rw [List.take_of_length_le (by omega), List.take_of_length_le (by omega), hmirror]
  refine pieces_mirror (Nat.zero_le _) (hocc.pairwise hle) fun hit hhit => ?_
  obtain ⟨hstart, hmatch⟩ := hocc.mem hle hit hhit
  exact ⟨hstart, hle _ _ hmatch, (hbounds _ _ hmatch).2⟩

theorem split_sides (hne : delimiters ≠ []) (hempty : [] ∉ delimiters) (text : List Char) {parts : Nat} (hparts : 2 ≤ parts) :
    ∃ hits hits', Successive (LongestAt delimiters text) 0 hits ∧
      Successive (LongestAt (delimiters.map List.reverse) text.reverse) 0 hits' ∧
      ∃ left right, left = pieces text 0 (hits.take (parts - 1)) ∧
        right = (pieces text.reverse 0 (hits'.take (parts - 1))).reverse.map List.reverse ∧
        split word delimiters text parts false = some left ∧ split word delimiters text parts true = some right ∧
        LeftSplit delimiters parts text left ∧ RightSplit delimiters parts text right := by
  have hne' : delimiters.map List.reverse ≠ [] := fun hnil => hne (List.map_eq_nil_iff.mp hnil)
  obtain ⟨hits, hhits, hleft⟩ := @split_left word _ hne hempty text parts
  obtain ⟨hits', hhits', hright⟩ := @split_left word _ hne' (nil_not_reversed hempty) text.reverse parts
  have hfrom := leftSplit_pieces hhits (parts - 1)
  have hback := (leftSplit_pieces hhits' (parts - 1)).reverse
  rw [Nat.sub_add_cancel (by omega), List.drop_zero] at hfrom hback
  rw [List.reverse_reverse] at hback
  refine ⟨hits, hits', hhits, hhits', _, _, rfl, rfl, hleft, ?_, hfrom, hback⟩
  rw [split_right, hright, Option.map_some]

/-- A split loses nothing, keeps its direction, whatever the order of the delimiters, and both directions agree where
no two occurrences overlap. -/
theorem split_is_lossless (hne : delimiters ≠ []) (hempty : [] ∉ delimiters) (text : List Char) {parts : Nat} (hparts : 2 ≤ parts) :
    ∃ left right, split word delimiters text parts false = some left ∧ split word delimiters text parts true = some right ∧
      Lossless delimiters parts text left ∧ LeftSplit delimiters parts text left ∧
      Lossless delimiters parts text right ∧ RightSplit delimiters parts text right ∧
      (∀ others, (∀ d, d ∈ others ↔ d ∈ delimiters) →
        split word others text parts false = some left ∧ split word others text parts true = some right) ∧
      (Apart delimiters text → {hit : Nat × Nat | Occurs delimiters text hit.1 hit.2}.encard < parts → left = right) := by
  obtain ⟨hits, hits', hhits, hhits', left, right, hl, hr, hleft, hright, hfrom, hback⟩ := @split_sides word _ hne hempty text _ hparts
  refine ⟨left, right, hleft, hright, hfrom.lossless, hfrom, hback.lossless, hback, fun others hothers => ⟨?_, ?_⟩, fun hapart hfewer => ?_⟩
  · rw [split_congr hne hempty hothers, hleft]
  · have hne' : delimiters.map List.reverse ≠ [] := fun hnil => hne (List.map_eq_nil_iff.mp hnil)
    have hreversed : ∀ d, d ∈ others.map List.reverse ↔ d ∈ delimiters.map List.reverse := by
      intro d
      simp only [List.mem_map, hothers]
    rw [split_right, split_congr hne' (nil_not_reversed hempty) hreversed, ← split_right, hright]
  · rw [hl, hr, directions_agree hempty hhits hhits' hapart hfewer]

/-- The longest delimiter at a place wins from either side. -/
theorem colons_are_lossless : ∃ left right,
    split (fun _ => false) [":".toList, "::".toList] "a::b:c::d".toList 3 false = some left ∧
      split (fun _ => false) [":".toList, "::".toList] "a::b:c::d".toList 3 true = some right ∧
      left = ["a".toList, "b".toList, "c::d".toList] ∧ right = ["a::b".toList, "c".toList, "d".toList] ∧
      LeftSplit [":".toList, "::".toList] 3 "a::b:c::d".toList left ∧
      RightSplit [":".toList, "::".toList] 3 "a::b:c::d".toList right := by
  obtain ⟨left, right, hleft, hright, -, hfrom, -, hback, -⟩ := @split_is_lossless (fun _ => false) [":".toList, "::".toList]
    (by decide) (by decide) "a::b:c::d".toList 3 (by decide)
  refine ⟨left, right, hleft, hright, ?_, ?_, hfrom, hback⟩
  · rw [← Option.some_inj, ← hleft]
    decide
  · rw [← Option.some_inj, ← hright]
    decide

/-- A row of the function has as many columns as asked for. -/
theorem splitRow_length {text : List Char} {parts : Nat} {right : Bool} {columns : List (Option (List Char))}
    (h : splitRow word (some text) delimiters parts right = .ok (some columns)) : columns.length = parts := by
  rw [splitRow] at h
  split at h
  · cases h
  split at h
  · cases h
  rename_i hparts hdelimiters
  rw [not_not] at hparts
  rw [not_or] at hdelimiters
  obtain ⟨_, _, -, -, left, back, -, -, hleft, hright, hfrom, hback⟩ := @split_sides word _ hdelimiters.1 hdelimiters.2 text _ hparts.1
  rw [split, Option.map_eq_some_iff] at hleft hright
  obtain ⟨forward, hforward, rfl⟩ := hleft
  obtain ⟨backward, hbackward, rfl⟩ := hright
  cases right with
  | false =>
      rw [hforward] at h
      cases h
      rw [List.length_append, List.length_map, List.length_replicate, Nat.add_sub_cancel' hfrom.lossless.1]
  | true =>
      rw [hbackward] at h
      cases h
      rw [List.length_append, List.length_map, List.length_replicate, Nat.add_sub_cancel' hback.lossless.1]

end Splits

end Wordflow.Texts
