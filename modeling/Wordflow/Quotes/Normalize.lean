import Mathlib.Data.List.Range
import Wordflow.Library.Partial
import Wordflow.Library.Slices

namespace Wordflow.Quotes

open Library Library.Partial

structure Range where
  start : Nat
  stop : Nat
  deriving DecidableEq, Repr

namespace Range

def isEmpty (r : Range) : Bool := !decide (r.start < r.stop)

def len (r : Range) : Nat := r.stop - r.start

def contains (r : Range) (i : Nat) : Bool := decide (r.start ≤ i) && decide (i < r.stop)

end Range

/-- A part of the source text with its character offsets. -/
structure SourceSpan where
  text : List Char
  start : Nat
  stop : Nat
  deriving DecidableEq

def letters : List (String × Char) :=
  [("àáâãäåā", 'a'), ("èéêëē", 'e'), ("ìíîïıī", 'i'), ("òóôõöō", 'o'), ("ùúûüū", 'u'), ("ýÿȳ", 'y'), ("ç", 'c'),
    ("ğḡ", 'g'), ("ñ", 'n'), ("ş", 's'), ("ÀÁÂÃÄÅĀ", 'A'), ("ÈÉÊËĒ", 'E'), ("ÌÍÎÏİĪ", 'I'), ("ÒÓÔÕÖŌ", 'O'),
    ("ÙÚÛÜŪ", 'U'), ("ÝŸȲ", 'Y'), ("Ç", 'C'), ("ĞḠ", 'G'), ("Ñ", 'N'), ("Ş", 'S')]

def normalizeChar (c : Char) : Char :=
  match letters.find? fun group => group.1.toList.contains c with
  | some group => group.2
  | none =>
      match c.toNat with
      | 0xa0 => ' '
      | 0x201d | 0x201c | 0x301d | 0x301e => Char.ofNat 0x22
      | _ => c

/-- One pass over the characters, each with the source offset it stands for. A match is replaced by characters that all
stand for its start, and the scan goes on behind it. -/
def substitute (old new : List Char) : Nat → List (Char × Nat) → List (Char × Nat)
  | _, [] => []
  | skip + 1, _ :: rest => substitute old new skip rest
  | 0, x :: rest =>
      if old.isPrefixOf ((x :: rest).map Prod.fst) then
        new.map (fun c => (c, x.2)) ++ substitute old new (old.length - 1) rest
      else x :: substitute old new 0 rest

def substitutions : List (String × String) :=
  [("\n", ".\n "), ("..\n ", ".\n "), (". .\n ", ".\n "), ("  ", " "), ("\\n", " "), ("\\n\\n", " ")]

def normalizedChars (source : List Char) : List (Char × Nat) :=
  substitutions.foldl (fun chars s => substitute s.1.toList s.2.toList 0 chars)
    (source.zipIdx.map fun x => (normalizeChar x.1, x.2))

structure Normalized where
  text : List Char
  mapping : List Nat
  originalBytes : List Nat

def Normalized.new (source : List Char) : Normalized where
  text := (normalizedChars source).map Prod.fst
  mapping := (normalizedChars source).map Prod.snd ++ [source.length]
  originalBytes := (List.range (source.length + 1)).map fun i => extent (source.take i)

/-- The source of a span of the normalized text: nothing where it is empty, no result where an offset is out of range or
between two characters' bytes. -/
def Normalized.project (n : Normalized) (source : List Char) (span : Range) : Option (Option SourceSpan) :=
  match n.mapping[span.start]?, n.mapping[span.stop]? with
  | some start, some stop =>
      if start ≥ stop then some none
      else do
        let first ← n.originalBytes[start]?
        let last ← n.originalBytes[stop]?
        let text ← slice? source first last
        if start < 2 ^ 63 ∧ stop < 2 ^ 63 then some (some ⟨text, start, stop⟩) else some none
  | _, _ => some none

section Marks

variable {old new : List Char} {chars : List (Char × Nat)} {skip : Nat}

theorem marks_substitute : ∀ y ∈ substitute old new skip chars, ∃ x ∈ chars, x.2 = y.2 := by
  induction chars generalizing skip with
  | nil => exact fun y hy => nomatch hy
  | cons x rest ih =>
      have hrest : ∀ skip, ∀ y ∈ substitute old new skip rest, ∃ z ∈ x :: rest, z.2 = y.2 := by
        intro skip y hy
        obtain ⟨z, hz, heq⟩ := ih y hy
        exact ⟨z, List.mem_cons_of_mem _ hz, heq⟩
      cases skip with
      | succ skip => exact hrest skip
      | zero =>
          rw [substitute]
          intro y hy
          split at hy
          · rcases List.mem_append.mp hy with hy | hy
            · obtain ⟨c, -, rfl⟩ := List.mem_map.mp hy
              exact ⟨x, List.mem_cons_self, rfl⟩
            · exact hrest _ y hy
          · rcases List.mem_cons.mp hy with rfl | hy
            · exact ⟨y, List.mem_cons_self, rfl⟩
            · exact hrest 0 y hy

/-- The source offsets stay in order. -/
theorem pairwise_substitute (h : chars.Pairwise fun x y => x.2 ≤ y.2) :
    (substitute old new skip chars).Pairwise fun x y => x.2 ≤ y.2 := by
  induction chars generalizing skip with
  | nil => exact List.Pairwise.nil
  | cons x rest ih =>
      obtain ⟨hx, hrest⟩ := List.pairwise_cons.mp h
      have hle : ∀ skip, ∀ y ∈ substitute old new skip rest, x.2 ≤ y.2 := by
        intro skip y hy
        obtain ⟨z, hz, heq⟩ := marks_substitute y hy
        exact heq ▸ hx z hz
      cases skip with
      | succ skip => exact ih hrest
      | zero =>
          rw [substitute]
          split
          · refine List.pairwise_append.mpr ⟨?_, ih hrest, ?_⟩
            · rw [List.pairwise_map]
              exact List.pairwise_of_forall fun _ _ => Nat.le_refl _
            · intro y hy z hz
              obtain ⟨c, -, rfl⟩ := List.mem_map.mp hy
              exact hle _ z hz
          · exact List.pairwise_cons.mpr ⟨hle 0, ih hrest⟩

variable (source : List Char)

theorem normalizedChars_marked :
    ((normalizedChars source).Pairwise fun x y => x.2 ≤ y.2) ∧ ∀ x ∈ normalizedChars source, x.2 < source.length := by
  have hpasses : ∀ (passes : List (String × String)) (chars : List (Char × Nat)),
      (chars.Pairwise fun x y => x.2 ≤ y.2) → (∀ x ∈ chars, x.2 < source.length) →
      ((passes.foldl (fun chars s => substitute s.1.toList s.2.toList 0 chars) chars).Pairwise fun x y => x.2 ≤ y.2) ∧
        ∀ x ∈ passes.foldl (fun chars s => substitute s.1.toList s.2.toList 0 chars) chars, x.2 < source.length := by
    intro passes
    induction passes with
    | nil => exact fun chars hsorted hbound => ⟨hsorted, hbound⟩
    | cons pass passes ih =>
        intro chars hsorted hbound
        refine ih _ (pairwise_substitute hsorted) fun y hy => ?_
        obtain ⟨x, hx, heq⟩ := marks_substitute y hy
        exact heq ▸ hbound x hx
  apply hpasses
  · rw [List.pairwise_map, List.pairwise_iff_getElem]
    intro i j hi hj hij
    simpa using hij.le
  · intro x hx
    obtain ⟨⟨c, i⟩, hmem, rfl⟩ := List.mem_map.mp hx
    have hlt := List.snd_lt_of_mem_zipIdx hmem
    simpa using hlt

theorem mapping_monotone {i j start stop : Nat} (hij : i ≤ j) (hi : (Normalized.new source).mapping[i]? = some start)
    (hj : (Normalized.new source).mapping[j]? = some stop) : start ≤ stop := by
  obtain ⟨hsorted, hbound⟩ := normalizedChars_marked source
  have hpairwise : (Normalized.new source).mapping.Pairwise (· ≤ ·) := by
    refine List.pairwise_append.mpr ⟨List.pairwise_map.mpr hsorted, List.pairwise_singleton _ _, ?_⟩
    intro a ha b hb
    obtain ⟨x, hx, rfl⟩ := List.mem_map.mp ha
    rw [List.mem_singleton.mp hb]
    exact (hbound x hx).le
  obtain ⟨hi', rfl⟩ := List.getElem?_eq_some_iff.mp hi
  obtain ⟨hj', rfl⟩ := List.getElem?_eq_some_iff.mp hj
  rcases Nat.lt_or_eq_of_le hij with hlt | rfl
  · exact List.pairwise_iff_getElem.mp hpairwise i j hi' hj' hlt
  · exact Nat.le_refl _

theorem mapping_le {i offset : Nat} (h : (Normalized.new source).mapping[i]? = some offset) : offset ≤ source.length := by
  rcases List.mem_append.mp (List.mem_of_getElem? h) with hmem | hmem
  · obtain ⟨x, hx, rfl⟩ := List.mem_map.mp hmem
    exact ((normalizedChars_marked source).2 x hx).le
  · rw [List.mem_singleton.mp hmem]

end Marks

/-- A part of the source, cut between characters. -/
def IsSlice (source : List Char) (q : SourceSpan) : Prop :=
  q.start < q.stop ∧ q.stop ≤ source.length ∧ q.text = (source.take q.stop).drop q.start

/-- Bytes between two characters' starts are the characters between them. -/
theorem slice?_take (source : List Char) {start stop : Nat} (h : start ≤ stop) :
    slice? source (extent (source.take start)) (extent (source.take stop)) = some ((source.take stop).drop start) := by
  refine slice?_eq_some.mpr ⟨source.take start, source.drop stop, ?_, rfl, ?_⟩
  · have htake : source.take start = (source.take stop).take start := by rw [List.take_take, Nat.min_eq_left h]
    rw [htake, List.take_append_drop, List.take_append_drop]
  · rw [← extent_append]
    have htake : source.take start = (source.take stop).take start := by rw [List.take_take, Nat.min_eq_left h]
    rw [htake, List.take_append_drop]

/-- Where the offsets of a span lead. -/
def Projects (source : List Char) (span : Range) (q : SourceSpan) : Prop :=
  (Normalized.new source).mapping[span.start]? = some q.start ∧ (Normalized.new source).mapping[span.stop]? = some q.stop

/-- A projection never fails, and what it gives is a part of the source. -/
theorem project_returns (source : List Char) (span : Range) :
    Returns ((Normalized.new source).project source span) fun r => ∀ q, r = some q → IsSlice source q ∧ Projects source span q := by
  have hbytes : ∀ i ≤ source.length, (Normalized.new source).originalBytes[i]? = some (extent (source.take i)) := by
    intro i hi
    rw [Normalized.new, List.getElem?_map, List.getElem?_range (Nat.lt_succ_of_le hi), Option.map_some]
  rw [Normalized.project]
  cases hstart : (Normalized.new source).mapping[span.start]? with
  | none => exact returns_some fun q hq => nomatch hq
  | some start =>
      cases hstop : (Normalized.new source).mapping[span.stop]? with
      | none => exact returns_some fun q hq => nomatch hq
      | some stop =>
          have hle := mapping_le source hstop
          refine Returns.ite (fun _ => returns_some fun q hq => nomatch hq) fun hlt => ?_
          have hlt : start < stop := Nat.lt_of_not_le hlt
          rw [hbytes start (hlt.le.trans hle), hbytes stop hle]
          simp only [Option.bind_eq_bind, Option.bind_some, slice?_take source hlt.le]
          refine Returns.ite (fun _ => returns_some fun q hq => ?_) fun _ => returns_some fun q hq => nomatch hq
          cases hq
          exact ⟨⟨hlt, hle, rfl⟩, hstart, hstop⟩

end Wordflow.Quotes
