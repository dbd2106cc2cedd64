import Mathlib.Data.List.TakeWhile
import Wordflow.Library.Slices

namespace Wordflow.Library

variable {α : Type} (blank : α → Bool)

def AllBlank (xs : List α) : Prop := ∀ x ∈ xs, blank x = true

/-- A part that starts and ends with an item that is not blank. -/
structure Trimmed (xs : List α) : Prop where
  first : ∃ x, xs.head? = some x ∧ blank x = false
  last : ∃ x, xs.getLast? = some x ∧ blank x = false

/-- A part with the blank items around it. -/
structure Framed (xs lead body trail : List α) : Prop where
  eq : xs = lead ++ body ++ trail
  lead : AllBlank blank lead
  trail : AllBlank blank trail
  body : Trimmed blank body

section Trim

variable {blank}

theorem AllBlank.append {xs ys : List α} (hx : AllBlank blank xs) (hy : AllBlank blank ys) : AllBlank blank (xs ++ ys) :=
  List.forall_mem_append.mpr ⟨hx, hy⟩

theorem allBlank_nil : AllBlank blank [] := fun x hx => by cases hx

theorem Trimmed.ne_nil {xs : List α} (h : Trimmed blank xs) : xs ≠ [] := by
  rintro rfl
  obtain ⟨x, hx, -⟩ := h.first
  cases hx

theorem Trimmed.not_allBlank {xs : List α} (h : Trimmed blank xs) : ¬AllBlank blank xs := by
  intro hblank
  obtain ⟨x, hx, hfull⟩ := h.first
  have hx' := hblank x (List.mem_of_mem_head? hx)
  rw [hfull] at hx'
  cases hx'

/-- Two parts with anything between them are one part. -/
theorem Trimmed.join {xs ys : List α} (hx : Trimmed blank xs) (m : List α) (hy : Trimmed blank ys) :
    Trimmed blank (xs ++ m ++ ys) where
  first := by
    obtain ⟨x, hhead, hfull⟩ := hx.first
    refine ⟨x, ?_, hfull⟩
    rw [List.append_assoc, List.head?_append, hhead, Option.some_or]
  last := by
    obtain ⟨y, hlast, hfull⟩ := hy.last
    refine ⟨y, ?_, hfull⟩
    rw [List.getLast?_append, hlast, Option.some_or]

theorem allBlank_dropWhile {xs : List α} : AllBlank blank xs ↔ xs.dropWhile blank = [] := by
  rw [List.dropWhile_eq_nil_iff]
  rfl

theorem takeWhile_allBlank (xs : List α) : AllBlank blank (xs.takeWhile blank) := fun _ hx => List.mem_takeWhile_imp hx

/-- What dropping blanks leaves starts with an item that is not blank. -/
theorem dropWhile_first {xs : List α} (h : ¬AllBlank blank xs) :
    ∃ x, (xs.dropWhile blank).head? = some x ∧ blank x = false := by
  cases hdrop : xs.dropWhile blank with
  | nil => exact absurd (allBlank_dropWhile.mpr hdrop) h
  | cons x rest =>
      have hhead := List.head?_dropWhile_not blank xs
      rw [hdrop] at hhead
      exact ⟨x, rfl, by simpa using hhead⟩

theorem dropWhile_of_first {lead rest : List α} (hlead : AllBlank blank lead)
    (hrest : ∃ x, rest.head? = some x ∧ blank x = false) : (lead ++ rest).dropWhile blank = rest := by
  obtain ⟨x, hhead, hfull⟩ := hrest
  rw [List.dropWhile_append_of_pos hlead]
  cases rest with
  | nil => cases hhead
  | cons y rest =>
      obtain rfl := Option.some.inj hhead
      exact List.dropWhile_cons_of_neg (by simp [hfull])

/-- Every list is blank or has a part with blanks around it. -/
theorem framed_or_blank (xs : List α) : AllBlank blank xs ∨ ∃ lead body trail, Framed blank xs lead body trail := by
  by_cases hblank : AllBlank blank xs
  · exact .inl hblank
  · right
    have hrest := dropWhile_first hblank
    have hrev : ¬AllBlank blank (xs.dropWhile blank).reverse := by
      intro hall
      obtain ⟨x, hhead, hfull⟩ := hrest
      have hx := hall x (List.mem_reverse.mpr (List.mem_of_mem_head? hhead))
      rw [hfull] at hx
      cases hx
    have hsplit : xs.dropWhile blank = (((xs.dropWhile blank).reverse.dropWhile blank).reverse ++
        ((xs.dropWhile blank).reverse.takeWhile blank).reverse) := by
      rw [← List.reverse_append, List.takeWhile_append_dropWhile, List.reverse_reverse]
    have hlast := dropWhile_first hrev
    refine ⟨xs.takeWhile blank, ((xs.dropWhile blank).reverse.dropWhile blank).reverse,
      ((xs.dropWhile blank).reverse.takeWhile blank).reverse, ?_, takeWhile_allBlank xs, ?_, ?_, ?_⟩
    · rw [List.append_assoc, ← hsplit, List.takeWhile_append_dropWhile]
    · intro x hx
      exact takeWhile_allBlank _ x (List.mem_reverse.mp hx)
    · obtain ⟨x, hhead, hfull⟩ := hrest
      refine ⟨x, ?_, hfull⟩
      rw [hsplit, List.head?_append] at hhead
      cases hbody : ((xs.dropWhile blank).reverse.dropWhile blank).reverse with
      | nil =>
          obtain ⟨y, hy, -⟩ := hlast
          rw [List.reverse_eq_nil_iff.mp hbody] at hy
          cases hy
      | cons y body =>
          rw [hbody] at hhead
          exact hhead
    · obtain ⟨y, hhead, hfull⟩ := hlast
      exact ⟨y, by rw [List.getLast?_reverse, hhead], hfull⟩

theorem Framed.dropWhile {xs lead body trail : List α} (h : Framed blank xs lead body trail) :
    xs.dropWhile blank = body ++ trail := by
  obtain ⟨x, hhead, hfull⟩ := h.body.first
  rw [h.eq, List.append_assoc]
  exact dropWhile_of_first h.lead ⟨x, by rw [List.head?_append, hhead, Option.some_or], hfull⟩

theorem Framed.dropWhile_reverse {xs lead body trail : List α} (h : Framed blank xs lead body trail) :
    (xs.reverse.dropWhile blank).reverse = lead ++ body := by
  obtain ⟨x, hlast, hfull⟩ := h.body.last
  rw [h.eq, List.reverse_append, dropWhile_of_first, List.reverse_reverse]
  · intro y hy
    exact h.trail y (List.mem_reverse.mp hy)
  · exact ⟨x, by rw [List.head?_reverse, List.getLast?_append, hlast, Option.some_or], hfull⟩

end Trim

section Tiles

variable [Sized α]

/-- The spans, from offset `pos` on, of parts of a list with nothing but blanks
between them. -/
inductive Tiles : Nat → List α → List (Nat × Nat) → Prop
  | blank {pos : Nat} {xs : List α} (h : AllBlank blank xs) : Tiles pos xs []
  | part {pos : Nat} {lead body rest : List α} {spans : List (Nat × Nat)} (hlead : AllBlank blank lead)
      (hbody : Trimmed blank body) (hrest : Tiles (pos + extent lead + extent body) rest spans) :
      Tiles pos (lead ++ body ++ rest) ((pos + extent lead, pos + extent lead + extent body) :: spans)

namespace Tiles

variable {blank} {pos : Nat} {xs ys : List α} {spans more : List (Nat × Nat)}

theorem lead (hlead : AllBlank blank ys) (h : Tiles blank (pos + extent ys) xs spans) :
    Tiles blank pos (ys ++ xs) spans := by
  generalize hstart : pos + extent ys = start at h
  cases h with
  | blank h => exact .blank (hlead.append h)
  | @part _ gap body rest _ hgap hbody hrest =>
      subst hstart
      rw [Nat.add_assoc pos, ← extent_append] at hrest
      have htiles := Tiles.part (hlead.append hgap) hbody hrest
      rw [extent_append, ← Nat.add_assoc] at htiles
      simpa using htiles

theorem append (hx : Tiles blank pos xs spans) (hy : Tiles blank (pos + extent xs) ys more) :
    Tiles blank pos (xs ++ ys) (spans ++ more) := by
  induction hx with
  | blank h => exact lead h hy
  | part hlead hbody _ ih =>
      rw [extent_append, extent_append, ← Nat.add_assoc, ← Nat.add_assoc] at hy
      have htiles := Tiles.part hlead hbody (ih hy)
      simpa using htiles

theorem single {lead body trail : List α} (h : Framed blank xs lead body trail) :
    Tiles blank pos xs [(pos + extent lead, pos + extent lead + extent body)] := by
  obtain ⟨rfl, hlead, htrail, hbody⟩ := h
  exact .part hlead hbody (.blank htrail)

theorem shift (d : Nat) (h : Tiles blank pos xs spans) :
    Tiles blank (pos + d) xs (spans.map fun s => (s.1 + d, s.2 + d)) := by
  induction h with
  | blank h => exact .blank h
  | @part pos lead body rest spans hlead hbody _ ih =>
      have hstart : pos + extent lead + extent body + d = pos + d + extent lead + extent body := by omega
      rw [hstart] at ih
      have htiles := Tiles.part hlead hbody ih
      rw [List.map_cons]
      convert htiles using 3
      omega

theorem within (h : Tiles blank pos xs spans) : ∀ s ∈ spans, pos ≤ s.1 ∧ s.1 < s.2 ∧ s.2 ≤ pos + extent xs := by
  induction h with
  | blank => simp
  | part hlead hbody _ ih =>
      have hsize := extent_pos hbody.ne_nil
      rw [List.forall_mem_cons, extent_append, extent_append]
      refine ⟨⟨by omega, by omega, by omega⟩, fun s hs => ?_⟩
      obtain ⟨h1, h2, h3⟩ := ih s hs
      exact ⟨by omega, h2, by omega⟩

theorem ordered (h : Tiles blank pos xs spans) : spans.Pairwise fun s t => s.2 ≤ t.1 := by
  induction h with
  | blank => exact .nil
  | part _ _ hrest ih => exact .cons (fun t ht => (hrest.within t ht).1) ih

theorem trimmed (h : Tiles blank pos xs spans) : ∀ s ∈ spans, ∃ a body b,
    xs = a ++ body ++ b ∧ Trimmed blank body ∧ s = (pos + extent a, pos + extent a + extent body) := by
  induction h with
  | blank => simp
  | @part pos lead body rest spans hlead hbody _ ih =>
      rw [List.forall_mem_cons]
      refine ⟨⟨lead, body, rest, rfl, hbody, rfl⟩, fun s hs => ?_⟩
      obtain ⟨a, part, b, rfl, hpart, rfl⟩ := ih s hs
      refine ⟨lead ++ body ++ a, part, b, by simp, hpart, ?_⟩
      rw [extent_append, extent_append, ← Nat.add_assoc, ← Nat.add_assoc]

/-- Every item that is not blank lies in a part. -/
theorem covers (h : Tiles blank pos xs spans) {a b : List α} {x : α} (hx : xs = a ++ x :: b)
    (hfull : blank x = false) : ∃ s ∈ spans, s.1 ≤ pos + extent a ∧ pos + extent a + Sized.size x ≤ s.2 := by
  induction h generalizing a with
  | blank hblank =>
      have hx' := hblank x (by simp [hx])
      rw [hfull] at hx'
      cases hx'
  | @part pos lead body rest spans hlead hbody hrest ih =>
      rcases List.append_eq_append_iff.mp hx with ⟨m, rfl, rfl⟩ | ⟨m, hm, hrest'⟩
      · obtain ⟨s, hs, h1, h2⟩ := ih rfl
        refine ⟨s, List.mem_cons_of_mem _ hs, ?_⟩
        rw [extent_append, extent_append]
        omega
      · cases m with
        | nil =>
            obtain ⟨s, hs, h1, h2⟩ := ih (a := []) hrest'.symm
            have hsize := congrArg extent hm
            rw [extent_append, List.append_nil] at hsize
            rw [extent_nil, Nat.add_zero] at h1 h2
            exact ⟨s, List.mem_cons_of_mem _ hs, by omega⟩
        | cons y m =>
            obtain ⟨rfl, rfl⟩ := List.cons.inj hrest'
            have hsize := congrArg extent hm
            rw [extent_append, extent_append, extent_cons] at hsize
            refine ⟨_, List.mem_cons_self, ?_, by dsimp only; omega⟩
            have hle : extent lead ≤ extent a := by
              by_contra hlt
              obtain ⟨m', rfl, hm'⟩ := between hm.symm (show extent a ≤ extent lead by omega)
              cases m' with
              | nil => simp at hlt
              | cons z m' =>
                  obtain ⟨rfl, -⟩ := List.cons.inj hm'
                  have hx' := hlead _ (List.mem_append_right _ List.mem_cons_self)
                  rw [hfull] at hx'
                  cases hx'
            dsimp only
            omega

end Tiles

end Tiles

end Wordflow.Library
