import Wordflow.Quotes.Normalize

namespace Wordflow.Quotes

open Library

/-- A string, which has fewer bytes than a pointer can tell apart. -/
structure Source where
  chars : List Char
  fits : extent chars < 2 ^ 63

section Marks

/-- `substitute` on characters that say whether a replacement has put them in. -/
def substituteMarked (old new : List Char) : Nat → List ((Char × Nat) × Bool) → List ((Char × Nat) × Bool)
  | _, [] => []
  | skip + 1, _ :: rest => substituteMarked old new skip rest
  | 0, x :: rest =>
      if old.isPrefixOf (((x :: rest).map Prod.fst).map Prod.fst) then
        new.map (fun c => ((c, x.1.2), true)) ++ substituteMarked old new (old.length - 1) rest
      else x :: substituteMarked old new 0 rest

def markedChars (source : List Char) : List ((Char × Nat) × Bool) :=
  substitutions.foldl (fun chars s => substituteMarked s.1.toList s.2.toList 0 chars)
    (source.zipIdx.map fun x => ((normalizeChar x.1, x.2), false))

variable {old new : List Char} {marked : List ((Char × Nat) × Bool)} {chars : List (Char × Nat)} {skip : Nat}

/-- The marks change nothing. -/
theorem substituteMarked_fst : (substituteMarked old new skip marked).map Prod.fst = substitute old new skip (marked.map Prod.fst) := by
  induction marked generalizing skip with
  | nil => cases skip <;> rfl
  | cons x rest ih =>
      cases skip with
      | succ skip => exact ih
      | zero =>
          rw [substituteMarked, List.map_cons, substitute]
          split
          · rw [List.map_append, List.map_map, ih]
            rfl
          · rw [List.map_cons, ih]

theorem markedChars_fst (source : List Char) : (markedChars source).map Prod.fst = normalizedChars source := by
  have hpasses : ∀ (passes : List (String × String)) (marked : List ((Char × Nat) × Bool)),
      (passes.foldl (fun chars s => substituteMarked s.1.toList s.2.toList 0 chars) marked).map Prod.fst =
        passes.foldl (fun chars s => substitute s.1.toList s.2.toList 0 chars) (marked.map Prod.fst) := by
    intro passes
    induction passes with
    | nil => exact fun marked => rfl
    | cons pass passes ih =>
        intro marked
        rw [List.foldl_cons, List.foldl_cons, ih, substituteMarked_fst]
  rw [markedChars, hpasses, List.map_map]
  rfl

/-- What is not put in was there before. -/
theorem mem_substituteMarked {x : (Char × Nat) × Bool} (hx : x ∈ substituteMarked old new skip marked) (hkept : x.2 = false) :
    x ∈ marked := by
  induction marked generalizing skip with
  | nil => cases skip <;> cases hx
  | cons y rest ih =>
      cases skip with
      | succ skip => exact List.mem_cons_of_mem _ (ih hx)
      | zero =>
          rw [substituteMarked] at hx
          split at hx
          · rcases List.mem_append.mp hx with hx | hx
            · obtain ⟨c, -, rfl⟩ := List.mem_map.mp hx
              cases hkept
            · exact List.mem_cons_of_mem _ (ih hx)
          · rcases List.mem_cons.mp hx with rfl | hx
            · exact List.mem_cons_self
            · exact List.mem_cons_of_mem _ (ih hx)

theorem markedChars_kept {source : List Char} {x : (Char × Nat) × Bool} (hx : x ∈ markedChars source) (hkept : x.2 = false) :
    ∃ c, source[x.1.2]? = some c ∧ x.1.1 = normalizeChar c := by
  have hpasses : ∀ (passes : List (String × String)) (marked : List ((Char × Nat) × Bool)),
      x ∈ passes.foldl (fun chars s => substituteMarked s.1.toList s.2.toList 0 chars) marked → x ∈ marked := by
    intro passes
    induction passes with
    | nil => exact fun marked hx => hx
    | cons pass passes ih => exact fun marked hx => mem_substituteMarked (ih _ hx) hkept
  obtain ⟨⟨c, i⟩, hmem, rfl⟩ := List.mem_map.mp (hpasses _ _ hx)
  exact ⟨c, List.mk_mem_zipIdx_iff_getElem?.mp hmem, rfl⟩

end Marks

section Ends

variable {old new : List Char} {chars : List (Char × Nat)}

/-- A pass leaves the offset of the first character as it is. -/
theorem head_substitute (hnew : new ≠ []) (chars : List (Char × Nat)) :
    (substitute old new 0 chars).head?.map Prod.snd = chars.head?.map Prod.snd := by
  cases chars with
  | nil => rfl
  | cons x rest =>
      rw [substitute]
      split
      · cases new with
        | nil => exact absurd rfl hnew
        | cons c new => rfl
      · rfl

theorem head_normalizedChars (source : List Char) :
    (normalizedChars source).head?.map Prod.snd = (source.zipIdx).head?.map Prod.snd := by
  have hpasses : ∀ (passes : List (String × String)) (chars : List (Char × Nat)), (∀ pass ∈ passes, pass.2.toList ≠ []) →
      (passes.foldl (fun chars s => substitute s.1.toList s.2.toList 0 chars) chars).head?.map Prod.snd =
        chars.head?.map Prod.snd := by
    intro passes
    induction passes with
    | nil => exact fun chars _ => rfl
    | cons pass passes ih =>
        intro chars hpasses
        obtain ⟨hpass, hrest⟩ := List.forall_mem_cons.mp hpasses
        rw [List.foldl_cons, ih _ hrest, head_substitute hpass]
  rw [normalizedChars, hpasses _ _ (by decide)]
  cases source <;> rfl

theorem mapping_head (source : List Char) : (Normalized.new source).mapping.head? = some 0 := by
  have hhead := head_normalizedChars source
  rw [Normalized.new]
  cases hchars : normalizedChars source with
  | nil =>
      rw [hchars] at hhead
      cases source with
      | nil => rfl
      | cons c source => cases hhead
  | cons x rest =>
      rw [hchars] at hhead
      cases source with
      | nil => cases hhead
      | cons c source => exact hhead

end Ends

section Ranges

variable (source : List Char)

theorem mapping_length : (Normalized.new source).mapping.length = (Normalized.new source).text.length + 1 := by
  rw [Normalized.new, List.length_append, List.length_map, List.length_map, List.length_singleton]

theorem mapping_sorted : (Normalized.new source).mapping.Pairwise (· ≤ ·) := by
  rw [List.pairwise_iff_getElem]
  intro i j hi hj hij
  exact mapping_monotone source hij.le (List.getElem?_eq_getElem hi) (List.getElem?_eq_getElem hj)

variable {source} {i j k start stop last : Nat}

theorem mapping_get (hi : i ≤ (Normalized.new source).text.length) : ∃ start, (Normalized.new source).mapping[i]? = some start :=
  ⟨_, List.getElem?_eq_getElem (by rw [mapping_length]; omega)⟩

/-- A range projects to the source between the offsets of its ends. -/
theorem project_eq (hfits : source.length < 2 ^ 63) (hij : i ≤ j) (hi : (Normalized.new source).mapping[i]? = some start)
    (hj : (Normalized.new source).mapping[j]? = some stop) :
    (Normalized.new source).project source ⟨i, j⟩ =
      some (if start < stop then some ⟨(source.take stop).drop start, start, stop⟩ else none) := by
  have hbytes : ∀ i ≤ source.length, (Normalized.new source).originalBytes[i]? = some (extent (source.take i)) := by
    intro i hi
    rw [Normalized.new, List.getElem?_map, List.getElem?_range (Nat.lt_succ_of_le hi), Option.map_some]
  have hle := mapping_monotone source hij hi hj
  have hstop := mapping_le source hj
  rw [Normalized.project]
  simp only [hi, hj]
  by_cases hlt : start < stop
  · have hinside : start < 2 ^ 63 ∧ stop < 2 ^ 63 := by omega
    rw [if_neg (Nat.not_le.mpr hlt), if_pos hlt, hbytes start (hle.trans hstop), hbytes stop hstop]
    simp only [Option.bind_eq_bind, Option.bind_some, slice?_take source hle, if_pos hinside]
  · rw [if_pos (Nat.le_of_not_lt hlt), if_neg hlt]

/-- Adjacent parts of the source make up the part from the first start to the last end. -/
theorem drop_take_append (hfirst : start ≤ stop) (hlast : stop ≤ last) :
    (source.take stop).drop start ++ (source.take last).drop stop = (source.take last).drop start := by
  have hsplit : source.take stop = (source.take last).take stop := by rw [List.take_take, Nat.min_eq_left hlast]
  rw [hsplit, List.drop_take]
  have hdrop : (source.take last).drop stop = ((source.take last).drop start).drop (stop - start) := by
    rw [List.drop_drop, Nat.add_sub_cancel' hfirst]
  rw [hdrop, List.take_append_drop]

end Ranges

/-- What the table of a normalized text promises about its source. -/
structure Aligned (source : Source) (n : Normalized) : Prop where
  length : n.mapping.length = n.text.length + 1
  sorted : n.mapping.Pairwise (· ≤ ·)
  starts : n.mapping.head? = some 0
  ends : n.mapping.getLast? = some source.chars.length
  /-- A range projects to nothing where its ends meet, and to the source between them otherwise. -/
  projects : ∀ i j, i ≤ j → j ≤ n.text.length → ∃ start stop, n.mapping[i]? = some start ∧ n.mapping[j]? = some stop ∧
    start ≤ stop ∧ stop ≤ source.chars.length ∧ n.project source.chars ⟨i, j⟩ =
      some (if start < stop then some ⟨(source.chars.take stop).drop start, start, stop⟩ else none)
  adjacent : ∀ i j k q r, i ≤ j → j ≤ k → k ≤ n.text.length → n.project source.chars ⟨i, j⟩ = some (some q) →
    n.project source.chars ⟨j, k⟩ = some (some r) →
    q.stop = r.start ∧ n.project source.chars ⟨i, k⟩ = some (some ⟨q.text ++ r.text, q.start, r.stop⟩)
  whole : n.project source.chars ⟨0, n.text.length⟩ =
    some (if source.chars = [] then none else some ⟨source.chars, 0, source.chars.length⟩)
  marked : (markedChars source.chars).length = n.text.length
  /-- A character that no replacement has put in is what the character at its offset is normalized to. -/
  kept : ∀ (i : Nat) (x : (Char × Nat) × Bool), (markedChars source.chars)[i]? = some x → n.text[i]? = some x.1.1 ∧ n.mapping[i]? = some x.1.2 ∧
    (x.2 = false → ∃ c, source.chars[x.1.2]? = some c ∧ x.1.1 = normalizeChar c)

theorem length_lt (source : Source) : source.chars.length < 2 ^ 63 := by
  have hle : ∀ chars : List Char, chars.length ≤ extent chars := by
    intro chars
    induction chars with
    | nil => exact Nat.le_refl 0
    | cons c chars ih =>
        have hsize : 0 < Sized.size c := Char.utf8Size_pos c
        rw [List.length_cons, extent_cons]
        omega
  exact (hle source.chars).trans_lt source.fits

theorem normalized_aligned (source : Source) : Aligned source (Normalized.new source.chars) where
  length := mapping_length source.chars
  sorted := mapping_sorted source.chars
  starts := mapping_head source.chars
  ends := by
    rw [Normalized.new]
    exact List.getLast?_concat
  projects i j hij hj := by
    obtain ⟨start, hstart⟩ := mapping_get (hij.trans hj)
    obtain ⟨stop, hstop⟩ := mapping_get hj
    exact ⟨start, stop, hstart, hstop, mapping_monotone _ hij hstart hstop, mapping_le _ hstop,
      project_eq (length_lt source) hij hstart hstop⟩
  adjacent i j k q r hij hjk hk hq hr := by
    obtain ⟨start, hstart⟩ := mapping_get (hij.trans (hjk.trans hk))
    obtain ⟨stop, hstop⟩ := mapping_get (hjk.trans hk)
    obtain ⟨last, hlast⟩ := mapping_get hk
    rw [project_eq (length_lt source) hij hstart hstop, Option.some.injEq] at hq
    rw [project_eq (length_lt source) hjk hstop hlast, Option.some.injEq] at hr
    rw [project_eq (length_lt source) (hij.trans hjk) hstart hlast]
    split at hq
    · split at hr
      · rename_i hfirst hsecond
        cases hq
        cases hr
        rw [if_pos (hfirst.trans hsecond), drop_take_append hfirst.le hsecond.le]
        exact ⟨rfl, rfl⟩
      · cases hr
    · cases hq
  whole := by
    have hstart : (Normalized.new source.chars).mapping[0]? = some 0 := by
      rw [← List.head?_eq_getElem?]
      exact mapping_head source.chars
    have hstop : (Normalized.new source.chars).mapping[(Normalized.new source.chars).text.length]? = some source.chars.length := by
      rw [Normalized.new, List.getElem?_append_right (by rw [List.length_map, List.length_map])]
      simp
    rw [project_eq (length_lt source) (Nat.zero_le _) hstart hstop, List.take_length, List.drop_zero]
    by_cases hnil : source.chars = []
    · rw [if_pos hnil, if_neg (by simp [hnil])]
    · rw [if_neg hnil, if_pos (List.length_pos_iff.mpr hnil)]
  marked := by
    have hmarks := congrArg List.length (markedChars_fst source.chars)
    rw [List.length_map] at hmarks
    rw [Normalized.new, List.length_map, hmarks]
  kept i x hx := by
    have hchar : (normalizedChars source.chars)[i]? = some x.1 := by
      rw [← markedChars_fst, List.getElem?_map, hx, Option.map_some]
    have hlt : i < (normalizedChars source.chars).length := (List.getElem?_eq_some_iff.mp hchar).1
    refine ⟨?_, ?_, markedChars_kept (List.mem_of_getElem? hx)⟩
    · rw [Normalized.new, List.getElem?_map, hchar, Option.map_some]
    · rw [Normalized.new, List.getElem?_append_left (by rwa [List.length_map]), List.getElem?_map, hchar, Option.map_some]

end Wordflow.Quotes
