import Wordflow.Files.Moves

namespace Wordflow.Files

open Wordflow.Library Wordflow.Library.Fallible Wordflow.Library.FileTree Objects

/-- What a deletion does to the selected entries: all are gone and nothing else, or all are kept. -/
def DeleteKeeps (t : Contents) (sources : List Path) (s : System) (result : Except Error Unit × Contents) : Prop :=
  if result.1 = .ok () then
    (∀ source ∈ sources, ∀ rest, result.2 (source ++ rest) = none) ∧
      ∀ p, (∀ source ∈ sources, ¬source <+: p) → result.2 p = t p
  else
    ∀ i source, sources[i]? = some source → At t result.2 source source ∨
      ∃ trash, s.tempdir = some trash ∧ result.2 [trash] = some .folder ∧ At t result.2 source (place trash i)

/-- A removal of the temporary directory leaves all of some entries in it. -/
def Leaves (t : Contents) (trash : String) (removal : Option (Path → Bool)) (sources : List Path) : Prop :=
  ∀ i source, sources[i]? = some source → ∀ rest, t (source ++ rest) ≠ none →
    removal.any fun left => left (place trash i ++ rest)

/-- Either all goes well, or what is not renamed back when the directory is removed is left in it. -/
def DeletionSafe (t : Contents) (sources : List Path) (s : System) : Prop :=
  ∀ trash, s.tempdir = some trash → t [trash] = none →
    succeeded s.fails 0 sources.length = sources.length ∧ s.removal = none ∨
      Leaves t trash s.removal (sources.take (standing s.fails sources.length))

section Trash

variable {l : LibraryTree} {trash : String} {sources : List Path} {i : Nat} {source : Path}

theorem place_injective (trash : String) : Function.Injective (place trash) := by
  intro i j h
  have hdigits : Decimal.digits i = Decimal.digits j := by
    apply String.ofList_injective
    exact List.head_eq_of_cons_eq (List.tail_eq_of_cons_eq h)
  rw [← Decimal.digits_value i, hdigits, Decimal.digits_value]

theorem getElem?_trashMoves {m : Move String} (h : (trashMoves trash sources)[i]? = some m) :
    sources[i]? = some m.1 ∧ m.2 = place trash i := by
  rw [trashMoves, List.getElem?_mapIdx] at h
  obtain ⟨source, hsource, rfl⟩ := Option.map_eq_some_iff.mp h
  exact ⟨hsource, rfl⟩

theorem trashMoves_getElem? (h : sources[i]? = some source) :
    (trashMoves trash sources)[i]? = some (source, place trash i) := by
  rw [trashMoves, List.getElem?_mapIdx, h, Option.map_some]

theorem trashMoves_length (trash : String) (sources : List Path) : (trashMoves trash sources).length = sources.length :=
  List.length_mapIdx

theorem apart_trash (l : LibraryTree) (hfree : l.contents [trash] = none) (hsource : l.contents source ≠ none)
    (hroot : source ≠ []) (rest : Path) : Apart source ([trash] ++ rest) := by
  have htrash := free_not_prefix l hfree hsource
  refine ⟨fun hprefix => ?_, fun hprefix => htrash ((List.prefix_append [trash] rest).trans hprefix)⟩
  obtain ⟨head, tail, rfl⟩ := List.exists_cons_of_ne_nil hroot
  obtain ⟨rfl, -⟩ := List.cons_prefix_cons.mp hprefix
  exact htrash ⟨tail, rfl⟩

theorem trash_independent (l : LibraryTree) (hfree : l.contents [trash] = none)
    (hpresent : ∀ source ∈ sources, l.contents source ≠ none) (hroot : ∀ source ∈ sources, source ≠ [])
    (hapart : sources.Pairwise Apart) : Independent (trashMoves trash sources) := by
  have hcross : ∀ m ∈ trashMoves trash sources, ∀ i, Apart m.1 (place trash i) := by
    intro m hm i
    obtain ⟨k, hk⟩ := List.mem_iff_getElem?.mp hm
    have hsource := List.mem_of_getElem? (getElem?_trashMoves hk).1
    exact apart_trash l hfree (hpresent _ hsource) (hroot _ hsource) _
  constructor
  · intro m hm
    obtain ⟨k, hk⟩ := List.mem_iff_getElem?.mp hm
    rw [(getElem?_trashMoves hk).2]
    exact hcross m hm k
  · rw [List.pairwise_iff_getElem]
    intro i j hi hj hlt
    have hm := getElem?_trashMoves (List.getElem?_eq_getElem hi)
    have hn := getElem?_trashMoves (List.getElem?_eq_getElem hj)
    rw [hm.2, hn.2]
    have hplaces : place trash i ≠ place trash j := fun heq => hlt.ne (place_injective trash heq)
    refine ⟨⟨?_, hcross _ (List.getElem_mem hi) j⟩, (hcross _ (List.getElem_mem hj) i).symm, ?_⟩
    · obtain ⟨hi', heq⟩ := List.getElem?_eq_some_iff.mp hm.1
      obtain ⟨hj', heq'⟩ := List.getElem?_eq_some_iff.mp hn.1
      rw [← heq, ← heq']
      exact List.pairwise_iff_getElem.mp hapart i j hi' hj' hlt
    · exact ⟨fun hprefix => hplaces (List.IsPrefix.eq_of_length hprefix rfl),
        fun hprefix => hplaces (List.IsPrefix.eq_of_length hprefix rfl).symm⟩

end Trash

section Removal

variable {t : Contents} {trash : String} {removal : Option (Path → Bool)} {p : Path}

theorem removeDir_outside (h : ¬[trash] <+: p) : removeDir removal trash t p = t p := if_neg h

theorem removeDir_root (h : removal ≠ none) : removeDir removal trash t [trash] = t [trash] := by
  obtain ⟨left, rfl⟩ := Option.ne_none_iff_exists'.mp h
  exact (if_pos (List.prefix_refl _)).trans (if_pos (.inl rfl))

theorem removeDir_place (i : Nat) (rest : Path) : removeDir removal trash t (place trash i ++ rest) =
    if removal.any fun left => left (place trash i ++ rest) then t (place trash i ++ rest) else none := by
  refine (if_pos ⟨String.ofList (Decimal.digits i) :: rest, rfl⟩).trans ?_
  cases removal with
  | none => rfl
  | some left =>
      have hne : place trash i ++ rest ≠ [trash] := fun h => by cases h
      simp only [hne, false_or, Option.any_some]

theorem createDir_other (h : p ≠ [trash]) : createDir t trash p = t p := if_neg h

end Removal

section Deletion

/-- The tree in the end, where the temporary directory could be made. -/
def deleted (t : Contents) (trash : String) (sources : List Path) (s : System) : Contents :=
  removeDir s.removal trash
    (applyAll (createDir t trash) ((trashMoves trash sources).take (standing s.fails sources.length)))

variable {l : LibraryTree} {library : Library} {names : List String} {selected : List (String × Path)}
variable {s : System} {trash : String} {sources : List Path} {i : Nat} {source p : Path}

theorem deleteFiles_eq (hselections : selections l.contents library names = .ok selected) (htempdir : s.tempdir = some trash)
    (hfree : l.contents [trash] = none) (hindependent : Independent (trashMoves trash (selected.map Prod.snd))) :
    deleteFiles l.contents library names s =
      (if succeeded s.fails 0 (selected.map Prod.snd).length = (selected.map Prod.snd).length ∧ s.removal = none then .ok ()
        else .error ioError, deleted l.contents trash (selected.map Prod.snd) s) := by
  have hplaces : ∀ m ∈ trashMoves trash (selected.map Prod.snd), ∀ q, createDir l.contents trash (m.2 ++ q) = none := by
    intro m hm q
    obtain ⟨k, hk⟩ := List.mem_iff_getElem?.mp hm
    rw [(getElem?_trashMoves hk).2, createDir_other fun h => by cases h]
    exact @free_below l [trash] _ hfree
  have hrun := @renameEach_outcome _ _ _ (createDir l.contents trash) _ s.fails hindependent hplaces
  rw [trashMoves_length] at hrun
  simp only [deleteFiles, hselections, htempdir, hfree, hrun, deleted]
  rw [if_neg fun h => h rfl]
  by_cases hall : succeeded s.fails 0 (selected.map Prod.snd).length = (selected.map Prod.snd).length
  · simp only [hall, if_true, true_and, Option.isNone_iff_eq_none]
  · simp only [hall, if_false, false_and]
    split_ifs <;> rfl

/-- What a deletion rests on: the selected entries exist and are apart, and the directory is new. -/
structure Ready (l : LibraryTree) (trash : String) (sources : List Path) : Prop where
  free : l.contents [trash] = none
  present : ∀ source ∈ sources, l.contents source ≠ none
  root : ∀ source ∈ sources, source ≠ []
  apart : sources.Pairwise Apart

theorem Ready.independent (h : Ready l trash sources) : Independent (trashMoves trash sources) :=
  trash_independent l h.free h.present h.root h.apart

theorem Ready.trash_apart (h : Ready l trash sources) (hsource : source ∈ sources) : Apart source [trash] :=
  apart_trash l h.free (h.present _ hsource) (h.root _ hsource) []

theorem Ready.outside (h : Ready l trash sources) (hsource : source ∈ sources) (rest : Path) : ¬[trash] <+: source ++ rest :=
  (h.trash_apart hsource).symm.not_below

theorem deleted_source (h : Ready l trash sources) (hi : sources[i]? = some source) (rest : Path) :
    deleted l.contents trash sources s (source ++ rest) =
      if i < standing s.fails sources.length then none else l.contents (source ++ rest) := by
  have houtside := h.outside (List.mem_of_getElem? hi) rest
  obtain ⟨hdone, hleft⟩ := @applyAll_take _ _ _ (createDir l.contents trash) _ _ h.independent i
    (standing s.fails sources.length) (trashMoves_getElem? hi) rest
  rw [deleted, removeDir_outside houtside]
  split
  · rename_i hlt
    exact (hdone hlt).2
  · rename_i hge
    rw [hleft (not_lt.mp hge), createDir_other]
    rintro heq
    exact houtside (heq ▸ List.prefix_refl _)

theorem deleted_place (h : Ready l trash sources) (hi : sources[i]? = some source)
    (hlt : i < standing s.fails sources.length) (rest : Path) :
    deleted l.contents trash sources s (place trash i ++ rest) =
      if s.removal.any fun left => left (place trash i ++ rest) then l.contents (source ++ rest) else none := by
  have houtside := h.outside (List.mem_of_getElem? hi) rest
  obtain ⟨hdone, -⟩ := @applyAll_take _ _ _ (createDir l.contents trash) _ _ h.independent i
    (standing s.fails sources.length) (trashMoves_getElem? hi) rest
  rw [deleted, removeDir_place, (hdone hlt).1, createDir_other]
  rintro heq
  exact houtside (heq ▸ List.prefix_refl _)

theorem deleted_root (h : Ready l trash sources) (hremoval : s.removal ≠ none) :
    deleted l.contents trash sources s [trash] = some .folder := by
  rw [deleted, removeDir_root hremoval, applyAll_other]
  · exact if_pos rfl
  · intro m hm
    obtain ⟨k, hk⟩ := List.mem_iff_getElem?.mp (List.mem_of_mem_take hm)
    obtain ⟨hsource, hplace⟩ := getElem?_trashMoves hk
    refine ⟨(h.trash_apart (List.mem_of_getElem? hsource)).1, ?_⟩
    rw [hplace]
    exact fun hprefix => absurd hprefix.length_le (Nat.not_succ_le_self 1)

theorem deleted_other (h : Ready l trash sources) (hp : ∀ source ∈ sources, ¬source <+: p) (hremoval : s.removal = none) :
    deleted l.contents trash sources s p = l.contents p := by
  by_cases htrash : [trash] <+: p
  · obtain ⟨rest, rfl⟩ := htrash
    rw [deleted, hremoval, free_below l h.free]
    exact if_pos (List.prefix_append _ _)
  · rw [deleted, removeDir_outside htrash, applyAll_other, createDir_other]
    · rintro rfl
      exact htrash (List.prefix_refl _)
    · intro m hm
      obtain ⟨k, hk⟩ := List.mem_iff_getElem?.mp (List.mem_of_mem_take hm)
      obtain ⟨hsource, hplace⟩ := getElem?_trashMoves hk
      refine ⟨hp _ (List.mem_of_getElem? hsource), fun hprefix => htrash ?_⟩
      rw [hplace] at hprefix
      exact (List.prefix_append [trash] _).trans hprefix

theorem standing_lt_mem {count : Nat} (hi : (sources.take count)[i]? = some source) : i < count ∧ sources[i]? = some source := by
  obtain ⟨hlt, -⟩ := List.getElem?_eq_some_iff.mp hi
  have hcount : i < count := hlt.trans_le (List.length_take_le _ _)
  exact ⟨hcount, by rwa [List.getElem?_take_of_lt hcount] at hi⟩

/-- With a failure the entries are kept exactly where those left in the directory are not removed with it. -/
theorem kept_iff_leaves (h : Ready l trash sources) (htempdir : s.tempdir = some trash) :
    (∀ i source, sources[i]? = some source → At l.contents (deleted l.contents trash sources s) source source ∨
      ∃ trash', s.tempdir = some trash' ∧ deleted l.contents trash sources s [trash'] = some .folder ∧
        At l.contents (deleted l.contents trash sources s) source (place trash' i)) ↔
    Leaves l.contents trash s.removal (sources.take (standing s.fails sources.length)) := by
  constructor
  · intro hkept i source hi rest hrest
    obtain ⟨hlt, hi⟩ := standing_lt_mem hi
    rcases hkept i source hi with hsame | ⟨trash', htrash', -, hat⟩
    · have hgone := deleted_source h hi rest (s := s)
      rw [if_pos hlt, hsame rest] at hgone
      exact absurd hgone hrest
    · cases htempdir.symm.trans htrash'
      have hplace := deleted_place h hi hlt rest
      rw [hat rest] at hplace
      by_contra hnot
      rw [if_neg hnot] at hplace
      exact hrest hplace
  · intro hleaves i source hi
    by_cases hlt : i < standing s.fails sources.length
    · have hleft := hleaves i source (by rwa [List.getElem?_take_of_lt hlt])
      have hpresent := h.present source (List.mem_of_getElem? hi)
      refine .inr ⟨trash, htempdir, deleted_root h ?_, fun rest => ?_⟩
      · intro hnone
        have hself := hleft [] (by rwa [List.append_nil])
        rw [hnone] at hself
        cases hself
      · rw [deleted_place h hi hlt]
        by_cases hrest : l.contents (source ++ rest) = none
        · rw [hrest, ite_self]
        · exact if_pos (hleft rest hrest)
    · refine .inl fun rest => ?_
      rw [deleted_source h hi, if_neg hlt]

theorem Selected.ready (h : Selected l names selected) (hfree : l.contents [trash] = none) :
    Ready l trash (selected.map Prod.snd) := by
  refine ⟨hfree, ?_, ?_, h.apart⟩ <;> intro source hsource <;> obtain ⟨e, he, rfl⟩ := List.mem_map.mp hsource
  · exact h.present e he
  · obtain ⟨name, -, heq⟩ := h.named e he
    rw [heq]
    exact components_ne_nil name

theorem deleteFiles_keeps_iff (hselections : selections l.contents library names = .ok selected) (s : System) :
    DeleteKeeps l.contents (selected.map Prod.snd) s (deleteFiles l.contents library names s) ↔
      DeletionSafe l.contents (selected.map Prod.snd) s := by
  have hselected := selections_spec l hselections
  cases htempdir : s.tempdir with
  | none =>
      have hrun : deleteFiles l.contents library names s = (.error ioError, l.contents) := by
        simp only [deleteFiles, hselections, htempdir]
      rw [hrun, DeleteKeeps, if_neg nofun]
      refine iff_of_true (fun _ _ _ => .inl fun _ => rfl) ?_
      intro trash htrash
      rw [htempdir] at htrash
      cases htrash
  | some trash =>
      by_cases hfree : l.contents [trash] = none
      · have hready := hselected.ready hfree
        rw [deleteFiles_eq hselections htempdir hfree hready.independent, DeleteKeeps, DeletionSafe]
        by_cases hall : succeeded s.fails 0 (selected.map Prod.snd).length = (selected.map Prod.snd).length ∧ s.removal = none
        · rw [if_pos hall, if_pos rfl]
          refine iff_of_true ⟨?_, ?_⟩ fun trash' htrash' _ => .inl hall
          · intro source hsource rest
            obtain ⟨i, hi⟩ := List.mem_iff_getElem?.mp hsource
            obtain ⟨hlt, -⟩ := List.getElem?_eq_some_iff.mp hi
            refine (deleted_source hready hi rest).trans (if_pos ?_)
            rwa [standing_all hall.1]
          · intro p hp
            exact deleted_other hready hp hall.2
        · rw [if_neg hall, if_neg nofun, kept_iff_leaves hready htempdir]
          constructor
          · intro hleaves trash' htrash' _
            cases htempdir.symm.trans htrash'
            exact .inr hleaves
          · intro hsafe
            exact (hsafe trash htempdir hfree).resolve_left hall
      · have hrun : deleteFiles l.contents library names s = (.error ioError, l.contents) := by
          simp only [deleteFiles, hselections, htempdir, hfree, ne_eq, not_false_eq_true, if_true]
        rw [hrun, DeleteKeeps, if_neg nofun]
        refine iff_of_true (fun _ _ _ => .inl fun _ => rfl) ?_
        intro trash' htrash' hnone
        cases htempdir.symm.trans htrash'
        exact absurd hnone hfree

/-- What deleting and moving the same entries do to a library. -/
structure ChangesKeep (l : LibraryTree) (library : Library) (names : List String) (selected : List (String × Path))
    (s : System) (destination : String) (fails : Nat → Bool) : Prop where
  selection : Selected l names selected
  deletion : DeleteKeeps l.contents (selected.map Prod.snd) s (deleteFiles l.contents library names s)
  move : MoveKeeps l.contents names destination fails (moveFiles l.contents names destination fails)

/-- Nothing is lost exactly when what is still in the temporary directory survives its removal. -/
theorem changesKeep_iff (l : LibraryTree) (hselections : selections l.contents library names = .ok selected) (s : System)
    (destination : String) (fails : Nat → Bool) :
    ChangesKeep l library names selected s destination fails ↔ DeletionSafe l.contents (selected.map Prod.snd) s :=
  ⟨fun h => (deleteFiles_keeps_iff hselections s).mp h.deletion, fun h =>
    ⟨selections_spec l hselections, (deleteFiles_keeps_iff hselections s).mpr h, moveFiles_keeps l names destination fails⟩⟩

end Deletion

section Examples

/-- Two files in the data library. -/
def pair : LibraryTree where
  contents := fun p => if p = [] then some .folder else if p = ["a"] ∨ p = ["b"] then some (.file [1]) else none
  root := rfl
  closed := by
    intro p name h
    have hne : p ++ [name] ≠ [] := by simp
    rw [if_neg hne] at h
    have hlength : (p ++ [name]).length = 1 := by
      by_contra hlong
      rw [if_neg] at h
      · exact h rfl
      · rintro (heq | heq) <;> exact hlong (by rw [heq]; rfl)
    rw [List.length_append, List.length_singleton, Nat.add_eq_right, List.length_eq_zero_iff] at hlength
    rw [hlength, if_pos rfl]

theorem pair_selections : selections pair.contents .data ["a", "b"] = .ok [("a", ["a"]), ("b", ["b"])] := by
  have hchosen : ["a", "b"].mapM (choose pair.contents .data) = Except.ok [("a", ["a"]), ("b", ["b"])] := by decide
  have hsorted : [("a", ["a"]), ("b", ["b"])].mergeSort (fun a b : String × Path => a.1 ≤ b.1) =
      [("a", ["a"]), ("b", ["b"])] :=
    List.mergeSort_of_pairwise (by decide)
  rw [selections, if_neg (List.cons_ne_nil _ _), hchosen]
  change Except.ok ((dedup (List.mergeSort _ _)).filter _) = _
  rw [hsorted]
  rfl

/-- The second file cannot be renamed, but the first one can be renamed back. -/
def stopped : System := ⟨some ".wordflow-delete-Ab12Cd", fun n => n == 1, none⟩

/-- The second file cannot be renamed, and then the first one not renamed back. -/
def jammed : System := ⟨some ".wordflow-delete-Ab12Cd", fun n => n == 1 || n == 2, none⟩

theorem stopped_keeps : ChangesKeep pair .data ["a", "b"] [("a", ["a"]), ("b", ["b"])] stopped "" (· == 0) := by
  apply (changesKeep_iff pair pair_selections stopped "" (· == 0)).mpr
  rintro trash - -
  refine .inr fun i source hi => ?_
  have hnone : standing stopped.fails 2 = 0 := by decide
  change (List.take (standing stopped.fails 2) _)[i]? = _ at hi
  rw [hnone, List.take_zero, List.getElem?_nil] at hi
  cases hi

/-- The directory is removed with the file that is still in it. -/
theorem jammed_loses_file : selections pair.contents .data ["a", "b"] = .ok [("a", ["a"]), ("b", ["b"])] ∧
    ¬DeleteKeeps pair.contents [["a"], ["b"]] jammed (deleteFiles pair.contents .data ["a", "b"] jammed) := by
  refine ⟨pair_selections, ?_⟩
  rw [deleteFiles, pair_selections, DeleteKeeps]
  intro hkept
  rw [if_neg (by decide)] at hkept
  rcases hkept 0 ["a"] rfl with hsame | ⟨trash, htrash, hroot, -⟩
  · exact absurd (hsame []) (by decide)
  · cases htrash
    exact absurd hroot (by decide)

end Examples

end Wordflow.Files
