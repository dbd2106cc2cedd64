import Wordflow.Files.Changes

namespace Wordflow.Files

open Wordflow.Library Wordflow.Library.Fallible Wordflow.Library.FileTree Objects

variable {l : LibraryTree} {names : List String} {selected : List (String × Path)} {folder : Path}
variable {moves : List (Move String)}

/-- What is planned: each entry goes to a free place in the folder, unless it is there already. -/
structure Planned (t : Contents) (folder : Path) (targets sources : List Path) (moves : List (Move String)) : Prop where
  selected : (moves.map Prod.fst).Sublist sources
  distinct : (moves.map Prod.snd).Nodup
  free : ∀ m ∈ moves, t m.2 = none ∧ m.2 ∉ targets ∧ m.2 ≠ m.1 ∧ ¬m.1 <+: folder
  into : ∀ m ∈ moves, ∃ name, m.1.getLast? = some name ∧ m.2 = folder ++ [name]
  covers : ∀ source ∈ sources, ¬source <+: folder ∧ ∃ name, source.getLast? = some name ∧
    (folder ++ [name] = source ∨ (source, folder ++ [name]) ∈ moves)

theorem plan_spec {t : Contents} {targets sources : List Path} (h : plan t folder targets sources = .ok moves) :
    Planned t folder targets sources moves := by
  induction sources generalizing targets moves with
  | nil =>
      cases h
      exact ⟨.refl _, List.nodup_nil, List.forall_mem_nil _, List.forall_mem_nil _, List.forall_mem_nil _⟩
  | cons source rest ih =>
      rw [plan] at h
      obtain ⟨hinside, h⟩ := guard_eq_ok.mp h
      cases hname : source.getLast? with
      | none =>
          rw [hname] at h
          cases h
      | some name =>
          rw [hname] at h
          simp only at h
          by_cases hthere : folder ++ [name] = source
          · rw [if_pos hthere] at h
            obtain ⟨hsources, htargets, hfree, hinto, hcovers⟩ := ih h
            refine ⟨hsources.trans (List.sublist_cons_self _ _), htargets, hfree, hinto, ?_⟩
            exact List.forall_mem_cons.mpr ⟨⟨hinside, name, hname, .inl hthere⟩, hcovers⟩
          · rw [if_neg hthere] at h
            obtain ⟨hexists, h⟩ := guard_eq_ok.mp h
            obtain ⟨others, hothers, rfl⟩ := map_eq_ok.mp h
            obtain ⟨hsources, htargets, hfree, hinto, hcovers⟩ := ih hothers
            push Not at hexists
            refine ⟨?_, ?_, ?_, ?_, ?_⟩
            · exact hsources.cons_cons _
            · refine List.nodup_cons.mpr ⟨fun hin => ?_, htargets⟩
              obtain ⟨m, hm, heq⟩ := List.mem_map.mp hin
              exact (hfree m hm).2.1 (heq ▸ List.mem_cons_self)
            · refine List.forall_mem_cons.mpr ⟨⟨hexists.1, hexists.2, hthere, hinside⟩, fun m hm => ?_⟩
              obtain ⟨hnone, hnew, hdiffer, hout⟩ := hfree m hm
              exact ⟨hnone, fun hin => hnew (List.mem_cons_of_mem _ hin), hdiffer, hout⟩
            · exact List.forall_mem_cons.mpr ⟨⟨name, hname, rfl⟩, hinto⟩
            · refine List.forall_mem_cons.mpr ⟨⟨hinside, name, hname, .inr List.mem_cons_self⟩, fun s hs => ?_⟩
              obtain ⟨hout, other, hother, hcase⟩ := hcovers s hs
              exact ⟨hout, other, hother, hcase.imp id (List.mem_cons_of_mem _)⟩

theorem free_not_prefix (l : LibraryTree) {p q : Path} (hfree : l.contents p = none) (h : l.contents q ≠ none) :
    ¬p <+: q := by
  rintro ⟨rest, rfl⟩
  by_cases hnil : rest = []
  · subst hnil
    rw [List.append_nil] at h
    exact h hfree
  · have hfolder := closed_prefix l h hnil
    rw [hfree] at hfolder
    cases hfolder

theorem free_below (l : LibraryTree) {p q : Path} (hfree : l.contents p = none) : l.contents (p ++ q) = none := by
  by_contra h
  exact free_not_prefix l hfree h (List.prefix_append p q)

theorem plan_independent (l : LibraryTree) {sources : List Path} (hpresent : ∀ source ∈ sources, l.contents source ≠ none)
    (hapart : sources.Pairwise Apart) (h : plan l.contents folder [] sources = .ok moves) : Independent moves := by
  obtain ⟨hselected, hdistinct, hfree, hinto, -⟩ := plan_spec h
  have hsource : ∀ m ∈ moves, l.contents m.1 ≠ none := fun m hm => hpresent _ (hselected.subset (List.mem_map_of_mem hm))
  -- A source stands nowhere on the way to a target, which is free.
  have hcross : ∀ m ∈ moves, ∀ n ∈ moves, Apart m.1 n.2 := by
    intro m hm n hn
    obtain ⟨hnone, -, -, -⟩ := hfree n hn
    refine ⟨fun hprefix => ?_, free_not_prefix l hnone (hsource m hm)⟩
    obtain ⟨name, -, htarget⟩ := hinto n hn
    rw [htarget] at hprefix
    rcases List.prefix_concat_iff.mp hprefix with heq | hfolder
    · rw [← htarget] at heq
      exact hsource m hm (heq ▸ hnone)
    · exact (hfree m hm).2.2.2 hfolder
  have hsources : moves.Pairwise fun m n => Apart m.1 n.1 := List.pairwise_map.mp (hapart.sublist hselected)
  have htargets : moves.Pairwise fun m n => m.2 ≠ n.2 := List.pairwise_map.mp hdistinct
  refine ⟨fun m hm => hcross m hm m hm, ?_⟩
  refine (hsources.and htargets).imp_of_mem ?_
  rintro m n hm hn ⟨happart, hdiffer⟩
  refine ⟨⟨happart, hcross m hm n hn⟩, (hcross n hn m hm).symm, ?_⟩
  obtain ⟨a, -, ha⟩ := hinto m hm
  obtain ⟨b, -, hb⟩ := hinto n hn
  have hlength : m.2.length = n.2.length := by
    rw [ha, hb, List.length_append, List.length_append, List.length_singleton, List.length_singleton]
  exact ⟨fun hprefix => hdiffer (List.IsPrefix.eq_of_length hprefix hlength),
    fun hprefix => hdiffer (List.IsPrefix.eq_of_length hprefix hlength.symm).symm⟩

/-- Whether the renames before the first failing one can all be renamed back. -/
def RollsBack (fails : Nat → Bool) (count : Nat) : Prop :=
  succeeded fails (succeeded fails 0 count + 1) (succeeded fails 0 count) = succeeded fails 0 count

/-- A tree with all below a path where it was below another one before. -/
def At (t after : Contents) (p q : Path) : Prop := ∀ rest, after (q ++ rest) = t (p ++ rest)

/-- What a move does to a library, however its renames fail. -/
structure MoveKeeps (t : Contents) (names : List String) (destination : String) (fails : Nat → Bool)
    (result : Except Error Unit × Contents) : Prop where
  moved : result.1 = .ok () → ∃ selected folder, selections t .data names = .ok selected ∧
    path t .data destination = .ok folder ∧ t folder = some .folder ∧ ∀ e ∈ selected, ∃ name, e.2.getLast? = some name ∧
      At t result.2 e.2 (folder ++ [name]) ∧ (folder ++ [name] ≠ e.2 → ∀ rest, result.2 (e.2 ++ rest) = none)
  restored : result.1 ≠ .ok () → (∀ moves, planned t names destination = .ok moves → RollsBack fails moves.length) →
    result.2 = t
  survives : ∀ selected folder, selections t .data names = .ok selected → path t .data destination = .ok folder →
    ∀ e ∈ selected, At t result.2 e.2 e.2 ∨ ∃ name, e.2.getLast? = some name ∧ At t result.2 e.2 (folder ++ [name])
  others : ∀ selected, selections t .data names = .ok selected → ∀ p, t p ≠ none → (∀ e ∈ selected, ¬e.2 <+: p) →
    result.2 p = t p
  inside : ∀ selected folder, selections t .data names = .ok selected → path t .data destination = .ok folder →
    (∃ e ∈ selected, e.2 <+: folder) → result.1 ≠ .ok () ∧ result.2 = t

theorem planned_eq {t : Contents} {destination : String} (h : planned t names destination = .ok moves) :
    ∃ selected folder, selections t .data names = .ok selected ∧ path t .data destination = .ok folder ∧
      t folder = some .folder ∧ plan t folder [] (selected.map Prod.snd) = .ok moves := by
  obtain ⟨selected, hselected, h⟩ := bind_eq_ok.mp h
  obtain ⟨folder, hfolder, h⟩ := bind_eq_ok.mp h
  obtain ⟨hexists, hplan⟩ := guard_eq_ok.mp h
  exact ⟨selected, folder, hselected, hfolder, not_not.mp hexists, hplan⟩

theorem moveFiles_refused {t : Contents} {destination : String} {fails : Nat → Bool} {e : Error}
    (h : planned t names destination = .error e) : moveFiles t names destination fails = (.error e, t) := by
  rw [moveFiles, h]

theorem moveFiles_planned {t : Contents} {destination : String} {fails : Nat → Bool}
    (h : planned t names destination = .ok moves) (hindependent : Independent moves)
    (hfree : ∀ m ∈ moves, ∀ q, t (m.2 ++ q) = none) :
    moveFiles t names destination fails =
      (if succeeded fails 0 moves.length = moves.length then .ok () else .error ioError,
        applyAll t (moves.take (standing fails moves.length))) := by
  simp only [moveFiles, h, renameEach_outcome hindependent hfree]
  split_ifs <;> rfl

/-- Where a selected entry is after some of the planned moves. -/
theorem entry_place (l : LibraryTree) (hselected : Selected l names selected)
    (hplan : plan l.contents folder [] (selected.map Prod.snd) = .ok moves) (hindependent : Independent moves) (count : Nat)
    {e : String × Path} (he : e ∈ selected) : ∃ name, e.2.getLast? = some name ∧
      (At l.contents (applyAll l.contents (moves.take count)) e.2 e.2 ∧
          (count = moves.length → folder ++ [name] = e.2) ∨
        At l.contents (applyAll l.contents (moves.take count)) e.2 (folder ++ [name]) ∧
          ∀ rest, applyAll l.contents (moves.take count) (e.2 ++ rest) = none) := by
  obtain ⟨hsub, -, hfree, hinto, hcovers⟩ := plan_spec hplan
  have hsource : e.2 ∈ selected.map Prod.snd := List.mem_map_of_mem he
  obtain ⟨houtside, name, hname, hplace | hmoved⟩ := hcovers e.2 hsource
  · refine ⟨name, hname, .inl ⟨fun rest => ?_, fun _ => hplace⟩⟩
    apply applyAll_other
    intro n hn
    have hn := List.mem_of_mem_take hn
    obtain ⟨hnone, -, hdiffer, -⟩ := hfree n hn
    obtain ⟨other, hother, htarget⟩ := hinto n hn
    have hne : n.1 ≠ e.2 := by
      intro heq
      rw [heq, hname] at hother
      cases hother
      exact hdiffer (htarget.trans (hplace.trans heq.symm))
    have hselectedApart : Apart n.1 e.2 :=
      hselected.apart.forall (hsub.subset (List.mem_map_of_mem hn)) hsource hne
    have htargetApart : Apart n.2 e.2 := by
      refine ⟨ free_not_prefix l hnone (hselected.present e he), fun hprefix => ?_⟩
      rw [htarget] at hprefix
      rcases List.prefix_concat_iff.mp hprefix with heq | hfolder
      · exact hselected.present e he (by rw [heq, ← htarget, hnone])
      · exact houtside hfolder
    exact ⟨hselectedApart.not_below, htargetApart.not_below⟩
  · obtain ⟨i, hi⟩ := List.mem_iff_getElem?.mp hmoved
    by_cases hdone : i < count
    · refine ⟨name, hname, .inr ⟨fun rest => ?_, fun rest => ?_⟩⟩
      · exact ((applyAll_take hindependent hi rest).1 hdone).1
      · exact ((applyAll_take hindependent hi rest).1 hdone).2
    · refine ⟨name, hname, .inl ⟨fun rest => ?_, fun hall => ?_⟩⟩
      · exact (applyAll_take hindependent hi rest).2 (not_lt.mp hdone)
      · obtain ⟨hlt, -⟩ := List.getElem?_eq_some_iff.mp hi
        omega

/-- A move does not lose an entry, and without a failing rename back it is all or nothing. -/
theorem moveFiles_keeps (l : LibraryTree) (names : List String) (destination : String) (fails : Nat → Bool) :
    MoveKeeps l.contents names destination fails (moveFiles l.contents names destination fails) := by
  cases hplanned : planned l.contents names destination with
  | error e =>
      rw [moveFiles_refused hplanned]
      refine ⟨fun h => ?_, fun _ _ => rfl, fun _ _ _ _ _ _ => .inl fun _ => rfl, fun _ _ _ _ _ => rfl, fun _ _ _ _ _ => ?_⟩
      · cases h
      · exact ⟨nofun, rfl⟩
  | ok moves =>
      obtain ⟨selected, folder, hselections, hfolder, hexists, hplan⟩ := planned_eq hplanned
      have hselected := selections_spec l hselections
      have hpresent : ∀ source ∈ selected.map Prod.snd, l.contents source ≠ none := by
        intro source hsource
        obtain ⟨e, he, rfl⟩ := List.mem_map.mp hsource
        exact hselected.present e he
      have hindependent := plan_independent l hpresent hselected.apart hplan
      obtain ⟨hsub, -, hfree, -, hcovers⟩ := plan_spec hplan
      have hbelow : ∀ m ∈ moves, ∀ q, l.contents (m.2 ++ q) = none := fun m hm q => free_below l (hfree m hm).1
      rw [moveFiles_planned hplanned hindependent hbelow]
      constructor
      · intro hok
        have hall : succeeded fails 0 moves.length = moves.length := by
          by_contra hne
          rw [if_neg hne] at hok
          cases hok
        refine ⟨selected, folder, hselections, hfolder, hexists, fun e he => ?_⟩
        obtain ⟨name, hname, ⟨hat, hplace⟩ | ⟨hat, hgone⟩⟩ :=
          entry_place l hselected hplan hindependent (standing fails moves.length) he
        · have hthere := hplace (standing_all hall)
          exact ⟨name, hname, hthere ▸ hat, fun hne => absurd hthere hne⟩
        · exact ⟨name, hname, hat, fun _ => hgone⟩
      · intro hfail hback
        have hsome : succeeded fails 0 moves.length ≠ moves.length := fun hall => hfail (if_pos hall)
        have hnone : standing fails moves.length = 0 := by
          rw [standing, if_neg hsome, hback moves hplanned, Nat.sub_self]
        simp only [hnone, List.take_zero]
        rfl
      · intro selected' folder' hselections' hfolder' e he
        cases hselections.symm.trans hselections'
        cases hfolder.symm.trans hfolder'
        obtain ⟨name, hname, ⟨hat, -⟩ | ⟨hat, -⟩⟩ :=
          entry_place l hselected hplan hindependent (standing fails moves.length) he
        · exact .inl hat
        · exact .inr ⟨name, hname, hat⟩
      · intro selected' hselections' p hp hout
        cases hselections.symm.trans hselections'
        apply applyAll_other
        intro n hn
        have hn := List.mem_of_mem_take hn
        obtain ⟨e, he, hsource⟩ := List.mem_map.mp (hsub.subset (List.mem_map_of_mem hn))
        exact ⟨hsource ▸ hout e he, free_not_prefix l (hfree n hn).1 hp⟩
      · rintro selected' folder' hselections' hfolder' ⟨e, he, hprefix⟩
        cases hselections.symm.trans hselections'
        cases hfolder.symm.trans hfolder'
        exact absurd hprefix (hcovers e.2 (List.mem_map_of_mem he)).1

end Wordflow.Files
