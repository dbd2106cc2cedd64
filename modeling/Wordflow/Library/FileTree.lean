import Mathlib.Data.List.Basic
import Mathlib.Data.List.Infix

namespace Wordflow.Library.FileTree

variable {κ N : Type*} [DecidableEq κ]

/-- What stands at each path. -/
abbrev Tree (κ N : Type*) := List κ → Option N

/-- A source with its target. -/
abbrev Move (κ : Type*) := List κ × List κ

/-- The source with all below it under the target. -/
def rename (t : Tree κ N) (m : Move κ) : Tree κ N := fun p =>
  if m.2 <+: p then t (m.1 ++ p.drop m.2.length) else if m.1 <+: p then none else t p

def applyAll (t : Tree κ N) (moves : List (Move κ)) : Tree κ N := moves.foldl rename t

/-- Neither path leads through the other. -/
def Apart (p q : List κ) : Prop := ¬p <+: q ∧ ¬q <+: p

/-- Moves whose sources and targets are all apart from each other. -/
structure Independent (moves : List (Move κ)) : Prop where
  each : ∀ m ∈ moves, Apart m.1 m.2
  others : moves.Pairwise fun m n => (Apart m.1 n.1 ∧ Apart m.1 n.2) ∧ Apart m.2 n.1 ∧ Apart m.2 n.2

variable {t : Tree κ N} {m : Move κ} {moves rest : List (Move κ)} {p q r : List κ}

section Apart

omit [DecidableEq κ]

theorem Apart.symm (h : Apart p q) : Apart q p := ⟨h.2, h.1⟩

instance : Std.Symm (@Apart κ) := ⟨fun _ _ h => h.symm⟩

theorem Apart.not_below (h : Apart p q) : ¬p <+: q ++ r := fun hprefix =>
  (List.prefix_or_prefix_of_prefix hprefix (List.prefix_append q r)).elim h.1 h.2

theorem Independent.sublist (h : Independent moves) (hsub : rest.Sublist moves) : Independent rest :=
  ⟨fun m hm => h.each m (hsub.subset hm), h.others.sublist hsub⟩

end Apart

section Rename

theorem rename_target : rename t m (m.2 ++ q) = t (m.1 ++ q) := by
  rw [rename, if_pos (List.prefix_append _ _), List.drop_left]

theorem rename_source (h : Apart m.1 m.2) : rename t m (m.1 ++ q) = none := by
  rw [rename, if_neg h.symm.not_below, if_pos (List.prefix_append _ _)]

theorem rename_other (hsource : ¬m.1 <+: p) (htarget : ¬m.2 <+: p) : rename t m p = t p := by
  rw [rename, if_neg htarget, if_neg hsource]

/-- A rename to a free place is undone by the rename back. -/
theorem rename_back (h : Apart m.1 m.2) (hfree : ∀ q, t (m.2 ++ q) = none) : rename (rename t m) (m.2, m.1) = t := by
  funext p
  by_cases hsource : m.1 <+: p
  · obtain ⟨q, rfl⟩ := hsource
    exact rename_target.trans rename_target
  · by_cases htarget : m.2 <+: p
    · obtain ⟨q, rfl⟩ := htarget
      rw [rename_source h.symm, hfree]
    · rw [rename_other htarget hsource, rename_other hsource htarget]

end Rename

section Sequence

theorem applyAll_concat : applyAll t (moves ++ [m]) = rename (applyAll t moves) m := List.foldl_concat _ _ _ _

theorem applyAll_other (h : ∀ n ∈ moves, ¬n.1 <+: p ∧ ¬n.2 <+: p) : applyAll t moves p = t p := by
  induction moves generalizing t with
  | nil => rfl
  | cons m moves ih =>
      obtain ⟨hfirst, hrest⟩ := List.forall_mem_cons.mp h
      exact (ih hrest).trans (rename_other hfirst.1 hfirst.2)

theorem applyAll_target (h : Independent moves) (hm : m ∈ moves) : applyAll t moves (m.2 ++ q) = t (m.1 ++ q) := by
  induction moves generalizing t with
  | nil => cases hm
  | cons n moves ih =>
      obtain ⟨hothers, -⟩ := List.pairwise_cons.mp h.others
      have hrest := h.sublist (List.sublist_cons_self n moves)
      rcases List.mem_cons.mp hm with rfl | hm
      · have houtside : applyAll (rename t m) moves (m.2 ++ q) = rename t m (m.2 ++ q) := by
          apply applyAll_other
          intro n hn
          obtain ⟨-, hsource, htarget⟩ := hothers n hn
          exact ⟨hsource.symm.not_below, htarget.symm.not_below⟩
        exact houtside.trans rename_target
      · obtain ⟨⟨hsource, -⟩, htarget, -⟩ := hothers m hm
        exact (ih hrest hm).trans (rename_other hsource.not_below htarget.not_below)

theorem applyAll_source (h : Independent moves) (hm : m ∈ moves) : applyAll t moves (m.1 ++ q) = none := by
  induction moves generalizing t with
  | nil => cases hm
  | cons n moves ih =>
      obtain ⟨hothers, -⟩ := List.pairwise_cons.mp h.others
      have hrest := h.sublist (List.sublist_cons_self n moves)
      rcases List.mem_cons.mp hm with rfl | hm
      · have houtside : applyAll (rename t m) moves (m.1 ++ q) = rename t m (m.1 ++ q) := by
          apply applyAll_other
          intro n hn
          obtain ⟨⟨hsource, htarget⟩, -⟩ := hothers n hn
          exact ⟨hsource.symm.not_below, htarget.symm.not_below⟩
        exact houtside.trans (rename_source (h.each m List.mem_cons_self))
      · exact ih hrest hm

/-- Renaming the last move back leaves the moves before it. -/
theorem applyAll_back (h : Independent (moves ++ [m])) (hfree : ∀ q, t (m.2 ++ q) = none) :
    rename (applyAll t (moves ++ [m])) (m.2, m.1) = applyAll t moves := by
  have hself : Apart m.1 m.2 := h.each m (List.mem_append_right _ List.mem_cons_self)
  have hlast := (List.pairwise_append.mp h.others).2.2
  rw [applyAll_concat]
  apply rename_back hself
  intro q
  rw [applyAll_other]
  · exact hfree q
  · intro n hn
    obtain ⟨⟨-, hsource⟩, -, htarget⟩ := hlast n hn m List.mem_cons_self
    exact ⟨hsource.not_below, htarget.not_below⟩

/-- After some of the moves, one of them is at its target or still at its source. -/
theorem applyAll_take (h : Independent moves) {i count : Nat} (hm : moves[i]? = some m) (q : List κ) :
    (i < count → applyAll t (moves.take count) (m.2 ++ q) = t (m.1 ++ q) ∧
      applyAll t (moves.take count) (m.1 ++ q) = none) ∧
    (count ≤ i → applyAll t (moves.take count) (m.1 ++ q) = t (m.1 ++ q)) := by
  have htake := h.sublist (List.take_sublist count moves)
  refine ⟨fun hdone => ?_, fun hleft => ?_⟩
  · have hin : m ∈ moves.take count := by
      apply List.mem_of_getElem? 
      rw [List.getElem?_take_of_lt hdone, hm]
    exact ⟨applyAll_target htake hin, applyAll_source htake hin⟩
  · apply applyAll_other
    intro n hn
    have hrest : m ∈ moves.drop count := by
      apply List.mem_of_getElem? 
      rw [List.getElem?_drop, Nat.add_sub_cancel' hleft, hm]
    have hpairwise := h.others
    rw [← List.take_append_drop count moves] at hpairwise
    obtain ⟨⟨hsource, -⟩, htarget, -⟩ := (List.pairwise_append.mp hpairwise).2.2 n hn m hrest
    exact ⟨hsource.not_below, htarget.not_below⟩

end Sequence

section Rollback

/-- How renaming one after the other ends. -/
inductive Outcome (κ N : Type*)
  | all (t : Tree κ N)
  | restored (t : Tree κ N)
  | stuck (t : Tree κ N)

/-- Rename back what was renamed, the latest first. -/
def rollback (fails : Nat → Bool) : Nat → List (Move κ) → Tree κ N → Outcome κ N
  | _, [], t => .restored t
  | n, m :: completed, t => if fails n then .stuck t else rollback fails (n + 1) completed (rename t (m.2, m.1))

/-- Rename one after the other, and back when one fails. The calls count from `n`. -/
def renameEach (fails : Nat → Bool) : Nat → List (Move κ) → List (Move κ) → Tree κ N → Outcome κ N
  | _, _, [], t => .all t
  | n, completed, m :: moves, t =>
      if fails n then rollback fails (n + 1) completed t
      else renameEach fails (n + 1) (m :: completed) moves (rename t m)

/-- How many calls from `n` on succeed before one fails, of a number of them. -/
def succeeded (fails : Nat → Bool) (n count : Nat) : Nat := ((List.range' n count).takeWhile fun i => !fails i).length

/-- How many of a number of moves are not renamed back in the end. -/
def standing (fails : Nat → Bool) (count : Nat) : Nat :=
  let renamed := succeeded fails 0 count
  if renamed = count then count else renamed - succeeded fails (renamed + 1) renamed

variable {fails : Nat → Bool} {n count : Nat} {completed : List (Move κ)}

theorem succeeded_le (fails : Nat → Bool) (n count : Nat) : succeeded fails n count ≤ count := by
  rw [succeeded]
  exact (List.takeWhile_sublist _).length_le.trans_eq (List.length_range')

theorem succeeded_succ (fails : Nat → Bool) (n count : Nat) :
    succeeded fails n (count + 1) = if fails n then 0 else succeeded fails (n + 1) count + 1 := by
  rw [succeeded, List.range'_succ, List.takeWhile_cons]
  cases fails n <;> rfl

/-- Renaming back stops at the first failure, if there is one. -/
theorem rollback_eq (h : Independent moves) (hfree : ∀ m ∈ moves, ∀ q, t (m.2 ++ q) = none) :
    rollback fails n moves.reverse (applyAll t moves) =
      if succeeded fails n moves.length = moves.length then .restored t
      else .stuck (applyAll t (moves.take (moves.length - succeeded fails n moves.length))) := by
  induction moves using List.reverseRecOn generalizing n with
  | nil => rfl
  | append_singleton moves m ih =>
      rw [List.reverse_append, List.reverse_singleton, List.singleton_append, rollback, List.length_append,
        List.length_singleton, succeeded_succ]
      by_cases hfail : fails n
      · rw [if_pos hfail, if_pos hfail, if_neg (by omega), Nat.sub_zero, List.take_of_length_le]
        rw [List.length_append, List.length_singleton]
      · have hprefix := h.sublist (List.sublist_append_left moves [m])
        have hrest : ∀ k ∈ moves, ∀ q, t (k.2 ++ q) = none := fun k hk => hfree k (List.mem_append_left _ hk)
        rw [if_neg hfail, if_neg hfail, applyAll_back h (hfree m (List.mem_append_right _ List.mem_cons_self)),
          ih hprefix hrest]
        by_cases hall : succeeded fails (n + 1) moves.length = moves.length
        · rw [if_pos hall, if_pos (by omega)]
        · have hle := succeeded_le fails (n + 1) moves.length
          rw [if_neg hall, if_neg (by omega)]
          congr 2
          rw [List.take_append_of_le_length (by omega)]
          congr 1
          omega

/-- Renaming each stops at the first failure, if there is one. -/
theorem renameEach_eq (moves : List (Move κ)) :
    renameEach fails n completed.reverse moves (applyAll t completed) =
      if succeeded fails n moves.length = moves.length then .all (applyAll t (completed ++ moves))
      else rollback fails (n + succeeded fails n moves.length + 1)
        (completed ++ moves.take (succeeded fails n moves.length)).reverse
        (applyAll t (completed ++ moves.take (succeeded fails n moves.length))) := by
  induction moves generalizing n completed with
  | nil => rw [renameEach, List.append_nil]; rfl
  | cons m moves ih =>
      rw [renameEach, List.length_cons, succeeded_succ]
      by_cases hfail : fails n
      · rw [if_pos hfail, if_pos hfail, if_neg (by omega), List.take_zero, List.append_nil, Nat.add_zero]
      · have hstep := @ih (n + 1) (completed ++ [m])
        rw [List.reverse_append, List.reverse_singleton, List.singleton_append, applyAll_concat] at hstep
        rw [if_neg hfail, if_neg hfail, hstep, List.take_succ_cons]
        simp only [List.append_assoc, List.singleton_append, Nat.add_right_cancel_iff]
        congr 2
        omega

theorem standing_all (h : succeeded fails 0 count = count) : standing fails count = count := if_pos h

/-- Without a failure all are renamed; a failed one is undone, unless a rename back fails. -/
theorem renameEach_outcome (h : Independent moves) (hfree : ∀ m ∈ moves, ∀ q, t (m.2 ++ q) = none) :
    renameEach fails 0 [] moves t =
      let renamed := succeeded fails 0 moves.length
      (if renamed = moves.length then Outcome.all
        else if succeeded fails (renamed + 1) renamed = renamed then .restored else .stuck)
      (applyAll t (moves.take (standing fails moves.length))) := by
  have hle := succeeded_le fails 0 moves.length
  have hrun := @renameEach_eq _ _ _ t fails 0 [] moves
  simp only [List.reverse_nil, List.nil_append, Nat.zero_add] at hrun
  have hback := @rollback_eq _ _ _ t _ fails (succeeded fails 0 moves.length + 1)
    (h.sublist (List.take_sublist (succeeded fails 0 moves.length) moves))
    fun m hm => hfree m (List.mem_of_mem_take hm)
  rw [List.length_take, Nat.min_eq_left hle] at hback
  change renameEach fails 0 [] moves (applyAll t []) = _
  rw [hrun, hback]
  simp only [List.take_take]
  rw [Nat.min_eq_left (Nat.sub_le _ _)]
  by_cases hall : succeeded fails 0 moves.length = moves.length
  · rw [if_pos hall, if_pos hall, standing_all hall, List.take_length]
  · rw [if_neg hall, if_neg hall, standing, if_neg hall]
    by_cases hrestored : succeeded fails (succeeded fails 0 moves.length + 1) (succeeded fails 0 moves.length) =
        succeeded fails 0 moves.length
    · rw [if_pos hrestored, if_pos hrestored, hrestored, Nat.sub_self, List.take_zero]
      rfl
    · rw [if_neg hrestored, if_neg hrestored]

end Rollback

end Wordflow.Library.FileTree
