import Mathlib.Data.List.Nodup
import Mathlib.Data.Set.Finite.Basic
import Mathlib.Logic.Relation
import Mathlib.Order.WellFounded
import Wordflow.Library.Fallible

namespace Wordflow.Library.Worklist

open Relation Fallible

variable {ι κ σ ε : Type} {key : ι → κ} {needs : ι → List κ} {act : σ → ι → Except ε σ}

/-- One pass over the items that wait: those whose needs are ready are acted on
in turn and are ready for the ones after them, the others remain. -/
def pass [DecidableEq κ] (key : ι → κ) (needs : ι → List κ) (act : σ → ι → Except ε σ) :
    List ι → List κ → σ → Except ε (List ι × List κ × σ)
  | [], ready, s => .ok ([], ready, s)
  | i :: rest, ready, s =>
      if needs i ⊆ ready then
        match act s i with
        | .ok s => pass key needs act rest (key i :: ready) s
        | .error e => .error e
      else (pass key needs act rest ready s).map fun r => (i :: r.1, r.2)

/-- Passes until no item waits, or until a pass acts on none. There are at most
as many as items. -/
def drain [DecidableEq κ] (key : ι → κ) (needs : ι → List κ) (act : σ → ι → Except ε σ) (stuck : ε) :
    Nat → List ι → List κ → σ → Except ε σ
  | _, [], _, s => .ok s
  | 0, _ :: _, _, _ => .error stuck
  | rounds + 1, i :: rest, ready, s => do
      let r ← pass key needs act (i :: rest) ready s
      if r.1.length = (i :: rest).length then .error stuck else drain key needs act stuck rounds r.1 r.2.1 r.2.2

/-- An order in which the needs of each item are ready when its turn comes. -/
def ReadyOrder (key : ι → κ) (needs : ι → List κ) : List κ → List ι → Prop
  | _, [] => True
  | ready, i :: rest => needs i ⊆ ready ∧ ReadyOrder key needs (key i :: ready) rest

/-- An item needs another of the items. -/
def Dep (key : ι → κ) (needs : ι → List κ) (items : List ι) (i j : ι) : Prop :=
  i ∈ items ∧ j ∈ items ∧ key j ∈ needs i

def Acyclic (key : ι → κ) (needs : ι → List κ) (items : List ι) : Prop :=
  ∀ i, ¬TransGen (Dep key needs items) i i

section Order

variable {ready : List κ} {first second items : List ι}

theorem ReadyOrder.mono {wider : List κ} (h : ReadyOrder key needs ready first) (hsub : ready ⊆ wider) :
    ReadyOrder key needs wider first := by
  induction first generalizing ready wider with
  | nil => trivial
  | cons i first ih => exact ⟨List.Subset.trans h.1 hsub, ih h.2 (List.cons_subset_cons _ hsub)⟩

theorem ReadyOrder.append (hfirst : ReadyOrder key needs ready first)
    (hsecond : ReadyOrder key needs ((first.map key).reverse ++ ready) second) :
    ReadyOrder key needs ready (first ++ second) := by
  induction first generalizing ready with
  | nil => simpa using hsecond
  | cons i first ih =>
      refine ⟨hfirst.1, ih hfirst.2 ?_⟩
      simpa using hsecond

/-- What holds of an item once it holds of the items that it needs holds of every item of the order. -/
theorem ReadyOrder.induction {P : ι → Prop} (h : ReadyOrder key needs ready first)
    (hready : ∀ j ∈ items, key j ∈ ready → P j) (hinj : ∀ i ∈ items, ∀ j ∈ items, key i = key j → i = j)
    (hsub : first ⊆ items) (hstep : ∀ i ∈ items, (∀ j ∈ items, key j ∈ needs i → P j) → P i) :
    ∀ i ∈ first, P i := by
  induction first generalizing ready with
  | nil => exact fun i hi => nomatch hi
  | cons i first ih =>
      obtain ⟨hi, hfirst⟩ := List.cons_subset.mp hsub
      have hPi : P i := hstep i hi fun j hj hneed => hready j hj (h.1 hneed)
      refine List.forall_mem_cons.mpr ⟨hPi, ih h.2 ?_ hfirst⟩
      intro j hj hkey
      rcases List.mem_cons.mp hkey with heq | hold
      · exact hinj i hi j hj heq.symm ▸ hPi
      · exact hready j hj hold

theorem not_transGen_of_acc {α : Type} {r : α → α → Prop} {a : α} (h : Acc (fun b a => r a b) a) : ¬TransGen r a a := by
  induction h with
  | intro a _ ih =>
      intro hcycle
      obtain ⟨b, hab, hba⟩ := TransGen.head'_iff.mp hcycle
      exact ih b hab (TransGen.tail' hba hab)

/-- Items that can be put in an order do not need each other in a circle. -/
theorem ReadyOrder.acyclic (h : ReadyOrder key needs ready first) (hmem : ∀ i, i ∈ first ↔ i ∈ items)
    (hinj : ∀ i ∈ items, ∀ j ∈ items, key i = key j → i = j) (hready : ∀ j ∈ items, key j ∉ ready) :
    Acyclic key needs items := by
  intro i hcycle
  have hacc : ∀ i ∈ first, Acc (fun b a => Dep key needs items a b) i := by
    refine h.induction (fun j hj hkey => absurd hkey (hready j hj)) hinj (fun i hi => (hmem i).mp hi) ?_
    exact fun i _ hneeds => ⟨i, fun j hdep => hneeds j hdep.2.1 hdep.2.2⟩
  have hi : i ∈ items := by
    obtain ⟨j, hdep, -⟩ := TransGen.head'_iff.mp hcycle
    exact hdep.1
  exact not_transGen_of_acc (hacc i ((hmem i).mpr hi)) hcycle

/-- Among items without a circle one needs none of the others. -/
theorem Acyclic.exists_free (h : Acyclic key needs items) (hne : items ≠ []) :
    ∃ i ∈ items, ∀ j ∈ items, key j ∉ needs i := by
  let r := fun b a : { i // i ∈ items } => TransGen (Dep key needs items) a.1 b.1
  have htrans : IsTrans _ r := ⟨fun a b c hab hbc => TransGen.trans hbc hab⟩
  have hirrefl : Std.Irrefl r := ⟨fun a => h a.1⟩
  have hfinite : Finite { i // i ∈ items } := List.finite_toSet items
  have hwf : WellFounded r := Finite.wellFounded_of_trans_of_irrefl r
  obtain ⟨i, hi⟩ := List.exists_mem_of_ne_nil items hne
  obtain ⟨least, -, hleast⟩ := hwf.has_min Set.univ ⟨⟨i, hi⟩, trivial⟩
  exact ⟨least.1, least.2, fun j hj hneed => hleast ⟨j, hj⟩ trivial (TransGen.single ⟨least.2, hj, hneed⟩)⟩

theorem Acyclic.mono (h : Acyclic key needs items) (hsub : first ⊆ items) : Acyclic key needs first := by
  intro i hcycle
  exact h i (TransGen.mono (fun a b hdep => ⟨hsub hdep.1, hsub hdep.2.1, hdep.2.2⟩) i i hcycle)

end Order

section Passes

variable [DecidableEq κ] {ready : List κ} {pending items : List ι} {s s' : σ}

/-- What a pass acts on comes in an order in which it was ready. -/
theorem pass_spec {r : List ι × List κ × σ} (h : pass key needs act pending ready s = .ok r) :
    ∃ done, (done ++ r.1).Perm pending ∧ ReadyOrder key needs ready done ∧
      r.2.1 = (done.map key).reverse ++ ready ∧ done.foldlM act s = .ok r.2.2 ∧
        (done = [] → ∀ i ∈ pending, ¬needs i ⊆ ready) := by
  induction pending generalizing ready s r with
  | nil =>
      obtain rfl := Except.ok.inj h
      exact ⟨[], .refl _, trivial, rfl, rfl, fun _ i hi => nomatch hi⟩
  | cons i rest ih =>
      rw [pass] at h
      split at h
      · rename_i hneeds
        split at h
        · rename_i acted hact
          obtain ⟨done, hperm, horder, hready, hfold, -⟩ := ih h
          refine ⟨i :: done, hperm.cons i, ⟨hneeds, horder⟩, ?_, ?_, fun hnil => nomatch hnil⟩
          · rw [hready, List.map_cons, List.reverse_cons, List.append_assoc, List.singleton_append]
          · rw [List.foldlM_cons]
            exact bind_eq_ok.mpr ⟨acted, hact, hfold⟩
        · cases h
      · rename_i hneeds
        obtain ⟨q, hq, rfl⟩ := map_eq_ok.mp h
        obtain ⟨done, hperm, horder, hready, hfold, hnone⟩ := ih hq
        refine ⟨done, List.perm_middle.trans (hperm.cons i), horder, hready, hfold, fun hnil => ?_⟩
        exact List.forall_mem_cons.mpr ⟨hneeds, hnone hnil⟩

theorem drain_spec {stuck : ε} {rounds : Nat} (h : drain key needs act stuck rounds pending ready s = .ok s') :
    ∃ order, order.Perm pending ∧ ReadyOrder key needs ready order ∧ order.foldlM act s = .ok s' := by
  induction rounds generalizing pending ready s with
  | zero =>
      cases pending with
      | nil =>
          obtain rfl := Except.ok.inj h
          exact ⟨[], .refl _, trivial, rfl⟩
      | cons i rest => cases h
  | succ rounds ih =>
      cases pending with
      | nil =>
          obtain rfl := Except.ok.inj h
          exact ⟨[], .refl _, trivial, rfl⟩
      | cons i rest =>
          rw [drain] at h
          obtain ⟨r, hpass, h⟩ := bind_eq_ok.mp h
          obtain ⟨-, h⟩ := guard_eq_ok.mp h
          obtain ⟨done, hperm, horder, hready, hfold, -⟩ := pass_spec hpass
          obtain ⟨order, hperm', horder', hfold'⟩ := ih h
          refine ⟨done ++ order, (hperm'.append_left done).trans hperm, horder.append (hready ▸ horder'), ?_⟩
          rw [List.foldlM_append]
          exact bind_eq_ok.mpr ⟨r.2.2, hfold, hfold'⟩

/-- What an action does to a state whose items of `ready` have been acted on. -/
def Acts (key : ι → κ) (needs : ι → List κ) (act : σ → ι → Except ε σ) (items : List ι) (I : List κ → σ → Prop) : Prop :=
  ∀ i ∈ items, ∀ ready s, I ready s → needs i ⊆ ready → key i ∉ ready → ∃ s', act s i = .ok s' ∧ I (key i :: ready) s'

theorem pass_total {I : List κ → σ → Prop} (hact : Acts key needs act items I) (hsub : pending ⊆ items)
    (hnodup : (pending.map key).Nodup) (hready : ∀ i ∈ pending, key i ∉ ready) (hI : I ready s) :
    ∃ r, pass key needs act pending ready s = .ok r ∧ I r.2.1 r.2.2 := by
  induction pending generalizing ready s with
  | nil => exact ⟨([], ready, s), rfl, hI⟩
  | cons i rest ih =>
      obtain ⟨hi, hrest⟩ := List.cons_subset.mp hsub
      obtain ⟨hfree, hfreeRest⟩ := List.forall_mem_cons.mp hready
      obtain ⟨hnot, hnodup⟩ := List.nodup_cons.mp hnodup
      rw [pass]
      split
      · rename_i hneeds
        obtain ⟨u, hu, hIu⟩ := hact i hi ready s hI hneeds hfree
        have hdisjoint : ∀ j ∈ rest, key j ∉ key i :: ready := by
          intro j hj hmem
          rcases List.mem_cons.mp hmem with heq | hold
          · exact hnot (heq ▸ List.mem_map_of_mem hj)
          · exact hfreeRest j hj hold
        obtain ⟨r, hr, hIr⟩ := ih hrest hnodup hdisjoint hIu
        exact ⟨r, by rw [hu]; exact hr, hIr⟩
      · obtain ⟨r, hr, hIr⟩ := ih hrest hnodup hfreeRest hI
        exact ⟨(i :: r.1, r.2), by rw [hr]; rfl, hIr⟩

/-- Items that need only each other and what is ready, and not in a circle, are all acted on. -/
theorem drain_total {I : List κ → σ → Prop} {stuck : ε} {rounds : Nat} (hact : Acts key needs act items I)
    (hsub : pending ⊆ items) (hnodup : (pending.map key).Nodup) (hready : ∀ i ∈ pending, key i ∉ ready)
    (hclosed : ∀ i ∈ pending, ∀ k ∈ needs i, k ∈ ready ∨ k ∈ pending.map key) (hacyclic : Acyclic key needs pending)
    (hI : I ready s) (hrounds : pending.length ≤ rounds) :
    ∃ s', drain key needs act stuck rounds pending ready s = .ok s' := by
  induction rounds generalizing pending ready s with
  | zero =>
      obtain rfl := List.eq_nil_of_length_eq_zero (Nat.le_zero.mp hrounds)
      exact ⟨s, rfl⟩
  | succ rounds ih =>
      cases pending with
      | nil => exact ⟨s, rfl⟩
      | cons i rest =>
          obtain ⟨r, hpass, hIr⟩ := pass_total hact hsub hnodup hready hI
          obtain ⟨done, hperm, -, hready', -, hnone⟩ := pass_spec hpass
          have hprogress : r.1.length ≠ (i :: rest).length := by
            intro hlength
            have hsum := hperm.length_eq
            rw [List.length_append] at hsum
            have hnil : done = [] := List.eq_nil_of_length_eq_zero (by omega)
            obtain ⟨least, hleast, hfree⟩ := hacyclic.exists_free (List.cons_ne_nil i rest)
            refine hnone hnil least hleast fun k hk => (hclosed least hleast k hk).resolve_right fun hmem => ?_
            obtain ⟨j, hj, rfl⟩ := List.mem_map.mp hmem
            exact hfree j hj hk
          have hkeys := hperm.map key
          rw [List.map_append] at hkeys
          have hrest : r.1 ⊆ i :: rest := fun j hj => hperm.subset (List.mem_append_right _ hj)
          have hsplit := List.nodup_append.mp (hkeys.nodup_iff.mpr hnodup)
          have hfree : ∀ j ∈ r.1, key j ∉ r.2.1 := by
            intro j hj hmem
            rw [hready', List.mem_append, List.mem_reverse] at hmem
            rcases hmem with hdone | hold
            · exact hsplit.2.2 _ hdone _ (List.mem_map_of_mem hj) rfl
            · exact hready j (hrest hj) hold
          have hneeds : ∀ j ∈ r.1, ∀ k ∈ needs j, k ∈ r.2.1 ∨ k ∈ r.1.map key := by
            intro j hj k hk
            rw [hready', List.mem_append, List.mem_reverse]
            rcases hclosed j (hrest hj) k hk with hold | hmem
            · exact .inl (.inr hold)
            · rcases List.mem_append.mp (hkeys.mem_iff.mpr hmem) with hdone | hleft
              · exact .inl (.inl hdone)
              · exact .inr hleft
          have hshorter : r.1.length ≤ rounds := by
            have hlength := hperm.length_eq
            rw [List.length_append] at hlength
            simp only [List.length_cons] at hlength hrounds hprogress
            omega
          obtain ⟨s', hs'⟩ := ih (List.Subset.trans hrest hsub) hsplit.2.1 hfree hneeds (hacyclic.mono hrest) hIr hshorter
          refine ⟨s', ?_⟩
          rw [drain]
          exact bind_eq_ok.mpr ⟨r, hpass, guard_eq_ok.mpr ⟨hprogress, hs'⟩⟩

/-- Where the actions succeed, the passes end by acting on all items or by being stuck. -/
theorem drain_ok_or_stuck {I : List κ → σ → Prop} {stuck : ε} {rounds : Nat} (hact : Acts key needs act items I)
    (hsub : pending ⊆ items) (hnodup : (pending.map key).Nodup) (hready : ∀ i ∈ pending, key i ∉ ready) (hI : I ready s) :
    (∃ s', drain key needs act stuck rounds pending ready s = .ok s') ∨
      drain key needs act stuck rounds pending ready s = .error stuck := by
  induction rounds generalizing pending ready s with
  | zero =>
      cases pending with
      | nil => exact .inl ⟨s, rfl⟩
      | cons i rest => exact .inr rfl
  | succ rounds ih =>
      cases pending with
      | nil => exact .inl ⟨s, rfl⟩
      | cons i rest =>
          obtain ⟨r, hpass, hIr⟩ := pass_total hact hsub hnodup hready hI
          obtain ⟨done, hperm, -, hready', -, -⟩ := pass_spec hpass
          have hkeys := hperm.map key
          rw [List.map_append] at hkeys
          have hrest : r.1 ⊆ i :: rest := fun j hj => hperm.subset (List.mem_append_right _ hj)
          have hsplit := List.nodup_append.mp (hkeys.nodup_iff.mpr hnodup)
          have hfree : ∀ j ∈ r.1, key j ∉ r.2.1 := by
            intro j hj hmem
            rw [hready', List.mem_append, List.mem_reverse] at hmem
            rcases hmem with hdone | hold
            · exact hsplit.2.2 _ hdone _ (List.mem_map_of_mem hj) rfl
            · exact hready j (hrest hj) hold
          have hround : drain key needs act stuck (rounds + 1) (i :: rest) ready s =
              if r.1.length = (i :: rest).length then .error stuck else drain key needs act stuck rounds r.1 r.2.1 r.2.2 := by
            rw [drain, hpass]
            rfl
          rw [hround]
          split
          · exact .inr rfl
          · exact ih (List.Subset.trans hrest hsub) hsplit.2.1 hfree hIr

end Passes

section Peel

variable {α : Type} [DecidableEq α]

/-- The items that need none of those that wait. -/
def free (needs : α → List α) (pending : List α) : List α := pending.filter fun i => (needs i).all fun j => j ∉ pending

/-- Take the free items, in the arrangement of a round, until no item waits or
none is free; `none` where that takes more rounds than there are. -/
def peel (needs : α → List α) (arrange : List α → List α) (stuck : ε) : Nat → List α → List α → Option (Except ε (List α))
  | 0, _, _ => none
  | rounds + 1, pending, done =>
      if pending = [] then some (.ok done)
      else if free needs pending = [] then some (.error stuck)
      else peel needs arrange stuck rounds (pending.filter fun i => i ∉ free needs pending) (done ++ arrange (free needs pending))

variable {needs : α → List α} {arrange : List α → List α} {stuck e : ε} {rounds : Nat} {pending done order : List α} {i j : α}

theorem mem_free : i ∈ free needs pending ↔ i ∈ pending ∧ ∀ j ∈ needs i, j ∉ pending := by
  simp [free]

theorem filter_free : (pending.filter fun i => i ∈ free needs pending) = free needs pending := by
  rw [free]
  apply List.filter_congr
  intro i hi
  rw [Bool.eq_iff_iff, decide_eq_true_iff, List.mem_filter, and_iff_right hi]

/-- The free items and those that wait on are all items. -/
theorem free_append_perm (pending : List α) :
    (free needs pending ++ pending.filter fun i => i ∉ free needs pending).Perm pending := by
  have hsplit := List.filter_append_perm (fun i => decide (i ∈ free needs pending)) pending
  rw [filter_free] at hsplit
  simpa using hsplit

theorem length_waiting (h : free needs pending ≠ []) : (pending.filter fun i => i ∉ free needs pending).length < pending.length := by
  have hlength := (@free_append_perm _ _ needs pending).length_eq
  have hpositive := List.length_pos_of_ne_nil h
  rw [List.length_append] at hlength
  omega

theorem peel_terminates (h : pending.length < rounds) : ∃ r, peel needs arrange stuck rounds pending done = some r := by
  induction rounds generalizing pending done with
  | zero => cases h
  | succ rounds ih =>
      rw [peel]
      split
      · exact ⟨_, rfl⟩
      · split
        · exact ⟨_, rfl⟩
        · rename_i hfree
          have hwaiting := length_waiting hfree
          exact ih (by omega)

/-- The items come out once each, and none before one that it needs. -/
theorem peel_sound (hperm : ∀ items, (arrange items).Perm items) (h : peel needs arrange stuck rounds pending done = some (.ok order)) :
    ∃ taken, order = done ++ taken ∧ taken.Perm pending ∧ (∀ i ∈ pending, i ∉ needs i) ∧ taken.Pairwise fun i j => j ∉ needs i := by
  induction rounds generalizing pending done with
  | zero => cases h
  | succ rounds ih =>
      rw [peel] at h
      split at h
      · rename_i hnil
        subst hnil
        obtain rfl := Except.ok.inj (Option.some.inj h)
        exact ⟨[], (List.append_nil _).symm, .nil, fun i hi => (nomatch hi), .nil⟩
      · split at h
        · cases h
        · obtain ⟨taken, hdone, htaken, hself, hpairwise⟩ := ih h
          have hall := (((hperm (free needs pending)).append htaken).trans (free_append_perm pending))
          have hfree : ∀ i ∈ arrange (free needs pending), ∀ j ∈ pending, j ∉ needs i :=
            fun i hi j hj hneed => (mem_free.mp ((hperm _).subset hi)).2 j hneed hj
          refine ⟨arrange (free needs pending) ++ taken, by rw [hdone, List.append_assoc], hall, fun i hi => ?_, ?_⟩
          · by_cases hmem : i ∈ free needs pending
            · exact hfree i ((hperm _).mem_iff.mpr hmem) i hi
            · exact hself i (List.mem_filter.mpr ⟨hi, decide_eq_true hmem⟩)
          · rw [List.pairwise_append]
            refine ⟨List.pairwise_of_forall_mem_list ?_, hpairwise, ?_⟩
            · exact fun i hi j hj => hfree i hi j (hall.subset (List.mem_append_left _ hj))
            · exact fun i hi j hj => hfree i hi j (hall.subset (List.mem_append_right _ hj))

theorem peel_stuck (h : peel needs arrange stuck rounds pending done = some (.error e)) :
    e = stuck ∧ ∃ waiting ⊆ pending, waiting ≠ [] ∧ free needs waiting = [] := by
  induction rounds generalizing pending done with
  | zero => cases h
  | succ rounds ih =>
      rw [peel] at h
      split at h
      · cases h
      · rename_i hne
        split at h
        · rename_i hfree
          exact ⟨(Except.error.inj (Option.some.inj h)).symm, pending, List.Subset.refl _, hne, hfree⟩
        · obtain ⟨he, waiting, hsub, hwaiting⟩ := ih h
          exact ⟨he, waiting, fun i hi => (List.mem_filter.mp (hsub hi)).1, hwaiting⟩

/-- Items in an order in which none comes before one that it needs do not need each other in a circle. -/
theorem acyclic_of_pairwise (hself : ∀ i ∈ order, i ∉ needs i) (hpairwise : order.Pairwise fun i j => j ∉ needs i) :
    Acyclic id needs order := by
  have hearlier : ∀ i j, Dep id needs order i j → order.idxOf j < order.idxOf i := by
    rintro i j ⟨hi, hj, hneed⟩
    have hi' := List.idxOf_lt_length_of_mem hi
    have hj' := List.idxOf_lt_length_of_mem hj
    rcases Nat.lt_trichotomy (order.idxOf i) (order.idxOf j) with hlt | heq | hgt
    · have hnot := List.pairwise_iff_getElem.mp hpairwise _ _ hi' hj' hlt
      rw [List.getElem_idxOf, List.getElem_idxOf] at hnot
      exact absurd hneed hnot
    · have hsame : i = j := (List.idxOf_inj hi).mp heq
      exact absurd (hsame ▸ hneed) (hself i hi)
    · exact hgt
  intro i hcycle
  have hlt : ∀ {a b}, TransGen (Dep id needs order) a b → order.idxOf b < order.idxOf a := by
    intro a b hpath
    induction hpath with
    | single hdep => exact hearlier _ _ hdep
    | tail _ hdep ih => exact Nat.lt_trans (hearlier _ _ hdep) ih
  exact Nat.lt_irrefl _ (hlt hcycle)

theorem peel_ok_iff (hperm : ∀ items, (arrange items).Perm items) (hrounds : pending.length < rounds) :
    (∃ order, peel needs arrange stuck rounds pending done = some (.ok order)) ↔ Acyclic id needs pending := by
  constructor
  · rintro ⟨order, h⟩
    obtain ⟨taken, -, htaken, hself, hpairwise⟩ := peel_sound hperm h
    exact (acyclic_of_pairwise (fun i hi => hself i (htaken.subset hi)) hpairwise).mono htaken.symm.subset
  · intro hacyclic
    obtain ⟨r, hr⟩ := @peel_terminates _ _ _ needs arrange stuck _ _ done hrounds
    cases r with
    | ok order => exact ⟨order, hr⟩
    | error e =>
        obtain ⟨-, waiting, hsub, hne, hfree⟩ := peel_stuck hr
        obtain ⟨i, hi, hnone⟩ := (hacyclic.mono hsub).exists_free hne
        have hmem : i ∈ free needs waiting := mem_free.mpr ⟨hi, fun j hneed hj => hnone j hj hneed⟩
        rw [hfree] at hmem
        cases hmem

end Peel

section Serve

/-- Act on the first item that no item that waits blocks, and take it out, until no item waits or each is blocked;
`none` where that takes more rounds than there are. -/
def serve (blocked : ι → ι → Bool) (act : σ → ι → Except ε σ) (stuck : ε) : Nat → List ι → σ → Option (Except ε σ)
  | 0, _, _ => none
  | rounds + 1, pending, s =>
      if pending.isEmpty then some (.ok s)
      else
        match pending.find? fun i => !pending.any (blocked i) with
        | none => some (.error stuck)
        | some i =>
            match act s i with
            | .ok s => serve blocked act stuck rounds (pending.eraseP fun i => !pending.any (blocked i)) s
            | .error e => some (.error e)

/-- Nothing blocks itself by way of others of the items. -/
def Unblocked (blocked : ι → ι → Bool) (items : List ι) : Prop :=
  ∀ i, ¬TransGen (fun i j => i ∈ items ∧ j ∈ items ∧ blocked i j = true) i i

/-- An order of the items in which none comes before one that blocks it. -/
structure Serves (blocked : ι → ι → Bool) (order items : List ι) : Prop where
  perm : order.Perm items
  later : order.Pairwise fun i j => blocked i j = false
  self : ∀ i ∈ order, blocked i i = false

variable {blocked : ι → ι → Bool} {stuck e : ε} {rounds : Nat} {pending order items : List ι} {i : ι} {s t : σ}

theorem dep_filter : Dep id (fun i => items.filter (blocked i)) items = fun i j => i ∈ items ∧ j ∈ items ∧ blocked i j = true := by
  funext i j
  simp only [Dep, id, List.mem_filter, eq_iff_iff]
  constructor
  · rintro ⟨hi, hj, -, hblocked⟩
    exact ⟨hi, hj, hblocked⟩
  · rintro ⟨hi, hj, hblocked⟩
    exact ⟨hi, hj, hj, hblocked⟩

theorem unblocked_iff : Unblocked blocked items ↔ Acyclic id (fun i => items.filter (blocked i)) items := by
  rw [Unblocked, Acyclic, dep_filter]

theorem Unblocked.exists_free (h : Unblocked blocked items) (hne : items ≠ []) :
    ∃ i ∈ items, ∀ j ∈ items, blocked i j = false := by
  obtain ⟨i, hi, hfree⟩ := (unblocked_iff.mp h).exists_free hne
  refine ⟨i, hi, fun j hj => ?_⟩
  have hnot := hfree j hj
  rw [id, List.mem_filter, not_and, Bool.not_eq_true] at hnot
  exact hnot hj

theorem Unblocked.mono (h : Unblocked blocked items) (hsub : order ⊆ items) : Unblocked blocked order := by
  intro i hcycle
  exact h i (TransGen.mono (fun a b hdep => ⟨hsub hdep.1, hsub hdep.2.1, hdep.2.2⟩) i i hcycle)

theorem Serves.unblocked (h : Serves blocked order items) : Unblocked blocked items := by
  classical
  have hself : ∀ i ∈ order, i ∉ order.filter (blocked i) := by
    intro i hi hmem
    exact Bool.false_ne_true ((h.self i hi).symm.trans (List.mem_filter.mp hmem).2)
  have hlater : order.Pairwise fun i j => j ∉ order.filter (blocked i) := by
    refine h.later.imp fun hfalse hmem => ?_
    exact Bool.false_ne_true (hfalse.symm.trans (List.mem_filter.mp hmem).2)
  have horder : Unblocked blocked order := unblocked_iff.mpr (acyclic_of_pairwise hself hlater)
  exact horder.mono h.perm.symm.subset

theorem perm_eraseP {p : ι → Bool} (h : items.find? p = some i) : (i :: items.eraseP p).Perm items := by
  obtain ⟨hi, before, after, rfl, hbefore⟩ := List.find?_eq_some_iff_append.mp h
  have herase : (before ++ i :: after).eraseP p = before ++ after := by
    rw [List.eraseP_append_right _ fun b hb => by simpa using hbefore b hb, List.eraseP_cons_of_pos hi]
  rw [herase]
  exact List.perm_middle.symm

/-- The item that a round acts on, and those that wait on. -/
theorem find_free (h : pending.find? (fun i => !pending.any (blocked i)) = some i) :
    (i :: pending.eraseP fun i => !pending.any (blocked i)).Perm pending ∧ ∀ j ∈ pending, blocked i j = false := by
  refine ⟨perm_eraseP h, fun j hj => ?_⟩
  have hfree := List.find?_some h
  by_contra hblocked
  have hany : pending.any (blocked i) = true := List.any_eq_true.mpr ⟨j, hj, by simpa using hblocked⟩
  rw [hany] at hfree
  cases hfree

theorem serve_terminates (h : pending.length < rounds) : ∃ r, serve blocked act stuck rounds pending s = some r := by
  induction rounds generalizing pending s with
  | zero => cases h
  | succ rounds ih =>
      rw [serve]
      split
      · exact ⟨_, rfl⟩
      · split
        · exact ⟨_, rfl⟩
        · rename_i i hfind
          split
          · have hlength := (find_free hfind).1.length_eq
            rw [List.length_cons] at hlength
            exact ih (by omega)
          · exact ⟨_, rfl⟩

/-- The items are acted on once each, and none before one that blocks it. -/
theorem serve_ok (h : serve blocked act stuck rounds pending s = some (.ok t)) :
    ∃ order, Serves blocked order pending ∧ order.foldlM act s = .ok t := by
  induction rounds generalizing pending s with
  | zero => cases h
  | succ rounds ih =>
      rw [serve] at h
      split at h
      · rename_i hempty
        obtain rfl := List.isEmpty_iff.mp hempty
        exact ⟨[], ⟨.nil, .nil, fun i hi => nomatch hi⟩, congrArg _ (Except.ok.inj (Option.some.inj h))⟩
      · split at h
        · cases h
        · rename_i i hfind
          obtain ⟨hperm, hfree⟩ := find_free hfind
          split at h
          · rename_i acted hact
            obtain ⟨order, hserves, hfold⟩ := ih h
            have hall := (hserves.perm.cons i).trans hperm
            refine ⟨i :: order, ⟨hall, ?_, ?_⟩, ?_⟩
            · refine List.pairwise_cons.mpr ⟨fun j hj => hfree j (hall.subset (List.mem_cons_of_mem _ hj)), hserves.later⟩
            · exact List.forall_mem_cons.mpr ⟨hfree i (hall.subset List.mem_cons_self), hserves.self⟩
            · rw [List.foldlM_cons]
              exact bind_eq_ok.mpr ⟨acted, hact, hfold⟩
          · cases h

/-- The loop ends early where an item cannot be acted on, or where those that wait block each other. -/
theorem serve_error (h : serve blocked act stuck rounds pending s = some (.error e)) :
    (e = stuck ∧ ¬Unblocked blocked pending) ∨ ∃ order i t, i ∈ pending ∧ order ⊆ pending ∧ order.foldlM act s = .ok t ∧ act t i = .error e := by
  induction rounds generalizing pending s with
  | zero => cases h
  | succ rounds ih =>
      rw [serve] at h
      split at h
      · cases h
      · rename_i hne
        split at h
        · rename_i hfind
          left
          refine ⟨(Except.error.inj (Option.some.inj h)).symm, fun hunblocked => ?_⟩
          obtain ⟨i, hi, hfree⟩ := hunblocked.exists_free (by simpa using hne)
          have hblocked := List.find?_eq_none.mp hfind i hi
          simp only [Bool.not_eq_true', Bool.not_eq_false, List.any_eq_true] at hblocked
          obtain ⟨j, hj, htrue⟩ := hblocked
          exact Bool.false_ne_true ((hfree j hj).symm.trans htrue)
        · rename_i i hfind
          obtain ⟨hperm, -⟩ := find_free hfind
          have hi : i ∈ pending := hperm.subset List.mem_cons_self
          have hsub : (pending.eraseP fun i => !pending.any (blocked i)) ⊆ pending := List.eraseP_subset
          split at h
          · rename_i acted hact
            rcases ih h with ⟨he, hblocked⟩ | ⟨order, j, u, hj, horder, hfold, hfailed⟩
            · exact .inl ⟨he, fun hunblocked => hblocked (hunblocked.mono hsub)⟩
            · right
              refine ⟨i :: order, j, u, hsub hj, List.cons_subset.mpr ⟨hi, List.Subset.trans horder hsub⟩, ?_, hfailed⟩
              rw [List.foldlM_cons]
              exact bind_eq_ok.mpr ⟨acted, hact, hfold⟩
          · rename_i failure hact
            obtain rfl := Except.error.inj (Option.some.inj h)
            exact .inr ⟨[], i, s, hi, List.nil_subset _, rfl, hact⟩

theorem serve_ok_iff (hact : ∀ i ∈ pending, ∀ s, ∃ t, act s i = .ok t) (hrounds : pending.length < rounds) :
    (∃ t, serve blocked act stuck rounds pending s = some (.ok t)) ↔ Unblocked blocked pending := by
  constructor
  · rintro ⟨t, h⟩
    obtain ⟨order, hserves, -⟩ := serve_ok h
    exact hserves.unblocked
  · intro hunblocked
    obtain ⟨r, hr⟩ := @serve_terminates _ _ _ act blocked stuck _ _ s hrounds
    cases r with
    | ok t => exact ⟨t, hr⟩
    | error e =>
        rcases serve_error hr with ⟨-, hblocked⟩ | ⟨order, i, t, hi, -, -, hfailed⟩
        · exact absurd hunblocked hblocked
        · obtain ⟨u, hu⟩ := hact i hi t
          rw [hu] at hfailed
          cases hfailed

end Serve

end Wordflow.Library.Worklist
