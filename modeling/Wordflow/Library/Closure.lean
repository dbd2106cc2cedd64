import Mathlib.Data.Set.Basic
import Mathlib.Order.Bounds.Basic

namespace Wordflow.Library.Closure

variable {α : Type} (same : α → α → Bool)

/-- An object is covered where one of the objects is the same. -/
def Covers (objects : List α) (r : α) : Prop := ∃ o ∈ objects, same o r = true

/-- Put an object into a list that does not have it. -/
def add (objects : List α) (object : α) : List α :=
  if objects.any fun o => same o object then objects else objects ++ [object]

def visit (objects : List α) (edge : α × α) : List α :=
  if objects.any fun o => same o edge.1 then add same objects edge.2 else objects

def pass (edges : List (α × α)) (objects : List α) : List α := edges.foldl (visit same) objects

/-- Follow the edges over and over, until a pass adds nothing. -/
def close (edges : List (α × α)) : Nat → List α → Option (List α)
  | 0, _ => none
  | rounds + 1, objects =>
      let next := pass same edges objects
      if objects.length = next.length then some next else close edges rounds next

/-- What has the start and follows the edges, whichever of the same objects are meant. -/
structure Closed (edges : List (α × α)) (start : List α) (S : Set α) : Prop where
  start : ∀ o ∈ start, o ∈ S
  edges : ∀ e ∈ edges, e.1 ∈ S → e.2 ∈ S
  same : ∀ o r, same o r = true → o ∈ S → r ∈ S

/-- The start, and what the first `n` visits reach where the edges are visited over and over. -/
inductive Visited (edges : List (α × α)) (start : List α) : Nat → α → Prop
  | start {n : Nat} {o r : α} (ho : o ∈ start) (hr : same o r = true) : Visited edges start n r
  | visit {m n : Nat} {e : α × α} {r : α} (hmn : m < n) (he : edges[m % edges.length]? = some e)
      (hsource : Visited edges start m e.1) (hr : same e.2 r = true) : Visited edges start n r

/-- The first visit that reaches an object does so by an edge to this very object. -/
def FirstVisited (edges : List (α × α)) (start : List α) (x : α) : Prop :=
  ∃ m e, edges[m % edges.length]? = some e ∧ e.2 = x ∧ Visited same edges start m e.1 ∧ ¬Visited same edges start m x

section Add

variable {same} {objects : List α} {object r : α}

theorem any_iff : (objects.any fun o => same o r) = true ↔ Covers same objects r := List.any_eq_true

theorem prefix_add (objects : List α) (object : α) : objects <+: add same objects object := by
  rw [add]
  split
  · exact List.prefix_rfl
  · exact List.prefix_append _ _

theorem prefix_visit (objects : List α) (edge : α × α) : objects <+: visit same objects edge := by
  rw [visit]
  split
  · exact prefix_add _ _
  · exact List.prefix_rfl

theorem Covers.mono {more : List α} (h : Covers same objects r) ( hprefix : objects <+: more) : Covers same more r := by
  obtain ⟨o, ho, hr⟩ := h
  exact ⟨o, hprefix.subset ho, hr⟩

/-- An object is there with its own spelling where it was, or where it is the first of its kind. -/
theorem mem_add : r ∈ add same objects object ↔ r ∈ objects ∨ r = object ∧ ¬Covers same objects r := by
  rw [add]
  split
  · rename_i hany
    rw [any_iff] at hany
    exact ⟨.inl, fun h => h.elim id fun hr => absurd (hr.1 ▸ hany) hr.2⟩
  · rename_i hany
    rw [any_iff] at hany
    rw [List.mem_append, List.mem_singleton]
    exact or_congr_right ⟨fun hr => ⟨hr, hr ▸ hany⟩, And.left⟩

theorem pairwise_add (h : objects.Pairwise fun a b => same a b = false) :
    (add same objects object).Pairwise fun a b => same a b = false := by
  rw [add]
  split
  · exact h
  · rename_i hany
    rw [any_iff] at hany
    refine List.pairwise_append.mpr ⟨h, List.pairwise_singleton _ _, fun a ha b hb => ?_⟩
    rw [List.mem_singleton.mp hb]
    exact Bool.eq_false_iff.mpr fun heq => hany ⟨a, ha, heq⟩

theorem pairwise_visit {edge : α × α} (h : objects.Pairwise fun a b => same a b = false) :
    (visit same objects edge).Pairwise fun a b => same a b = false := by
  rw [visit]
  split
  · exact pairwise_add h
  · exact h

variable (hsame : Equivalence fun a b => same a b = true)

include hsame

theorem Covers.congr {r' : α} (h : Covers same objects r) (hr : same r r' = true) : Covers same objects r' := by
  obtain ⟨o, ho, hor⟩ := h
  exact ⟨o, ho, hsame.trans hor hr⟩

theorem covers_add : Covers same (add same objects object) r ↔ Covers same objects r ∨ same object r = true := by
  rw [add]
  split
  · rename_i hany
    rw [any_iff] at hany
    exact ⟨.inl, fun h => h.elim id fun hr => hany.congr hsame hr⟩
  · constructor
    · rintro ⟨o, ho, hr⟩
      rcases List.mem_append.mp ho with ho | ho
      · exact .inl ⟨o, ho, hr⟩
      · exact .inr (List.mem_singleton.mp ho ▸ hr)
    · rintro (⟨o, ho, hr⟩ | hr)
      · exact ⟨o, List.mem_append_left _ ho, hr⟩
      · exact ⟨object, List.mem_append_right _ (List.mem_singleton_self _), hr⟩

theorem covers_visit {edge : α × α} :
    Covers same (visit same objects edge) r ↔
      Covers same objects r ∨ Covers same objects edge.1 ∧ same edge.2 r = true := by
  rw [visit]
  split
  · rename_i hany
    rw [any_iff] at hany
    rw [covers_add hsame, and_iff_right hany]
  · rename_i hany
    rw [any_iff] at hany
    exact ⟨.inl, fun h => h.elim id fun hedge => absurd hedge.1 hany⟩

end Add

/-- The objects after the first visits. -/
def after (edges : List (α × α)) (start : List α) : Nat → List α
  | 0 => start
  | n + 1 =>
      match edges[n % edges.length]? with
      | some e => visit same (after edges start n) e
      | none => after edges start n

section After

variable {same} {edges : List (α × α)} {start : List α} {n m : Nat} {r x : α}

theorem after_succ {e : α × α} (he : edges[n % edges.length]? = some e) :
    after same edges start (n + 1) = visit same (after same edges start n) e := by
  rw [after, he]

theorem prefix_after (h : m ≤ n) : after same edges start m <+: after same edges start n := by
  induction h with
  | refl => exact List.prefix_rfl
  | @step n _ ih =>
      refine ih.trans ?_
      rw [after]
      split
      · exact prefix_visit _ _
      · exact List.prefix_rfl

theorem pairwise_after (h : start.Pairwise fun a b => same a b = false) :
    (after same edges start n).Pairwise fun a b => same a b = false := by
  induction n with
  | zero => exact h
  | succ n ih =>
      rw [after]
      split
      · exact pairwise_visit ih
      · exact ih

/-- Going through the edges once is as many visits as there are edges. -/
theorem pass_after (rounds : Nat) : pass same edges (after same edges start (rounds * edges.length)) =
    after same edges start ((rounds + 1) * edges.length) := by
  have htake : ∀ i, i ≤ edges.length → (edges.take i).foldl (visit same) (after same edges start (rounds * edges.length)) =
      after same edges start (rounds * edges.length + i) := by
    intro i
    induction i with
    | zero => exact fun _ => rfl
    | succ i ih =>
        intro hi
        have hmod : (rounds * edges.length + i) % edges.length = i := by
          rw [Nat.mul_comm, Nat.mul_add_mod, Nat.mod_eq_of_lt hi]
        have hat : edges[(rounds * edges.length + i) % edges.length]? = some edges[i] := by
          rw [hmod, List.getElem?_eq_getElem hi]
        rw [List.take_succ_eq_append_getElem hi, List.foldl_append, ih (Nat.le_of_succ_le hi), ← Nat.add_assoc,
          after_succ hat, List.foldl_cons, List.foldl_nil]
  rw [pass, Nat.add_mul, Nat.one_mul, ← htake _ le_rfl, List.take_length]

theorem Visited.mono (h : Visited same edges start m r) (hmn : m ≤ n) : Visited same edges start n r := by
  cases h with
  | start ho hr => exact .start ho hr
  | visit hlt he hsource hr => exact .visit (hlt.trans_le hmn) he hsource hr

variable (hsame : Equivalence fun a b => same a b = true)

include hsame

theorem Visited.congr {r' : α} (h : Visited same edges start n r) (hr : same r r' = true) : Visited same edges start n r' := by
  cases h with
  | start ho hor => exact .start ho (hsame.trans hor hr)
  | visit hlt he hsource hor => exact .visit hlt he hsource (hsame.trans hor hr)

/-- The visits reach what the objects after them cover. -/
theorem covers_after : Covers same (after same edges start n) r ↔ Visited same edges start n r := by
  induction n generalizing r with
  | zero =>
      constructor
      · rintro ⟨o, ho, hr⟩
        exact .start ho hr
      · intro h
        cases h with
        | start ho hr => exact ⟨_, ho, hr⟩
        | visit hlt => exact absurd hlt (Nat.not_lt_zero _)
  | succ n ih =>
      cases he : edges[n % edges.length]? with
      | none =>
          rw [after, he, ih]
          refine ⟨fun h => h.mono (Nat.le_succ n), fun h => ?_⟩
          cases h with
          | start ho hr => exact .start ho hr
          | visit hlt he' hsource hr =>
              rcases Nat.lt_succ_iff_lt_or_eq.mp hlt with hlt | rfl
              · exact .visit hlt he' hsource hr
              · rw [he] at he'
                cases he'
      | some e =>
          rw [after_succ he, covers_visit hsame, ih, ih]
          constructor
          · rintro (h | ⟨hsource, hr⟩)
            · exact h.mono (Nat.le_succ n)
            · exact .visit (Nat.lt_succ_self n) he hsource hr
          · intro h
            cases h with
            | start ho hr => exact .inl (.start ho hr)
            | visit hlt he' hsource hr =>
                rcases Nat.lt_succ_iff_lt_or_eq.mp hlt with hlt | rfl
                · exact .inl (.visit hlt he' hsource hr)
                · rw [he] at he'
                  obtain rfl := Option.some.inj he'
                  exact .inr ⟨hsource, hr⟩

/-- What is added has the spelling of the edge that reaches it first. -/
theorem mem_after : x ∈ after same edges start n ↔ x ∈ start ∨ ∃ m < n, ∃ e, edges[m % edges.length]? = some e ∧ e.2 = x ∧
    Visited same edges start m e.1 ∧ ¬Visited same edges start m x := by
  induction n with
  | zero => exact ⟨.inl, fun h => h.elim id fun ⟨_, hlt, _⟩ => absurd hlt (Nat.not_lt_zero _)⟩
  | succ n ih =>
      have hstep : (∃ m < n + 1, ∃ e, edges[m % edges.length]? = some e ∧ e.2 = x ∧ Visited same edges start m e.1 ∧
            ¬Visited same edges start m x) ↔
          (∃ m < n, ∃ e, edges[m % edges.length]? = some e ∧ e.2 = x ∧ Visited same edges start m e.1 ∧
            ¬Visited same edges start m x) ∨
          ∃ e, edges[n % edges.length]? = some e ∧ e.2 = x ∧ Visited same edges start n e.1 ∧
            ¬Visited same edges start n x := by
        constructor
        · rintro ⟨m, hlt, h⟩
          rcases Nat.lt_succ_iff_lt_or_eq.mp hlt with hlt | rfl
          · exact .inl ⟨m, hlt, h⟩
          · exact .inr h
        · rintro (⟨m, hlt, h⟩ | h)
          · exact ⟨m, Nat.lt_succ_of_lt hlt, h⟩
          · exact ⟨n, Nat.lt_succ_self n, h⟩
      rw [hstep, ← or_assoc, ← ih]
      cases he : edges[n % edges.length]? with
      | none =>
          rw [after, he]
          exact ⟨.inl, fun h => h.elim id fun ⟨_, hnone, _⟩ => nomatch hnone⟩
      | some e =>
          rw [after_succ he, visit]
          split
          · rename_i hany
            rw [any_iff, covers_after hsame] at hany
            rw [mem_add, covers_after hsame]
            refine or_congr_right ⟨?_, ?_⟩
            · rintro ⟨rfl, hnew⟩
              exact ⟨e, rfl, rfl, hany, hnew⟩
            · rintro ⟨e', heq, rfl, -, hnew⟩
              obtain rfl := Option.some.inj heq
              exact ⟨rfl, hnew⟩
          · rename_i hany
            rw [any_iff, covers_after hsame] at hany
            refine ⟨.inl, fun h => h.elim id ?_⟩
            rintro ⟨e', heq, -, hsource, -⟩
            obtain rfl := Option.some.inj heq
            exact absurd hsource hany

end After

section Close

variable {same} {edges : List (α × α)} {start objects result : List α} {rounds : Nat} {x : α}

theorem prefix_pass (edges : List (α × α)) (objects : List α) : objects <+: pass same edges objects := by
  rw [pass]
  induction edges generalizing objects with
  | nil => exact List.prefix_rfl
  | cons e edges ih => exact (prefix_visit _ _).trans (ih _)

/-- The search ends where a pass adds nothing. -/
theorem close_after {done : Nat} (h : close same edges rounds (after same edges start (done * edges.length)) = some result) :
    ∃ n, result = after same edges start (n * edges.length) ∧ pass same edges result = result := by
  induction rounds generalizing done with
  | zero => cases h
  | succ rounds ih =>
      simp only [close, pass_after] at h
      split at h
      · rename_i hlength
        obtain rfl := Option.some.inj h
        have hsame : after same edges start (done * edges.length) = after same edges start ((done + 1) * edges.length) :=
          (prefix_after (Nat.mul_le_mul_right _ (Nat.le_succ done))).eq_of_length hlength
        exact ⟨done + 1, rfl, by rw [← hsame, pass_after, hsame]⟩
      · exact ih h

variable (hsame : Equivalence fun a b => same a b = true)

include hsame

/-- Objects that a pass adds nothing to are closed under the edges. -/
theorem covers_of_pass {n : Nat} (hresult : result = after same edges start (n * edges.length))
    (hpass : pass same edges result = result) {e : α × α} (he : e ∈ edges) (hsource : Covers same result e.1) :
    Covers same result e.2 := by
  obtain ⟨i, hi, rfl⟩ := List.getElem_of_mem he
  rw [hresult, pass_after] at hpass
  have hmod : (n * edges.length + i) % edges.length = i := by rw [Nat.mul_comm, Nat.mul_add_mod, Nat.mod_eq_of_lt hi]
  have hat : edges[(n * edges.length + i) % edges.length]? = some edges[i] := by
    rw [hmod, List.getElem?_eq_getElem hi]
  have hbefore : result <+: after same edges start (n * edges.length + i) := by
    rw [hresult]
    exact prefix_after (Nat.le_add_right _ _)
  have hafter : after same edges start (n * edges.length + i + 1) <+: result := by
    rw [hresult, ← hpass, Nat.add_mul, Nat.one_mul]
    exact prefix_after (by omega)
  rw [after_succ hat] at hafter
  exact ((covers_visit hsame).mpr (.inr ⟨hsource.mono hbefore, hsame.refl _⟩)).mono hafter

omit hsame in
/-- What is closed has everything the visits reach. -/
theorem Visited.mem {n : Nat} {S : Set α} (h : Visited same edges start n x) (hS : Closed same edges start S) : x ∈ S := by
  induction h with
  | start ho hr => exact hS.same _ _ hr (hS.start _ ho)
  | visit _ he _ hr ih => exact hS.same _ _ hr (hS.edges _ (List.mem_of_getElem? he) ih)

/-- The search finds the least set that has the start and follows the edges,
and keeps the spelling by which each object was reached first. -/
theorem close_spec (h : close same edges rounds start = some result) :
    IsLeast {S | Closed same edges start S} {x | Covers same result x} ∧ start <+: result ∧
    (start.Pairwise (fun a b => same a b = false) → result.Pairwise fun a b => same a b = false) ∧
    (∀ x, x ∈ result ↔ x ∈ start ∨ FirstVisited same edges start x) := by
  obtain ⟨n, hresult, hpass⟩ := @close_after _ _ _ _ _ _ 0 (by rw [Nat.zero_mul]; exact h)
  have hclosed : Closed same edges start {x | Covers same result x} := by
    refine ⟨fun o ho => ?_, fun e he hsource => covers_of_pass hsame hresult hpass he hsource,
      fun o r hr ho => Covers.congr hsame ho hr⟩
    have hstart : start <+: result := hresult ▸ prefix_after (Nat.zero_le _)
    exact ⟨o, hstart.subset ho, hsame.refl o⟩
  have hvisited : ∀ x, Covers same result x ↔ Visited same edges start (n * edges.length) x := by
    intro x
    rw [hresult, covers_after hsame]
  refine ⟨⟨hclosed, fun S hS x hx => Visited.mem ((hvisited x).mp hx) hS⟩, ?_, fun hstart => ?_, fun x => ?_⟩
  · rw [hresult]
    exact prefix_after (Nat.zero_le _)
  · rw [hresult]
    exact pairwise_after hstart
  · rw [hresult, mem_after hsame]
    refine or_congr_right ⟨fun ⟨m, _, e, hfirst⟩ => ⟨m, e, hfirst⟩, ?_⟩
    rintro ⟨m, e, he, rfl, hsource, hnew⟩
    refine ⟨m, ?_, e, he, rfl, hsource, hnew⟩
    by_contra hlate
    have hreached : Covers same result e.2 :=
      hclosed.edges e (List.mem_of_getElem? he) (Visited.mem hsource hclosed)
    exact hnew (((hvisited _).mp hreached).mono (Nat.le_of_not_lt hlate))

theorem visit_cases (objects : List α) (e : α × α) :
    visit same objects e = objects ∨ ¬Covers same objects e.2 ∧ Covers same (visit same objects e) e.2 := by
  rw [visit]
  split
  · rw [add]
    split
    · exact .inl rfl
    · rename_i hany
      rw [any_iff] at hany
      exact .inr ⟨hany, e.2, List.mem_append_right _ (List.mem_singleton_self _), hsame.refl _⟩
  · exact .inl rfl

/-- A pass that adds something reaches an edge it had not reached. -/
theorem pass_grows (h : objects.length ≠ (pass same edges objects).length) :
    ∃ e ∈ edges, ¬Covers same objects e.2 ∧ Covers same (pass same edges objects) e.2 := by
  induction edges with
  | nil => exact absurd rfl h
  | cons e edges ih =>
      rcases visit_cases hsame objects e with hvisit | ⟨hnew, hcovers⟩
      · have hpass : pass same (e :: edges) objects = pass same edges objects := by
          rw [pass, List.foldl_cons, hvisit, ← pass]
        rw [hpass] at h ⊢
        obtain ⟨f, hf, hgrows⟩ := ih h
        exact ⟨f, List.mem_cons_of_mem _ hf, hgrows⟩
      · exact ⟨e, List.mem_cons_self, hnew, hcovers.mono (prefix_pass edges _)⟩

/-- There are at most as many rounds as edges, and one more that adds nothing. -/
theorem close_terminates {objects : List α}
    (hrounds : (edges.filter fun e => !objects.any fun o => same o e.2).length < rounds) :
    ∃ result, close same edges rounds objects = some result := by
  induction rounds generalizing objects with
  | zero => exact absurd hrounds (Nat.not_lt_zero _)
  | succ rounds ih =>
      rw [close]
      by_cases hlength : objects.length = (pass same edges objects).length
      · exact ⟨_, if_pos hlength⟩
      · rw [if_neg hlength]
        obtain ⟨e, he, hnew, hreached⟩ := pass_grows hsame hlength
        apply ih
        refine Nat.lt_of_lt_of_le ?_ (Nat.lt_succ_iff.mp hrounds)
        have hfilter : (edges.filter fun e => !(pass same edges objects).any fun o => same o e.2) =
            (edges.filter fun e => !objects.any fun o => same o e.2).filter fun e =>
              !(pass same edges objects).any fun o => same o e.2 := by
          rw [List.filter_filter]
          apply List.filter_congr
          intro f _
          cases hlate : (pass same edges objects).any fun o => same o f.2 with
          | true => rfl
          | false =>
              have hearly : (objects.any fun o => same o f.2) = false :=
                Bool.eq_false_iff.mpr fun hany =>
                  Bool.eq_false_iff.mp hlate (any_iff.mpr ((any_iff.mp hany).mono (prefix_pass edges objects)))
              rw [hearly]
              rfl
        rw [hfilter]
        refine List.length_filter_lt_length_iff_exists.mpr ⟨e, List.mem_filter.mpr ⟨he, ?_⟩, ?_⟩
        · rw [Bool.not_eq_true', Bool.eq_false_iff]
          exact fun hany => hnew (any_iff.mp hany)
        · rw [any_iff.mpr hreached]
          exact Bool.false_ne_true

omit hsame in
/-- More rounds change nothing. -/
theorem close_mono {more : Nat} (h : close same edges rounds objects = some result) (hmore : rounds ≤ more) :
    close same edges more objects = some result := by
  induction rounds generalizing more objects with
  | zero => cases h
  | succ rounds ih =>
      cases more with
      | zero => exact absurd hmore (Nat.not_succ_le_zero _)
      | succ more =>
          simp only [close] at h ⊢
          split
          · rename_i hlength
            rwa [if_pos hlength] at h
          · rename_i hlength
            rw [if_neg hlength] at h
            exact ih h (Nat.le_of_succ_le_succ hmore)

end Close

section Start

variable {same} {edges : List (α × α)} {start other objects : List α} {n : Nat} {r x : α}
  (hsame : Equivalence fun a b => same a b = true)

/-- The visits depend on what the start covers only. -/
theorem Visited.of_covers (hcovers : ∀ r, Covers same start r → Covers same other r) (h : Visited same edges start n r) :
    Visited same edges other n r := by
  induction h with
  | start ho hr =>
      obtain ⟨o, ho, hr⟩ := hcovers _ ⟨_, ho, hr⟩
      exact .start ho hr
  | visit hlt he _ hr ih => exact .visit hlt he ih hr

theorem firstVisited_congr (hcovers : ∀ r, Covers same start r ↔ Covers same other r) :
    FirstVisited same edges start x ↔ FirstVisited same edges other x := by
  have hvisited : ∀ n r, Visited same edges start n r ↔ Visited same edges other n r := fun n r =>
    ⟨.of_covers fun r => (hcovers r).mp, .of_covers fun r => (hcovers r).mpr⟩
  simp only [FirstVisited, hvisited]

include hsame

theorem covers_foldl_add (objects more : List α) :
    Covers same (more.foldl (add same) objects) r ↔ Covers same (objects ++ more) r := by
  induction more generalizing objects with
  | nil => rw [List.foldl_nil, List.append_nil]
  | cons o more ih =>
      rw [List.foldl_cons, ih]
      constructor
      · rintro ⟨a, ha, hr⟩
        rcases List.mem_append.mp ha with ha | ha
        · rcases (covers_add hsame).mp ⟨a, ha, hr⟩ with ⟨b, hb, hbr⟩ | hor
          · exact ⟨b, List.mem_append_left _ hb, hbr⟩
          · exact ⟨o, List.mem_append_right _ List.mem_cons_self, hor⟩
        · exact ⟨a, List.mem_append_right _ (List.mem_cons_of_mem _ ha), hr⟩
      · rintro ⟨a, ha, hr⟩
        rw [List.mem_append, List.mem_cons] at ha
        rcases ha with ha | rfl | ha
        · exact ⟨a, List.mem_append_left _ ((prefix_add objects o).subset ha), hr⟩
        · obtain ⟨b, hb, hbr⟩ := (covers_add hsame).mpr (.inr hr)
          exact ⟨b, List.mem_append_left _ hb, hbr⟩
        · exact ⟨a, List.mem_append_right _ ha, hr⟩

omit hsame in
theorem prefix_foldl_add (objects more : List α) : objects <+: more.foldl (add same) objects := by
  induction more generalizing objects with
  | nil => exact List.prefix_rfl
  | cons o more ih => exact (prefix_add objects o).trans (ih _)

omit hsame in
theorem pairwise_foldl_add (more : List α) (h : objects.Pairwise fun a b => same a b = false) :
    (more.foldl (add same) objects).Pairwise fun a b => same a b = false := by
  induction more generalizing objects with
  | nil => exact h
  | cons o more ih => exact ih (pairwise_add h)

theorem find?_foldl_add (objects more : List α) :
    (more.foldl (add same) objects).find? (fun o => same o x) = (objects ++ more).find? fun o => same o x := by
  induction more generalizing objects with
  | nil => rw [List.foldl_nil, List.append_nil]
  | cons o more ih =>
      rw [List.foldl_cons, ih, List.find?_append, List.find?_append, add]
      split
      · rename_i hany
        obtain ⟨b, hb, hbo⟩ := any_iff.mp hany
        cases hfound : objects.find? fun o => same o x with
        | some a => rfl
        | none =>
            have hother : same o x = false := by
              refine Bool.eq_false_iff.mpr fun hox => ?_
              exact List.find?_eq_none.mp hfound b hb (hsame.trans hbo hox)
            rw [List.find?_cons_of_neg (by simp [hother])]
      · rw [List.find?_append, Option.or_assoc, ← List.find?_append, List.singleton_append]

theorem mem_iff_find? (h : objects.Pairwise fun a b => same a b = false) :
    x ∈ objects ↔ objects.find? (fun o => same o x) = some x := by
  refine ⟨fun hx => ?_, List.mem_of_find?_eq_some⟩
  induction objects with
  | nil => cases hx
  | cons a objects ih =>
      obtain ⟨hhead, htail⟩ := List.pairwise_cons.mp h
      rcases List.mem_cons.mp hx with rfl | hx
      · exact List.find?_cons_of_pos (hsame.refl x)
      · rw [List.find?_cons_of_neg (by simp [hhead x hx])]
        exact ih htail hx

/-- Of distinct objects and the ones added to them, the first of each kind is kept. -/
theorem mem_foldl_add (more : List α) (h : objects.Pairwise fun a b => same a b = false) :
    x ∈ more.foldl (add same) objects ↔ (objects ++ more).find? (fun o => same o x) = some x := by
  rw [mem_iff_find? hsame (pairwise_foldl_add more h), find?_foldl_add hsame]

end Start

end Wordflow.Library.Closure
