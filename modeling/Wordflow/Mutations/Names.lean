import Wordflow.Mutations.Transform

namespace Wordflow.Mutations

open Library Library.Fallible Library.Identifier Objects Query

variable {V : Type}

def Output.refs (o : Output) : List Reference := (o.expression.map Expr.refs).getD []

section Bind

variable {s s' : Scope}

theorem columnRef_eq_some {names : Reference} {b : Reading} :
    columnRef s names = some b ↔ ∃ c, s.resolve names = some c ∧ b = .ref (.column c) := by
  rw [columnRef, Option.map_eq_some_iff]
  simp [eq_comm]

theorem selectRef_eq_column {done : List String} {names : Reference} {c : String} :
    selectRef s done names = some (.ref (.column c)) ↔ s.resolve names = some c := by
  cases hresolve : s.resolve names with
  | some found => simp [selectRef, hresolve]
  | none =>
      simp only [selectRef, hresolve]
      refine ⟨fun h => ?_, fun h => by cases h⟩
      split at h
      · obtain ⟨o, -, ho⟩ := Option.map_eq_some_iff.mp h
        cases ho
      · cases h

/-- Two scopes bind an output alike when its references name the same columns
in both. -/
theorem Output.bind_iff {o : Output} {b : Reading} {f : Reference → Option Reading}
    (h : o.bind (columnRef s') = some b) :
    o.bind f = some b ↔ ∀ r ∈ o.refs, f r = columnRef s' r := by
  rcases o with ⟨name, _ | e⟩
  · simpa [Output.bind, Output.refs] using h
  · exact Expr.bind_eq_iff e b h

theorem Output.resolved {o : Output} {b : Reading} (h : o.bind (columnRef s') = some b) :
    ∀ r ∈ o.refs, ∃ c, s'.resolve r = some c := by
  rcases o with ⟨name, _ | e⟩
  · simp [Output.refs]
  · intro r hr
    obtain ⟨found, hfound⟩ := Expr.bind_refs e b h r hr
    obtain ⟨c, hc, -⟩ := columnRef_eq_some.mp hfound
    exact ⟨c, hc⟩

theorem bindEach_cons {o : Output} {rest : List Output} {plan : List (Output × Reading)} :
    bindEach s' (o :: rest) = some plan ↔
      ∃ b bs, o.bind (columnRef s') = some b ∧ bindEach s' rest = some bs ∧ plan = (o, b) :: bs := by
  rw [bindEach, List.mapM_cons]
  cases hb : o.bind (columnRef s') with
  | none => simp
  | some b =>
      cases hrest : rest.mapM fun o => (o.bind (columnRef s')).map fun b => (o, b) with
      | none => simp [bindEach, hrest]
      | some bs => simp [bindEach, hrest, eq_comm]

/-- Binding a SELECT list reads columns only exactly when every reference names
the column it names by itself. -/
theorem bindSelect_iff {read : Reference → Reference} {done : List String} {outputs : List Output}
    {plan : List (Output × Reading)} (h : bindEach s' outputs = some plan) :
    bindSelect s read done outputs = some plan ↔
      ∀ o ∈ outputs, ∀ r ∈ o.refs, s.resolve (read r) = s'.resolve r := by
  induction outputs generalizing done plan with
  | nil =>
      obtain rfl := Option.some.inj h
      simp [bindSelect]
  | cons o rest ih =>
      obtain ⟨b, bs, hb, hbs, rfl⟩ := bindEach_cons.mp h
      have hhead : o.bind (fun names => selectRef s done (read names)) = some b ↔
          ∀ r ∈ o.refs, s.resolve (read r) = s'.resolve r := by
        rw [Output.bind_iff hb]
        refine forall₂_congr fun r hr => ?_
        obtain ⟨c, hc⟩ := Output.resolved hb r hr
        rw [columnRef_eq_some.mpr ⟨c, hc, rfl⟩, selectRef_eq_column, hc]
      rw [List.forall_mem_cons, ← hhead, ← @ih (done ++ [o.name]) _ hbs, bindSelect]
      cases o.bind fun names => selectRef s done (read names) with
      | none => simp
      | some b' => cases bindSelect s read (done ++ [o.name]) rest <;> simp

theorem bindEach_iff {outputs : List Output} {plan : List (Output × Reading)} (h : bindEach s' outputs = some plan) :
    bindEach s outputs = some plan ↔ ∀ o ∈ outputs, ∀ r ∈ o.refs, s.resolve r = s'.resolve r := by
  induction outputs generalizing plan with
  | nil =>
      obtain rfl := Option.some.inj h
      simp [bindEach]
  | cons o rest ih =>
      obtain ⟨b, bs, hb, hbs, rfl⟩ := bindEach_cons.mp h
      have hhead : o.bind (columnRef s) = some b ↔ ∀ r ∈ o.refs, s.resolve r = s'.resolve r := by
        rw [Output.bind_iff hb]
        refine forall₂_congr fun r hr => ?_
        obtain ⟨c, hc⟩ := Output.resolved hb r hr
        rw [columnRef_eq_some.mpr ⟨c, hc, rfl⟩, columnRef_eq_some, hc]
        simp
      rw [List.forall_mem_cons, ← hhead, ← ih hbs, bindEach_cons]
      simp [eq_comm]

theorem bindEach_of_resolved {outputs : List Output}
    (h : ∀ o ∈ outputs, ∀ r ∈ o.refs, ∃ c, s'.resolve r = some c) : ∃ plan, bindEach s' outputs = some plan := by
  induction outputs with
  | nil => exact ⟨[], rfl⟩
  | cons o rest ih =>
      obtain ⟨hhead, htail⟩ := List.forall_mem_cons.mp h
      obtain ⟨bs, hbs⟩ := ih htail
      have hbind : ∃ b, o.bind (columnRef s') = some b := by
        rcases o with ⟨name, _ | e⟩
        · exact ⟨_, rfl⟩
        · refine Expr.bind_of_refs e fun r hr => ?_
          obtain ⟨c, hc⟩ := hhead r hr
          exact ⟨_, columnRef_eq_some.mpr ⟨c, hc, rfl⟩⟩
      obtain ⟨b, hb⟩ := hbind
      exact ⟨_, bindEach_cons.mpr ⟨b, bs, hb, hbs, rfl⟩⟩

end Bind

def Source.hasColumn (source : Source) (name : String) : Prop :=
  ∃ f ∈ source.fields, asciiLower f.1 = asciiLower name

/-- A reference that is a column's bare name. The wrapper rewrites the name of
its own input, and answers to its own name where the relation has that name. -/
def Plain (source : Source) : Reference → Prop
  | [name] => name ≠ INPUT ∧ source.hasColumn name
  | [qualifier, name] => asciiLower qualifier = asciiLower source.relation.name ∧
      (qualifier = INPUT ∨ asciiLower qualifier = asciiLower PREVIOUS) ∧ source.hasColumn name
  | _ => False

section Plain

variable {source : Source}

theorem find_column {columns : List String} {name c : String}
    (h : columns.find? (fun c => eqIgnoreAsciiCase c name) = some c) :
    c ∈ columns ∧ asciiLower c = asciiLower name := by
  have hname := List.find?_some h
  exact ⟨List.mem_of_find?_eq_some h, eqIgnoreAsciiCase_iff.mp hname⟩

theorem hasColumn_iff {name : String} : source.hasColumn name ↔
    ∃ c, (source.fields.map Prod.fst).find? (fun c => eqIgnoreAsciiCase c name) = some c := by
  rw [← Option.isSome_iff_exists, List.find?_isSome]
  simp [Source.hasColumn, eqIgnoreAsciiCase_iff]

theorem resolve_bare (s : Scope) (name : String) :
    s.resolve [name] = s.columns.find? fun c => eqIgnoreAsciiCase c name := by
  simp [Scope.resolve]

theorem resolve_qualified (s : Scope) (qualifier name : String) :
    s.resolve [qualifier, name] =
      if s.qualifiers.any (fun q => q.map asciiLower = [asciiLower qualifier]) then
        s.columns.find? fun c => eqIgnoreAsciiCase c name
      else none := by
  have hlast : [qualifier, name].getLast? = some name := rfl
  have hdrop : [qualifier, name].dropLast = [qualifier] := rfl
  simp only [Scope.resolve, hlast, hdrop, List.cons_ne_nil, false_or, List.map_cons, List.map_nil]

theorem resolve_deep {names : Reference} (h : 3 ≤ names.length) : source.wrapped.resolve names = none := by
  have hlength : names.dropLast.length = names.length - 1 := List.length_dropLast
  simp only [Scope.resolve]
  split
  · rfl
  · refine if_neg ?_
    rintro (hnil | hany)
    · rw [hnil, List.length_nil] at hlength
      omega
    · obtain ⟨q, hq, hsame⟩ := List.any_eq_true.mp hany
      obtain rfl : q = [PREVIOUS] := by simpa [Source.wrapped] using hq
      have hcount := congrArg List.length (of_decide_eq_true hsame)
      simp only [List.length_map, List.length_singleton, hlength] at hcount
      omega

/-- The plain references are those that name one column over the relation and
over the wrapper that takes its place. -/
theorem plain_iff {r : Reference} : Plain source r ↔
    ∃ c, source.scope.resolve r = some c ∧ source.wrapped.resolve (renameInput r) = some c := by
  match r with
  | [] => simp [Plain, Scope.resolve]
  | [name] =>
      by_cases hname : name = INPUT
      · simp only [Plain, hname, ne_eq, not_true, false_and, false_iff, renameInput, if_true, resolve_bare]
        rintro ⟨c, hc, hc'⟩
        have hlower := (find_column hc).2.symm.trans (find_column hc').2
        exact absurd hlower (by decide)
      · simp only [Plain, hname, ne_eq, not_false_eq_true, true_and, renameInput, if_false, resolve_bare, hasColumn_iff]
        simp [Source.scope, Source.wrapped]
  | [qualifier, name] =>
      have hrename : renameInput [qualifier, name] = [if qualifier = INPUT then PREVIOUS else qualifier, name] := by
        by_cases hq : qualifier = INPUT <;> simp [renameInput, hq]
      have hscope : (source.scope.qualifiers.any fun q => q.map asciiLower = [asciiLower qualifier]) = true ↔
          asciiLower qualifier = asciiLower source.relation.name := by
        simpa [Source.scope] using eq_comm
      have hwrapped : (source.wrapped.qualifiers.any fun q =>
          q.map asciiLower = [asciiLower (if qualifier = INPUT then PREVIOUS else qualifier)]) = true ↔
          (qualifier = INPUT ∨ asciiLower qualifier = asciiLower PREVIOUS) := by
        by_cases hq : qualifier = INPUT
        · rw [if_pos hq]
          exact ⟨fun _ => .inl hq, fun _ => by simp [Source.wrapped]⟩
        · simp only [Source.wrapped, hq, if_false, false_or, List.any_cons, List.any_nil, Bool.or_false]
          simpa using eq_comm
      rw [hrename, resolve_qualified, resolve_qualified]
      simp only [hscope, hwrapped, Plain, hasColumn_iff, Option.ite_none_right_eq_some]
      constructor
      · rintro ⟨hsame, hinput, c, hc⟩
        exact ⟨c, ⟨hsame, hc⟩, hinput, hc⟩
      · rintro ⟨c, ⟨hsame, hc⟩, hinput, -⟩
        exact ⟨hsame, hinput, c, hc⟩
  | a :: b :: c :: names =>
      have hdeep : source.wrapped.resolve (renameInput (a :: b :: c :: names)) = none := by
        apply resolve_deep
        simp only [renameInput]
        split <;> simp
      simp [Plain, hdeep]

end Plain

end Wordflow.Mutations
