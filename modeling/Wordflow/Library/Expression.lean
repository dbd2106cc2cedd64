import Mathlib.Data.List.Forall2

namespace Wordflow.Library

/-- Expressions over references `α`: functions, operators and casts are calls
by name, literals calls without arguments. -/
inductive Expr (α : Type)
  | ref (a : α)
  | call (name : String) (args : List (Expr α))

namespace Expr

variable {α β V W : Type}

mutual

def refs : Expr α → List α
  | .ref a => [a]
  | .call _ args => refsAll args

def refsAll : List (Expr α) → List α
  | [] => []
  | e :: es => refs e ++ refsAll es

end

mutual

/-- Put an expression in the place of every reference. -/
def bind (f : α → Option (Expr β)) : Expr α → Option (Expr β)
  | .ref a => f a
  | .call name args => (bindAll f args).map (.call name)

def bindAll (f : α → Option (Expr β)) : List (Expr α) → Option (List (Expr β))
  | [] => some []
  | e :: es =>
      match bind f e, bindAll f es with
      | some b, some bs => some (b :: bs)
      | _, _ => none

end

mutual

/-- The value of an expression under given values of its references and a
meaning of its calls. -/
def eval (apply : String → List V → Option V) (f : α → Option V) : Expr α → Option V
  | .ref a => f a
  | .call name args => (evalAll apply f args).bind (apply name)

def evalAll (apply : String → List V → Option V) (f : α → Option V) : List (Expr α) → Option (List V)
  | [] => some []
  | e :: es =>
      match eval apply f e, evalAll apply f es with
      | some v, some vs => some (v :: vs)
      | _, _ => none

end

section Bind

variable {f g : α → Option (Expr β)}

mutual

/-- Two ways of binding make the same of an expression exactly when they make
the same of its references. -/
theorem bind_eq_iff : ∀ (e : Expr α) (b : Expr β), e.bind f = some b →
    (e.bind g = some b ↔ ∀ a ∈ e.refs, g a = f a)
  | .ref a, b, h => by
      simp only [bind] at h
      simp [bind, refs, h]
  | .call name args, b, h => by
      simp only [bind] at h
      obtain ⟨bs, hbs, rfl⟩ := Option.map_eq_some_iff.mp h
      have hall := bindAll_eq_iff args bs hbs
      simp only [bind, refs, Option.map_eq_some_iff, Expr.call.injEq, true_and, exists_eq_right]
      exact hall

theorem bindAll_eq_iff : ∀ (es : List (Expr α)) (bs : List (Expr β)), bindAll f es = some bs →
    (bindAll g es = some bs ↔ ∀ a ∈ refsAll es, g a = f a)
  | [], bs, h => by
      cases h
      simp [bindAll, refsAll]
  | e :: es, bs, h => by
      simp only [bindAll] at h
      split at h
      · rename_i b bs' hb hbs
        cases h
        have hhead := bind_eq_iff e b hb
        have htail := bindAll_eq_iff es bs' hbs
        simp only [refsAll, List.forall_mem_append, ← hhead, ← htail, bindAll]
        cases bind g e <;> cases bindAll g es <;> simp
      · cases h

end

mutual

/-- A bound expression has bound every reference. -/
theorem bind_refs : ∀ (e : Expr α) (b : Expr β), e.bind f = some b → ∀ a ∈ e.refs, ∃ c, f a = some c
  | .ref a, b, h => by
      intro a' ha
      obtain rfl := List.mem_singleton.mp ha
      exact ⟨b, h⟩
  | .call name args, b, h => by
      obtain ⟨bs, hbs, -⟩ := Option.map_eq_some_iff.mp h
      exact bindAll_refs args bs hbs

theorem bindAll_refs : ∀ (es : List (Expr α)) (bs : List (Expr β)), bindAll f es = some bs →
    ∀ a ∈ refsAll es, ∃ c, f a = some c
  | [], bs, h => by simp [refsAll]
  | e :: es, bs, h => by
      simp only [bindAll] at h
      split at h
      · rename_i b bs' hb hbs
        exact List.forall_mem_append.mpr ⟨bind_refs e b hb, bindAll_refs es bs' hbs⟩
      · cases h

end

mutual

theorem bind_of_refs : ∀ e : Expr α, (∀ a ∈ e.refs, ∃ c, f a = some c) → ∃ b, e.bind f = some b
  | .ref a, h => h a (List.mem_singleton_self a)
  | .call name args, h => by
      obtain ⟨bs, hbs⟩ := bindAll_of_refs args h
      exact ⟨.call name bs, by simp [bind, hbs]⟩

theorem bindAll_of_refs : ∀ es : List (Expr α), (∀ a ∈ refsAll es, ∃ c, f a = some c) → ∃ bs, bindAll f es = some bs
  | [], _ => ⟨[], rfl⟩
  | e :: es, h => by
      obtain ⟨hhead, htail⟩ := List.forall_mem_append.mp h
      obtain ⟨b, hb⟩ := bind_of_refs e hhead
      obtain ⟨bs, hbs⟩ := bindAll_of_refs es htail
      exact ⟨b :: bs, by simp [bindAll, hb, hbs]⟩

end

mutual

/-- What a bound expression refers to comes from its references. -/
theorem refs_of_bind : ∀ (e : Expr α) (b : Expr β), e.bind f = some b →
    ∀ l ∈ b.refs, ∃ a ∈ e.refs, ∃ c, f a = some c ∧ l ∈ c.refs
  | .ref a, b, h => fun l hl => ⟨a, List.mem_singleton_self a, b, h, hl⟩
  | .call name args, b, h => by
      obtain ⟨bs, hbs, rfl⟩ := Option.map_eq_some_iff.mp h
      exact refsAll_of_bind args bs hbs

theorem refsAll_of_bind : ∀ (es : List (Expr α)) (bs : List (Expr β)), bindAll f es = some bs →
    ∀ l ∈ refsAll bs, ∃ a ∈ refsAll es, ∃ c, f a = some c ∧ l ∈ c.refs
  | [], bs, h => by
      cases h
      simp [refsAll]
  | e :: es, bs, h => by
      simp only [bindAll] at h
      split at h
      · rename_i b bs' hb hbs
        cases h
        intro l hl
        rcases List.mem_append.mp hl with hl | hl
        · obtain ⟨a, ha, c, hc⟩ := refs_of_bind e b hb l hl
          exact ⟨a, List.mem_append_left _ ha, c, hc⟩
        · obtain ⟨a, ha, c, hc⟩ := refsAll_of_bind es bs' hbs l hl
          exact ⟨a, List.mem_append_right _ ha, c, hc⟩
      · cases h

end

end Bind

section Eval

variable {apply : String → List V → Option V}

mutual

theorem eval_congr {f g : α → Option V} : ∀ e : Expr α, (∀ a ∈ e.refs, f a = g a) → e.eval apply f = e.eval apply g
  | .ref a, h => h a (List.mem_singleton_self a)
  | .call name args, h => by simp only [eval, evalAll_congr args h]

theorem evalAll_congr {f g : α → Option V} : ∀ es : List (Expr α), (∀ a ∈ refsAll es, f a = g a) →
    evalAll apply f es = evalAll apply g es
  | [], _ => rfl
  | e :: es, h => by
      obtain ⟨hhead, htail⟩ := List.forall_mem_append.mp h
      simp only [evalAll, eval_congr e hhead, evalAll_congr es htail]

end

mutual

/-- A relation between two meanings of the calls that holds of the references
holds of the values of an expression: typing is sound. -/
theorem eval_relates {types : String → List W → Option W} {R : W → V → Prop}
    (happly : ∀ {name ts vs t v}, List.Forall₂ R ts vs → types name ts = some t → apply name vs = some v → R t v)
    {f : α → Option W} {g : α → Option V} : ∀ e : Expr α,
      (∀ a ∈ e.refs, ∀ t v, f a = some t → g a = some v → R t v) →
        ∀ t v, e.eval types f = some t → e.eval apply g = some v → R t v
  | .ref a, h => h a (List.mem_singleton_self a)
  | .call name args, h => by
      intro t v ht hv
      obtain ⟨ts, hts, ht⟩ := Option.bind_eq_some_iff.mp ht
      obtain ⟨vs, hvs, hv⟩ := Option.bind_eq_some_iff.mp hv
      exact happly (evalAll_relates happly args h ts vs hts hvs) ht hv

theorem evalAll_relates {types : String → List W → Option W} {R : W → V → Prop}
    (happly : ∀ {name ts vs t v}, List.Forall₂ R ts vs → types name ts = some t → apply name vs = some v → R t v)
    {f : α → Option W} {g : α → Option V} : ∀ es : List (Expr α),
      (∀ a ∈ refsAll es, ∀ t v, f a = some t → g a = some v → R t v) →
        ∀ ts vs, evalAll types f es = some ts → evalAll apply g es = some vs → List.Forall₂ R ts vs
  | [], _ => by
      intro ts vs hts hvs
      cases hts
      cases hvs
      exact .nil
  | e :: es, h => by
      intro ts vs hts hvs
      obtain ⟨hhead, htail⟩ := List.forall_mem_append.mp h
      simp only [evalAll] at hts hvs
      split at hts
      · rename_i t ts' ht hts'
        cases hts
        split at hvs
        · rename_i v vs' hv hvs'
          cases hvs
          exact .cons (eval_relates happly e hhead t v ht hv) (evalAll_relates happly es htail ts' vs' hts' hvs')
        · cases hvs
      · cases hts

end

end Eval

end Expr

end Wordflow.Library
