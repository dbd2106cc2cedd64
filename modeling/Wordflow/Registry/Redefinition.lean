import Wordflow.Library.Worklist
import Wordflow.Objects

namespace Wordflow.Registry

open Library Library.Fallible Objects Relation

/-- A View with its query after the rename, and the relations that the query reads before it. -/
structure Rewrite where
  relation : Objects.Relation
  sql : String
  refs : List Objects.Relation
  deriving DecidableEq

/-- A query of one View names the other. -/
def Rewrite.reads (view candidate : Rewrite) : Bool := view.refs.any fun r => r.same candidate.relation

def cyclicViews : Error := .invalid "Cyclic dependent views cannot be renamed"

/-- What a rename asks of the database in its transaction. -/
structure Statements (σ : Type) where
  /-- The Views of the catalogue. -/
  views : σ → Except Error (List Rewrite)
  alter : σ → Except Error σ
  redefine : σ → Objects.Relation → String → Except Error σ
  /-- The check of the interfaces, the metadata and the commit. -/
  finish : σ → Except Error σ

section Code

variable {σ : Type} (st : Statements σ)

/-- The loop over the Views that read the renamed source. A View is taken in every round but the last one. -/
def rewriteViews (rewrites : List Rewrite) (tx : σ) : Option (Except Error σ) :=
  Worklist.serve Rewrite.reads (fun tx view => st.redefine tx view.relation view.sql) cyclicViews (rewrites.length + 1) rewrites tx

def affected (source : Objects.Relation) (views : List Rewrite) : List Rewrite :=
  views.filter fun view => view.refs.any fun r => r.same source

/-- The outcome of a rename, and what is committed. -/
def renameRelation (source : Objects.Relation) (db : σ) : Option (Except Error Unit × σ) :=
  match st.views db with
  | .error e => some (.error e, db)
  | .ok views =>
      match st.alter db with
      | .error e => some (.error e, db)
      | .ok tx =>
          (rewriteViews st (affected source views) tx).map fun
            | .error e => (.error e, db)
            | .ok tx =>
                match st.finish tx with
                | .error e => (.error e, db)
                | .ok tx => (.ok (), tx)

end Code

/-- Some of the Views read each other in a circle. -/
def Cyclic (views : List Rewrite) : Prop :=
  ∃ v, TransGen (fun v w => v ∈ views ∧ w ∈ views ∧ v.reads w = true) v v

variable {σ : Type} {st : Statements σ} {rewrites order : List Rewrite} {tx t : σ}

/-- Every View of a list is defined again, in turn. -/
def redefineAll (st : Statements σ) (order : List Rewrite) (tx : σ) : Except Error σ :=
  order.foldlM (fun tx view => st.redefine tx view.relation view.sql) tx

theorem cyclic_iff : Cyclic rewrites ↔ ¬Worklist.Unblocked Rewrite.reads rewrites := by
  rw [Cyclic, Worklist.Unblocked, not_forall]
  simp only [not_not]

/-- A View comes after all that it reads. -/
theorem read_before (h : Worklist.Serves Rewrite.reads order rewrites) {i j : Nat} (hi : i < order.length) (hj : j < order.length)
    (hreads : order[i].reads order[j] = true) : j < i := by
  rcases Nat.lt_trichotomy i j with hlt | rfl | hgt
  · have hnot := List.pairwise_iff_getElem.mp h.later i j hi hj hlt
    rw [hreads] at hnot
    cases hnot
  · have hnot := h.self _ (List.getElem_mem hi)
    rw [hreads] at hnot
    cases hnot
  · exact hgt

theorem rewriteViews_terminates (st : Statements σ) (rewrites : List Rewrite) (tx : σ) :
    ∃ outcome, rewriteViews st rewrites tx = some outcome :=
  Worklist.serve_terminates (Nat.lt_succ_self _)

end Wordflow.Registry
