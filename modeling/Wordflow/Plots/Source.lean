import Mathlib.Data.List.Nodup
import Wordflow.Library.Text
import Wordflow.Library.Fallible
import Wordflow.Renames

namespace Wordflow.Plots

open Library Library.Fallible Library.Identifier Objects Renames

variable {V : Type}

abbrev Layer := String × String

/-- The relation a plot reads. A view is a stack of rename layers, each a
column with its new name, over the columns of a query; a table has none. -/
structure Source (V : Type) where
  relation : Relation
  view : Bool
  base : List (String × String)
  layers : List Layer
  rows : List (List V)
  deriving DecidableEq

def renameColumn (before after : String) (columns : List (String × String)) : List (String × String) :=
  columns.map fun c => if c.1 = before then (after, c.2) else c

def layered (base : List (String × String)) (layers : List Layer) : List (String × String) :=
  layers.foldr (fun layer columns => renameColumn layer.1 layer.2 columns) base

def Source.columns (s : Source V) : List (String × String) := layered s.base s.layers

/-- The change a rename of a source made, with what `reconcile` is told. -/
structure Renamed (V : Type) where
  source : Source V
  rename : Option Rename

/-- `change_column` with a rename. -/
def changeColumn (s : Source V) (column name : String) : Except Error (Renamed V) :=
  match s.columns.find? fun c => eqIgnoreAsciiCase c.1 column with
  | none => .error (.invalid ("Column is unavailable: " ++ column))
  | some c =>
      let name := Text.trim name
      if name = "" then .error (.invalid "Column name cannot be empty")
      else if s.columns.any fun f => f.1 ≠ c.1 && eqIgnoreAsciiCase f.1 name then
        .error (.invalid "A column with this name already exists")
      else
        .ok ⟨if s.view then { s with layers := (c.1, name) :: s.layers }
          else { s with base := renameColumn c.1 name s.base }, some (.column s.relation c.1 name)⟩

/-- The rename a definition makes that wraps another in one layer. -/
def wrapper (wrapped inner : List Layer) : Option Layer :=
  match wrapped with
  | [] => none
  | layer :: rest => if rest = inner ∧ layer.1 ≠ layer.2 then some layer else none

def viewRename (source : Relation) (old new : List Layer) : Option Rename :=
  match wrapper old new with
  | some (before, after) => some (.column source after before)
  | none => (wrapper new old).map fun layer => .column source layer.1 layer.2

def redefine (s : Source V) (definition : List Layer) : Renamed V :=
  ⟨{ s with layers := definition }, viewRename s.relation s.layers definition⟩

/-- Take the last rename layer of a view off. -/
def undo (s : Source V) : Option (Renamed V) :=
  match s.view, s.layers with
  | true, _ :: rest => some (redefine s rest)
  | _, _ => none

/-- Put a rename layer back that the view has had on its present definition. -/
def redo (s : Source V) (history : List (List Layer)) (layer : Layer) : Option (Renamed V) :=
  if s.view = true ∧ layer :: s.layers ∈ history then some (redefine s (layer :: s.layers)) else none

def renameNode (s : Source V) (name : String) : Except Error (Renamed V) :=
  let name := Text.trim name
  if name = "" then .error (.invalid "Table name cannot be empty")
  else if s.relation.name = name then .ok ⟨s, none⟩
  else .ok ⟨{ s with relation := ⟨s.relation.schema, name⟩ }, some (.table s.relation name)⟩

/-- No two names are equal up to case. -/
def Distinct (names : List String) : Prop := (names.map asciiLower).Nodup

structure Admissible (names : List String) (before after : String) : Prop where
  mem : before ∈ names
  free : ∀ n ∈ names, n ≠ before → asciiLower n ≠ asciiLower after

def rewrite (before after name : String) : String := if name = before then after else name

/-- Every layer renames a column of the definition below it. -/
def Stacked (base : List (String × String)) : List Layer → Prop
  | [] => Distinct (base.map Prod.fst)
  | layer :: rest => Stacked base rest ∧ Admissible ((layered base rest).map Prod.fst) layer.1 layer.2

structure Source.WellFormed (s : Source V) (history : List (List Layer)) : Prop where
  stacked : Stacked s.base s.layers
  earlier : ∀ definition ∈ history, Stacked s.base definition
  table : s.view = false → s.layers = [] ∧ history = []

/-- What one rename does to a source, as `reconcile` is told. -/
inductive Applies (s : Source V) : Rename → Source V → Prop
  | table (name : String) (t : Source V) (relation : t.relation = ⟨s.relation.schema, name⟩)
      (columns : t.columns = s.columns) : Applies s (.table s.relation name) t
  | column (before after : String) (t : Source V) (relation : t.relation = s.relation)
      (admissible : Admissible (s.columns.map Prod.fst) before after)
      (columns : t.columns.map Prod.fst = (s.columns.map Prod.fst).map (rewrite before after)) :
      Applies s (.column s.relation before after) t

theorem renameColumn_names (before after : String) (columns : List (String × String)) :
    (renameColumn before after columns).map Prod.fst = (columns.map Prod.fst).map (rewrite before after) := by
  simp only [renameColumn, List.map_map]
  apply List.map_congr_left
  intro c _
  by_cases h : c.1 = before <;> simp [rewrite, h]

theorem Distinct.eq {names : List String} {a b : String} (h : Distinct names) (ha : a ∈ names) (hb : b ∈ names)
    (heq : asciiLower a = asciiLower b) : a = b := List.inj_on_of_nodup_map h ha hb heq

theorem Distinct.rewrite {names : List String} {before after : String} (h : Distinct names)
    (ha : Admissible names before after) : Distinct (names.map (rewrite before after)) := by
  refine List.pairwise_map.mpr (List.pairwise_map.mpr (List.Pairwise.imp_of_mem ?_ (List.pairwise_map.mp h)))
  intro a b hma hmb hab
  by_cases h₁ : a = before
  · have h₂ : b ≠ before := fun h₂ => hab (h₁.trans h₂.symm ▸ rfl)
    simpa [Plots.rewrite, h₁, h₂] using (ha.free b hmb h₂).symm
  · by_cases h₂ : b = before
    · simpa [Plots.rewrite, h₁, h₂] using ha.free a hma h₁
    · simpa [Plots.rewrite, h₁, h₂] using hab

theorem Stacked.distinct {base : List (String × String)} {layers : List Layer} (h : Stacked base layers) :
    Distinct ((layered base layers).map Prod.fst) := by
  induction layers with
  | nil => exact h
  | cons layer rest ih =>
      obtain ⟨hrest, hlayer⟩ := h
      rw [layered, List.foldr_cons, ← layered, renameColumn_names]
      exact (ih hrest).rewrite hlayer

theorem Stacked.cons {base : List (String × String)} {layers : List Layer} {before after : String}
    (h : Stacked base layers) (ha : Admissible ((layered base layers).map Prod.fst) before after) :
    Stacked base ((before, after) :: layers) := ⟨h, ha⟩

/-- The inverse of an admissible rename is admissible and takes it back. -/
theorem Admissible.inverse {names : List String} {before after : String} (h : Admissible names before after)
    (hd : Distinct names) : Admissible (names.map (rewrite before after)) after before ∧
      (names.map (rewrite before after)).map (rewrite after before) = names := by
  refine ⟨⟨List.mem_map.mpr ⟨before, h.mem, if_pos rfl⟩, ?_⟩, ?_⟩
  · intro n hn hne heq
    obtain ⟨m, hm, rfl⟩ := List.mem_map.mp hn
    by_cases hmb : m = before
    · simp [rewrite, hmb] at hne
    · rw [rewrite, if_neg hmb] at heq
      exact hmb (hd.eq hm h.mem heq)
  · rw [List.map_map]
    conv_rhs => rw [← List.map_id names]
    apply List.map_congr_left
    intro n hn
    by_cases hnb : n = before
    · simp [rewrite, hnb]
    · have hna : n ≠ after := fun hna => h.free n hn hnb (by rw [hna])
      simp [rewrite, hnb, hna]

/-- The definitions a source has had, after a change of it. -/
def record (s : Source V) (history : List (List Layer)) : List (List Layer) :=
  if s.view then s.layers :: history else history

/-- What any change of a source does: the rename that `reconcile` is told, or
nothing that a request can see. -/
def Follows (s : Source V) (r : Renamed V) : Prop :=
  match r.rename with
  | some rename => Applies s rename r.source
  | none => r.source.relation = s.relation ∧ r.source.columns.map Prod.fst = s.columns.map Prod.fst

theorem Source.WellFormed.distinct {s : Source V} {history : List (List Layer)} (h : s.WellFormed history) :
    Distinct (s.columns.map Prod.fst) := h.stacked.distinct

theorem Source.WellFormed.redefine {s : Source V} {history : List (List Layer)} {definition : List Layer}
    (h : s.WellFormed history) (hview : s.view = true) (hdef : Stacked s.base definition) :
    (redefine s definition).source.WellFormed (record (redefine s definition).source history) := by
  refine ⟨hdef, ?_, fun htable => ?_⟩
  · rw [record, if_pos (show (Plots.redefine s definition).source.view = true from hview)]
    exact List.forall_mem_cons.mpr ⟨hdef, h.earlier⟩
  · rw [show (Plots.redefine s definition).source.view = s.view from rfl, hview] at htable
    cases htable

theorem layered_names (base : List (String × String)) (layer : Layer) (rest : List Layer) :
    (layered base (layer :: rest)).map Prod.fst =
      ((layered base rest).map Prod.fst).map (rewrite layer.1 layer.2) :=
  renameColumn_names layer.1 layer.2 (layered base rest)

theorem changeColumn_spec {s : Source V} {history : List (List Layer)} {column name : String} {r : Renamed V}
    (hs : s.WellFormed history) (h : changeColumn s column name = .ok r) :
    Follows s r ∧ r.source.WellFormed (record r.source history) := by
  simp only [changeColumn] at h
  split at h
  · cases h
  · rename_i c hfind
    obtain ⟨-, h⟩ := guard_eq_ok.mp h
    obtain ⟨hfree, h⟩ := guard_eq_ok.mp h
    have hadmissible : Admissible (s.columns.map Prod.fst) c.1 (Text.trim name) := by
      refine ⟨List.mem_map_of_mem (List.mem_of_find?_eq_some hfind), fun n hn hne heq => hfree ?_⟩
      obtain ⟨f, hf, rfl⟩ := List.mem_map.mp hn
      exact List.any_eq_true.mpr ⟨f, hf, by simp [hne, eqIgnoreAsciiCase_iff, heq]⟩
    cases h
    cases hview : s.view with
    | true =>
        refine ⟨?_, hs.stacked.cons hadmissible, ?_, by simp⟩
        · exact .column _ _ _ (by simp) hadmissible (layered_names s.base (c.1, Text.trim name) s.layers)
        · simp only [record, if_true]
          exact List.forall_mem_cons.mpr ⟨hs.stacked.cons hadmissible, hs.earlier⟩
    | false =>
        obtain ⟨hlayers, hhistory⟩ := hs.table hview
        have hnames := renameColumn_names c.1 (Text.trim name) s.base
        have hcolumns : s.columns = s.base := by simp [Source.columns, hlayers, layered]
        rw [hcolumns] at hadmissible
        refine ⟨?_, ?_, ?_, ?_⟩
        · refine .column _ _ _ (by simp) (hcolumns ▸ hadmissible) ?_
          simpa [Source.columns, hlayers, layered] using hnames
        · have hdistinct := hcolumns ▸ hs.distinct
          simpa [hlayers, Stacked, hnames] using hdistinct.rewrite hadmissible
        · simp [record, hhistory]
        · simp [record, hhistory, hlayers]

theorem wrapper_cons (layer : Layer) (rest : List Layer) :
    wrapper (layer :: rest) rest = if layer.1 ≠ layer.2 then some layer else none := by
  simp [wrapper]

theorem wrapper_longer (layer : Layer) (rest : List Layer) : wrapper rest (layer :: rest) = none := by
  cases rest with
  | nil => rfl
  | cons first tail =>
      refine if_neg fun h => ?_
      have hlength := congrArg List.length h.1
      simp at hlength
      omega

theorem map_rewrite_same (name : String) (names : List String) : names.map (rewrite name name) = names := by
  conv_rhs => rw [← List.map_id names]
  apply List.map_congr_left
  intro n _
  simp [rewrite, eq_comm]

theorem undo_spec {s : Source V} {history : List (List Layer)} {r : Renamed V} (hs : s.WellFormed history)
    (h : undo s = some r) : Follows s r ∧ r.source.WellFormed (record r.source history) := by
  simp only [undo] at h
  split at h
  · rename_i layer rest hview hlayers
    cases h
    have hstacked := hs.stacked
    rw [hlayers] at hstacked
    obtain ⟨hrest, hadmissible⟩ := hstacked
    refine ⟨?_, hs.redefine hview hrest⟩
    have hnames : s.columns.map Prod.fst = ((layered s.base rest).map Prod.fst).map (rewrite layer.1 layer.2) := by
      rw [Source.columns, hlayers, layered_names]
    by_cases hsame : layer.1 = layer.2
    · simp only [Follows, redefine, viewRename, hlayers, wrapper_cons, wrapper_longer, hsame, ne_eq, not_true,
        if_false, Option.map_none]
      refine ⟨trivial, ?_⟩
      rw [hnames, hsame, map_rewrite_same]
      rfl
    · simp only [Follows, redefine, viewRename, hlayers, wrapper_cons, hsame, ne_eq, not_false_iff, if_true]
      obtain ⟨hinverse, hback⟩ := hadmissible.inverse hrest.distinct
      rw [← hnames] at hinverse hback
      exact .column _ _ _ rfl hinverse hback.symm
  · cases h

theorem redo_spec {s : Source V} {history : List (List Layer)} {layer : Layer} {r : Renamed V}
    (hs : s.WellFormed history) (h : redo s history layer = some r) :
    Follows s r ∧ r.source.WellFormed (record r.source history) := by
  simp only [redo, Option.ite_none_right_eq_some, Option.some.injEq] at h
  obtain ⟨⟨hview, hhistory⟩, rfl⟩ := h
  have hstacked := hs.earlier _ hhistory
  refine ⟨?_, hs.redefine hview hstacked⟩
  have hnames := layered_names s.base layer s.layers
  by_cases hsame : layer.1 = layer.2
  · simp only [Follows, redefine, viewRename, wrapper_cons, wrapper_longer, hsame, ne_eq, not_true, if_false,
      Option.map_none]
    refine ⟨trivial, ?_⟩
    rw [hsame, map_rewrite_same] at hnames
    exact hnames
  · simp only [Follows, redefine, viewRename, wrapper_cons, wrapper_longer, hsame, ne_eq, not_false_iff, if_true,
      Option.map_some]
    exact .column _ _ _ rfl hstacked.2 hnames

theorem renameNode_spec {s : Source V} {history : List (List Layer)} {name : String} {r : Renamed V}
    (hs : s.WellFormed history) (h : renameNode s name = .ok r) :
    Follows s r ∧ r.source.WellFormed (record r.source history) := by
  have hkept : ∀ relation, ({ s with relation := relation } : Source V).WellFormed (record s history) := by
    refine fun relation => ⟨hs.stacked, ?_, ?_⟩
    · intro definition hdef
      cases hview : s.view with
      | false => exact hs.earlier definition (by simpa [record, hview] using hdef)
      | true =>
          rw [record, if_pos hview] at hdef
          exact List.forall_mem_cons.mpr ⟨hs.stacked, hs.earlier⟩ definition hdef
    · intro hview
      have hview : s.view = false := hview
      simpa [record, hview] using hs.table hview
  simp only [renameNode] at h
  obtain ⟨-, h⟩ := guard_eq_ok.mp h
  split at h
  · cases h
    exact ⟨⟨rfl, rfl⟩, hkept s.relation⟩
  · cases h
    exact ⟨.table _ _ rfl rfl, hkept _⟩

end Wordflow.Plots
