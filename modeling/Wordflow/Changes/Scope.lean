import Wordflow.Changes
import Wordflow.Library.Closure
import Wordflow.Publications.Live

namespace Wordflow.Changes

open Library Library.Closure Library.Identifier Objects Publications

/-- A node of a dependency graph, as far as a commit asks about it. -/
structure DependencyNode where
  object : Relation
  diagnostic : Option Error
  uncertain : Bool

structure DependencyEdge where
  source : Relation
  target : Relation

structure DependencyGraph where
  nodes : List DependencyNode
  edges : List DependencyEdge

namespace DependencyGraph

/-- The nodes that every change may affect. -/
def flagged (graph : DependencyGraph) : List Relation :=
  (graph.nodes.filter fun node => node.diagnostic.isSome || node.uncertain).map DependencyNode.object

def arrows (graph : DependencyGraph) : List (Relation × Relation) := graph.edges.map fun edge => (edge.source, edge.target)

end DependencyGraph

structure PendingChange where
  scope : ChangeScope
  before : Option DependencyGraph

namespace PendingChange

/-- `graph` is what the inspection of the dependencies gives before the change. -/
def new (graph : Except Error DependencyGraph) (scope : ChangeScope) : PendingChange :=
  if !scope.all && !scope.objects.isEmpty then
    match graph with
    | .ok graph => ⟨scope, some graph⟩
    | .error _ => ⟨{ scope with all := true }, none⟩
  else ⟨scope, none⟩

/-- The scope of the change, and `none` where the search is not over in the given rounds. -/
def finish (change : PendingChange) (graph : Except Error DependencyGraph) (rounds : Nat) : Option ChangeScope :=
  if !change.scope.all && !change.scope.objects.isEmpty then
    match graph with
    | .ok after =>
        let graphs := change.before.toList ++ [after]
        let objects := (graphs.flatMap DependencyGraph.flagged).foldl (add Relation.same) change.scope.objects
        (close Relation.same (graphs.flatMap DependencyGraph.arrows) rounds objects).map fun objects =>
          { change.scope with objects := objects }
    | .error _ => some { change.scope with all := true }
  else some change.scope

end PendingChange

/-- The publications that `refresh_publications` does not pass over. -/
def refreshed (publications : List Publication) (scope : ChangeScope) : List Publication :=
  publications.filter fun p => scope.all || scope.objects.contains ⟨"data", p.nodeName⟩

def publicationTarget (p : Publication) : Relation := ⟨"data", p.nodeName⟩

section Specification

variable (before after : DependencyGraph) (seeds : List Relation)

/-- What a change affects: its seeds, the nodes that any change may affect, and
what depends on these in either graph, in any letter case. -/
structure Affects (S : Set Relation) : Prop where
  seeds : ∀ object ∈ seeds, object ∈ S
  nodes : ∀ node ∈ before.nodes ++ after.nodes, node.diagnostic.isSome ∨ node.uncertain = true → node.object ∈ S
  edges : ∀ edge ∈ before.edges ++ after.edges, edge.source ∈ S → edge.target ∈ S
  same : ∀ a b : Relation, a.same b = true → a ∈ S → b ∈ S

def Affected (object : Relation) : Prop := ∀ S, Affects before after seeds S → object ∈ S

/-- The objects of the scope are the least set that the change affects, each of
them once, and every publication among them is refreshed. -/
structure Invalidates (publications : List Publication) (scope : ChangeScope) : Prop where
  least : IsLeast {S | Affects before after seeds S} {object | ∃ o ∈ scope.objects, o.same object = true}
  once : scope.objects.Pairwise fun a b => a.same b = false
  refreshes : ∀ p ∈ publications, (∃ o ∈ scope.objects, o.same (publicationTarget p) = true) → p ∈ refreshed publications scope

def starts : List Relation := seeds ++ (before.flagged ++ after.flagged)

def arrows : List (Relation × Relation) := before.arrows ++ after.arrows

/-- The first of the seeds and flagged nodes that names the publication spells
it as it is registered, or else the first dependency that reaches it does. -/
def Spelled (target : Relation) : Prop :=
  (starts before after seeds).find? (fun o => o.same target) = some target ∨
    FirstVisited Relation.same (arrows before after) (starts before after seeds) target

/-- The condition on the graphs, the seeds and the publications. -/
structure Faithful (publications : List Publication) : Prop where
  distinct : seeds.Pairwise fun a b => a.same b = false
  seeded : seeds = [] → before.flagged = [] ∧ after.flagged = []
  spelled : ∀ p ∈ publications, Affected before after seeds (publicationTarget p) → Spelled before after seeds (publicationTarget p)

end Specification

section Finish

variable {before after : DependencyGraph} {seeds : List Relation} {publications : List Publication} {S : Set Relation}
  {resources : List Resource} {analysisIds : List String}

theorem same_equivalence : Equivalence fun a b => Relation.same a b = true where
  refl := Relation.same_refl
  symm h := by rwa [Relation.same_comm]
  trans hab hbc := by
    rw [Relation.same_iff] at *
    exact ⟨hab.1.trans hbc.1, hab.2.trans hbc.2⟩

theorem mem_flagged {graph : DependencyGraph} {object : Relation} :
    object ∈ graph.flagged ↔ ∃ node ∈ graph.nodes, (node.diagnostic.isSome ∨ node.uncertain = true) ∧ node.object = object := by
  simp [DependencyGraph.flagged, and_assoc]

/-- The affected sets are those that are closed from the objects the search starts with. -/
theorem affects_iff : Affects before after seeds S ↔
    Closed Relation.same (arrows before after) ((before.flagged ++ after.flagged).foldl (add Relation.same) seeds) S := by
  have hcovers := fun r => covers_foldl_add (r := r) same_equivalence seeds (before.flagged ++ after.flagged)
  constructor
  · intro h
    refine ⟨fun o ho => ?_, fun e he hsource => ?_, h.same⟩
    · obtain ⟨a, ha, hao⟩ := (hcovers o).mp ⟨o, ho, Relation.same_refl o⟩
      refine h.same a o hao ?_
      rcases List.mem_append.mp ha with ha | ha
      · exact h.seeds a ha
      · rcases List.mem_append.mp ha with ha | ha
        · obtain ⟨node, hnode, hflag, rfl⟩ := mem_flagged.mp ha
          exact h.nodes node (List.mem_append_left _ hnode) hflag
        · obtain ⟨node, hnode, hflag, rfl⟩ := mem_flagged.mp ha
          exact h.nodes node (List.mem_append_right _ hnode) hflag
    · rw [arrows, List.mem_append] at he
      rcases he with he | he
      · obtain ⟨edge, hedge, rfl⟩ := List.mem_map.mp he
        exact h.edges edge (List.mem_append_left _ hedge) hsource
      · obtain ⟨edge, hedge, rfl⟩ := List.mem_map.mp he
        exact h.edges edge (List.mem_append_right _ hedge) hsource
  · intro h
    have hstart : ∀ o ∈ starts before after seeds, o ∈ S := by
      intro o ho
      obtain ⟨a, ha, hao⟩ := (hcovers o).mpr ⟨o, ho, Relation.same_refl o⟩
      exact h.same a o hao (h.start a ha)
    refine ⟨fun o ho => hstart o (List.mem_append_left _ ho), fun node hnode hflag => ?_, fun edge hedge hsource => ?_,
      h.same⟩
    · apply hstart
      rcases List.mem_append.mp hnode with hnode | hnode
      · exact List.mem_append_right _ (List.mem_append_left _ (mem_flagged.mpr ⟨node, hnode, hflag, rfl⟩))
      · exact List.mem_append_right _ (List.mem_append_right _ (mem_flagged.mpr ⟨node, hnode, hflag, rfl⟩))
    · refine h.edges (edge.source, edge.target) ?_ hsource
      rw [arrows, List.mem_append]
      exact (List.mem_append.mp hedge).imp (List.mem_map_of_mem) (List.mem_map_of_mem)

theorem finish_search (hseeds : seeds ≠ []) (rounds : Nat) :
    (PendingChange.new (.ok before) ⟨false, seeds, resources, analysisIds⟩).finish (.ok after) rounds =
      (close Relation.same (arrows before after) rounds
        ((before.flagged ++ after.flagged).foldl (add Relation.same) seeds)).map fun objects =>
          ⟨false, objects, resources, analysisIds⟩ := by
  cases seeds with
  | nil => exact absurd rfl hseeds
  | cons seed seeds =>
      simp only [PendingChange.new, PendingChange.finish, List.isEmpty_cons, Bool.not_false, Bool.and_self, if_true,
        Option.toList_some, List.singleton_append, List.flatMap_cons, List.flatMap_nil, List.append_nil]
      rfl

theorem finish_empty (rounds : Nat) :
    (PendingChange.new (.ok before) ⟨false, [], resources, analysisIds⟩).finish (.ok after) rounds =
      some ⟨false, [], resources, analysisIds⟩ := rfl

/-- Without seeds nothing is searched, which is right where no node is flagged. -/
theorem invalidates_empty : Invalidates before after [] publications ⟨false, [], resources, analysisIds⟩ ↔
    Faithful before after [] publications := by
  have hnone : {object : Relation | ∃ o ∈ ([] : List Relation), o.same object = true} = ∅ := by
    ext object
    simp
  constructor
  · intro h
    have hempty := h.least.1
    rw [hnone] at hempty
    refine ⟨.nil, fun _ => ⟨?_, ?_⟩, fun p _ hp => absurd (hp _ hempty) (Set.notMem_empty _)⟩
    · apply List.eq_nil_iff_forall_not_mem.mpr
      intro object hobject
      obtain ⟨node, hnode, hflag, -⟩ := mem_flagged.mp hobject
      exact hempty.nodes node (List.mem_append_left _ hnode) hflag
    · apply List.eq_nil_iff_forall_not_mem.mpr
      intro object hobject
      obtain ⟨node, hnode, hflag, -⟩ := mem_flagged.mp hobject
      exact hempty.nodes node (List.mem_append_right _ hnode) hflag
  · intro h
    obtain ⟨hbefore, hafter⟩ := h.seeded rfl
    refine ⟨?_, .nil, fun p _ ⟨o, ho, _⟩ => nomatch ho⟩
    rw [hnone]
    refine ⟨⟨nofun, fun node hnode hflag => ?_, nofun, nofun⟩, fun S _ => Set.empty_subset S⟩
    have hmem : node.object ∈ before.flagged ++ after.flagged := by
      rw [List.mem_append]
      exact (List.mem_append.mp hnode).imp (fun hn => mem_flagged.mpr ⟨node, hn, hflag, rfl⟩)
        fun hn => mem_flagged.mpr ⟨node, hn, hflag, rfl⟩
    rw [hbefore, hafter] at hmem
    cases hmem

/-- The search ends, and finds what the change affects; the publications in it
are those that are spelled as they are registered. -/
theorem invalidates_search (hseeds : seeds ≠ []) {objects : List Relation} {rounds : Nat}
    (h : close Relation.same (arrows before after) rounds
      ((before.flagged ++ after.flagged).foldl (add Relation.same) seeds) = some objects) :
    Invalidates before after seeds publications ⟨false, objects, resources, analysisIds⟩ ↔
      Faithful before after seeds publications := by
  obtain ⟨hleast, hprefix, hpairwise, hmem⟩ := close_spec same_equivalence h
  have hleast' : IsLeast {S | Affects before after seeds S} {object | ∃ o ∈ objects, o.same object = true} := by
    simp only [affects_iff]
    exact hleast
  have haffected : ∀ target, (∃ o ∈ objects, o.same target = true) ↔ Affected before after seeds target :=
    fun target => ⟨fun ht S hS => hleast'.2 hS ht, fun ht => ht _ hleast'.1⟩
  have hstart : seeds <+: objects := (prefix_foldl_add seeds _).trans hprefix
  have hspelled : seeds.Pairwise (fun a b => a.same b = false) → ∀ target : Relation,
      target ∈ objects ↔ Spelled before after seeds target := by
    intro hdistinct target
    rw [hmem, mem_foldl_add same_equivalence _ hdistinct,
      firstVisited_congr fun r => covers_foldl_add same_equivalence seeds (before.flagged ++ after.flagged)]
    rfl
  have hrefreshed : ∀ p : Publication, p ∈ publications →
      (p ∈ refreshed publications ⟨false, objects, resources, analysisIds⟩ ↔ publicationTarget p ∈ objects) := by
    intro p hp
    rw [refreshed, List.mem_filter, and_iff_right hp, Bool.false_or, List.contains_iff_mem]
    rfl
  constructor
  · intro h
    have hdistinct : seeds.Pairwise fun a b => a.same b = false := h.once.sublist hstart.sublist
    refine ⟨hdistinct, fun hnil => absurd hnil hseeds, fun p hp ht => ?_⟩
    exact (hspelled hdistinct _).mp ((hrefreshed p hp).mp (h.refreshes p hp ((haffected _).mpr ht)))
  · intro h
    refine ⟨hleast', hpairwise (pairwise_foldl_add _ h.distinct), fun p hp ht => ?_⟩
    exact (hrefreshed p hp).mpr ((hspelled h.distinct _).mpr (h.spelled p hp ((haffected _).mp ht)))

end Finish

/-- A View that was made again under another spelling, and the publication it is. -/
def respelled : DependencyGraph where
  nodes := []
  edges := [⟨⟨"data", "docs"⟩, ⟨"data", "report"⟩⟩, ⟨⟨"data", "docs"⟩, ⟨"data", "Report"⟩⟩]

def report : Publication := ⟨"Report", ⟨⟨⟨none, "docs"⟩, "text"⟩, []⟩⟩

end Wordflow.Changes
