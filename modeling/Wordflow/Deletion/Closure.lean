import Mathlib.Data.List.Pairwise
import Wordflow.Deletion.Objects

namespace Wordflow.Deletion

open Library Library.Fallible Library.Identifier Objects
open Registry.Database (sql)

section Plan

variable {graph : DependencyGraph} {targets : List ObjectTarget} {selected ordered : List Relation} {rounds : Nat}

def Selected (graph : DependencyGraph) (targets : List ObjectTarget) (object : Relation) : Prop :=
  ∃ target ∈ targets, select graph target = .ok object

/-- One selected object depends on another. -/
def SelectedEdge (graph : DependencyGraph) (targets : List ObjectTarget) (a b : Relation) : Prop :=
  Selected graph targets a ∧ Selected graph targets b ∧ ⟨a, b⟩ ∈ graph.edges

/-- The selection resolves, no dependent is left out, no other View is uncertain, and there is no circle. -/
structure Deletable (graph : DependencyGraph) (targets : List ObjectTarget) : Prop where
  resolves : ∀ target ∈ targets, ∃ object, select graph target = .ok object
  closed : ∀ edge ∈ graph.edges, Selected graph targets edge.source → Selected graph targets edge.target
  certain : ∀ node ∈ graph.nodes, ¬Selected graph targets node.object → node.uncertain = false
  acyclic : ∀ object, ¬Relation.TransGen (SelectedEdge graph targets) object object

/-- The order has each selected object once, and each dependent before what it depends on. -/
structure Ordered (graph : DependencyGraph) (targets : List ObjectTarget) (ordered : List Relation) : Prop where
  once : ordered.Nodup
  members : ∀ object, object ∈ ordered ↔ Selected graph targets object
  dependentsFirst : ordered.Pairwise fun a b => ⟨a, b⟩ ∉ graph.edges

theorem mem_dependents {a b : Relation} : b ∈ dependents graph a ↔ ⟨a, b⟩ ∈ graph.edges := by
  rw [dependents, List.mem_map]
  constructor
  · rintro ⟨⟨source, target⟩, hfilter, rfl⟩
    obtain ⟨hedge, hsource⟩ := List.mem_filter.mp hfilter
    exact of_decide_eq_true hsource ▸ hedge
  · exact fun hedge => ⟨⟨a, b⟩, List.mem_filter.mpr ⟨hedge, decide_eq_true rfl⟩, rfl⟩

theorem mem_selected (h : targets.mapM (select graph) = .ok selected) {object : Relation} :
    object ∈ selected ↔ Selected graph targets object := by
  have hall := mapM_eq_ok.mp h
  constructor
  · intro hobject
    exact forall₂_mem_right hall hobject
  · rintro ⟨target, htarget, hselect⟩
    obtain ⟨object', hobject', hselect'⟩ := forall₂_mem_left hall htarget
    exact Except.ok.inj (hselect.symm.trans hselect') ▸ hobject'

theorem mapM_select (h : ∀ target ∈ targets, ∃ object, select graph target = .ok object) :
    ∃ selected, targets.mapM (select graph) = .ok selected := by
  induction targets with
  | nil => exact ⟨[], rfl⟩
  | cons target targets ih =>
      obtain ⟨⟨object, hobject⟩, htargets⟩ := List.forall_mem_cons.mp h
      obtain ⟨selected, hselected⟩ := ih htargets
      refine ⟨object :: selected, mapM_eq_ok.mpr ?_⟩
      exact .cons hobject (mapM_eq_ok.mp hselected)

theorem length_selected (h : targets.mapM (select graph) = .ok selected) : selected.dedup.length ≤ targets.length := by
  rw [(mapM_eq_ok.mp h).length_eq]
  exact (List.dedup_sublist selected).length_le

theorem acyclic_iff (h : targets.mapM (select graph) = .ok selected) :
    Worklist.Acyclic id (dependents graph) selected.dedup ↔ ∀ object, ¬Relation.TransGen (SelectedEdge graph targets) object object := by
  have hsame : Worklist.Dep id (dependents graph) selected.dedup = SelectedEdge graph targets := by
    funext a b
    rw [Worklist.Dep, SelectedEdge, List.mem_dedup, List.mem_dedup, mem_selected h, mem_selected h, id, mem_dependents]
  rw [Worklist.Acyclic, hsame]

theorem perm_leaves (leaves : List Relation) : (leaves.insertionSort fun a b => sql a ≤ sql b).Perm leaves :=
  List.perm_insertionSort _ _

theorem plan_terminates (hrounds : targets.length < rounds) : ∃ r, plan graph targets rounds = some r := by
  rw [plan]
  split
  · exact ⟨_, rfl⟩
  · cases hselected : targets.mapM (select graph) with
    | error e => exact ⟨_, rfl⟩
    | ok selected =>
        simp only
        split
        · exact ⟨_, rfl⟩
        · split
          · exact ⟨_, rfl⟩
          · exact Worklist.peel_terminates (Nat.lt_of_le_of_lt (length_selected hselected) hrounds)

theorem plan_ok_iff : plan graph targets rounds = some (.ok ordered) ↔ targets ≠ [] ∧ ∃ selected,
    targets.mapM (select graph) = .ok selected ∧ (∀ edge ∈ graph.edges, edge.source ∈ selected → edge.target ∈ selected) ∧
      (∀ node ∈ graph.nodes, node.object ∉ selected → node.uncertain = false) ∧
        deletionOrder graph selected.dedup rounds = some (.ok ordered) := by
  rw [plan]
  cases targets with
  | nil => simp
  | cons target targets =>
      rw [if_neg (by simp), and_iff_right (List.cons_ne_nil _ _)]
      cases hselected : (target :: targets).mapM (select graph) with
      | error e => simp
      | ok selected =>
          simp only [Except.ok.injEq, exists_eq_left']
          cases hleaving : graph.edges.find? fun edge => edge.source ∈ selected && edge.target ∉ selected with
          | some edge =>
              have hpass := List.find?_some hleaving
              simp only [Bool.and_eq_true, decide_eq_true_eq] at hpass
              constructor
              · intro h
                cases h
              · rintro ⟨hclosed, -⟩
                exact absurd (hclosed edge (List.mem_of_find?_eq_some hleaving) hpass.1) hpass.2
          | none =>
              have hclosed : ∀ edge ∈ graph.edges, edge.source ∈ selected → edge.target ∈ selected := by
                intro edge hedge hsource
                have hnone := List.find?_eq_none.mp hleaving edge hedge
                simp only [hsource, Bool.and_eq_true, decide_eq_true_eq, true_and, not_not] at hnone
                exact hnone
              rw [and_iff_right hclosed]
              by_cases huncertain : graph.nodes.any fun node => node.object ∉ selected && node.uncertain
              · rw [if_pos huncertain]
                obtain ⟨node, hnode, hpass⟩ := List.any_eq_true.mp huncertain
                simp only [Bool.and_eq_true, decide_eq_true_eq] at hpass
                constructor
                · intro h
                  cases h
                · rintro ⟨hcertain, -⟩
                  exact absurd (hcertain node hnode hpass.1) (by simp [hpass.2])
              · rw [if_neg huncertain]
                have hcertain : ∀ node ∈ graph.nodes, node.object ∉ selected → node.uncertain = false := by
                  intro node hnode hobject
                  by_contra hnot
                  exact huncertain (List.any_eq_true.mpr ⟨node, hnode, by simp [hobject, hnot]⟩)
                rw [and_iff_right hcertain]

theorem plan_ordered (h : plan graph targets rounds = some (.ok ordered)) : Deletable graph targets ∧ Ordered graph targets ordered := by
  obtain ⟨-, selected, hselected, hclosed, hcertain, horder⟩ := plan_ok_iff.mp h
  obtain ⟨taken, htaken, hperm, hself, hpairwise⟩ := Worklist.peel_sound perm_leaves horder
  obtain rfl : ordered = taken := htaken
  refine ⟨⟨fun target htarget => ?_, fun edge hedge hsource => ?_, fun node hnode hnot => ?_, ?_⟩, ?_, fun object => ?_, ?_⟩
  · obtain ⟨object, -, hselect⟩ := forall₂_mem_left (mapM_eq_ok.mp hselected) htarget
    exact ⟨object, hselect⟩
  · exact (mem_selected hselected).mp (hclosed edge hedge ((mem_selected hselected).mpr hsource))
  · exact hcertain node hnode fun hmem => hnot ((mem_selected hselected).mp hmem)
  · rw [← acyclic_iff hselected]
    have hacyclic := Worklist.acyclic_of_pairwise (fun i hi => hself i (hperm.subset hi)) hpairwise
    exact hacyclic.mono hperm.symm.subset
  · exact hperm.nodup_iff.mpr (List.nodup_dedup selected)
  · rw [hperm.mem_iff, List.mem_dedup, mem_selected hselected]
  · exact hpairwise.imp fun hnot hedge => hnot (mem_dependents.mpr hedge)

theorem plan_of_deletable (hne : targets ≠ []) (hrounds : targets.length < rounds) (h : Deletable graph targets) :
    ∃ ordered, plan graph targets rounds = some (.ok ordered) := by
  obtain ⟨selected, hselected⟩ := mapM_select h.resolves
  have hacyclic := (acyclic_iff hselected).mpr h.acyclic
  obtain ⟨ordered, hordered⟩ := (@Worklist.peel_ok_iff _ _ _ _ _ cycle _ _ [] perm_leaves
    (Nat.lt_of_le_of_lt (length_selected hselected) hrounds)).mpr hacyclic
  refine ⟨ordered, plan_ok_iff.mpr ⟨hne, selected, hselected, fun edge hedge hsource => ?_, fun node hnode hnot => ?_, hordered⟩⟩
  · exact (mem_selected hselected).mpr (h.closed edge hedge ((mem_selected hselected).mp hsource))
  · exact h.certain node hnode fun hmem => hnot ((mem_selected hselected).mpr hmem)

end Plan

section Run

variable {fault : Nat → Option Error} {k : Nat} {session session' : Session} {t : Store}

/-- Run statements that do not fail. -/
def perform (s : Store) (statements : List Statement) : Except Error Store := statements.foldlM (fun s statement => statement s) s

theorem perform_cons {s : Store} {statement : Statement} {statements : List Statement} :
    perform s (statement :: statements) = .ok t ↔ ∃ u, statement s = .ok u ∧ perform u statements = .ok t := by
  rw [perform, List.foldlM_cons, bind_eq_ok]
  rfl

theorem perform_append {s : Store} {first second : List Statement} :
    perform s (first ++ second) = .ok t ↔ ∃ u, perform s first = .ok u ∧ perform u second = .ok t := by
  rw [perform, List.foldlM_append, bind_eq_ok]
  rfl

theorem runStatements_committed (fault : Nat → Option Error) (k : Nat) (statements : List Statement) (session : Session) :
    (runStatements fault k statements session).1.committed = session.committed := by
  induction statements generalizing k session with
  | nil => rfl
  | cons statement statements ih =>
      rw [runStatements_cons]
      cases fault k with
      | some e => rfl
      | none =>
          cases statement session.working with
          | error e => rfl
          | ok working => exact ih _ _

theorem runStatements_ok {statements : List Statement} (h : runStatements fault k statements session = (session', none)) :
    perform session.working statements = .ok session'.working := by
  induction statements generalizing k session with
  | nil =>
      obtain rfl := (Prod.mk.inj h).1
      rfl
  | cons statement statements ih =>
      rw [runStatements_cons] at h
      cases hfault : fault k with
      | some e =>
          rw [hfault] at h
          cases (Prod.mk.inj h).2
      | none =>
          rw [hfault] at h
          cases hworking : statement session.working with
          | error e =>
              rw [hworking] at h
              cases (Prod.mk.inj h).2
          | ok working =>
              rw [hworking] at h
              rw [perform_cons]
              exact ⟨working, hworking, ih h⟩

theorem runStatements_total {statements : List Statement} (hfault : ∀ k, fault k = none)
    (h : perform session.working statements = .ok t) :
    runStatements fault k statements session = (⟨session.committed, t⟩, none) := by
  induction statements generalizing k session with
  | nil =>
      obtain rfl := Except.ok.inj h
      rfl
  | cons statement statements ih =>
      rw [perform_cons] at h
      obtain ⟨working, hworking, h⟩ := h
      rw [runStatements_cons, hfault, hworking]
      exact ih h

end Run

/-- Between two stores only objects of `objects` and registrations of `names` are gone, these all. -/
structure Frame (objects : Relation → Prop) (names : String → Prop) (s t : Store) : Prop where
  fewer : t.objects.Sublist s.objects
  kept : ∀ o ∈ s.objects, ¬objects o.relation → o ∈ t.objects
  registrations : ∀ name, name ∈ t.registrations ↔ name ∈ s.registrations ∧ ¬names name
  publications : t.publications.Sublist s.publications

/-- The relations of the application that a published Data Block has for its own. -/
def Owned (s : Store) (target relation : Relation) : Prop :=
  target.schema = "data" ∧ ∃ p ∈ s.publications, p.nodeName = target.name ∧
    ∃ owned ∈ p.relations, owned.schema = "wordflow" ∧ relation.same owned = true

section Frame

variable {env : Environment} {graph : DependencyGraph} {s t u : Store} {objects objects' : Relation → Prop}
  {names names' : String → Prop} {relation : Relation}

theorem Frame.refl (s : Store) : Frame (fun _ => False) (fun _ => False) s s :=
  ⟨List.Sublist.refl _, fun _ ho _ => ho, fun _ => by simp, List.Sublist.refl _⟩

theorem frame_annotations (s : Store) (annotations : List (Relation × String)) :
    Frame (fun _ => False) (fun _ => False) s { s with annotations := annotations } :=
  ⟨List.Sublist.refl _, fun _ ho _ => ho, fun _ => by simp, List.Sublist.refl _⟩

theorem Frame.trans (h : Frame objects names s t) (h' : Frame objects' names' t u) :
    Frame (fun r => objects r ∨ objects' r) (fun name => names name ∨ names' name) s u where
  fewer := h'.fewer.trans h.fewer
  kept o ho hnot := h'.kept o (h.kept o ho fun hgone => hnot (.inl hgone)) fun hgone => hnot (.inr hgone)
  registrations name := by rw [h'.registrations, h.registrations, and_assoc, ← not_or]
  publications := h'.publications.trans h.publications

theorem Frame.mono (h : Frame objects names s t) (hobjects : ∀ r, objects r → objects' r) (hnames : ∀ name, names name ↔ names' name) :
    Frame objects' names' s t where
  fewer := h.fewer
  kept o ho hnot := h.kept o ho fun hgone => hnot (hobjects _ hgone)
  registrations name := by rw [h.registrations, hnames]
  publications := h.publications

theorem remove_frame (s : Store) (relation : Relation) :
    Frame (fun r => r.same relation = true) (fun _ => False) s (remove s relation) where
  fewer := List.filter_sublist
  kept o ho hnot := List.mem_filter.mpr ⟨ho, by simpa using hnot⟩
  registrations name := by simp [remove]
  publications := List.Sublist.refl _

theorem deleteNode_frame (s : Store) (name : String) {t : Store} (h : deleteNode name s = .ok t) :
    Frame (fun _ => False) (fun other => other = name) s t := by
  obtain rfl := Except.ok.inj h
  exact ⟨List.Sublist.refl _, fun _ ho _ => ho, fun other => by simp, List.Sublist.refl _⟩

theorem deleteRelation_frame (h : deleteRelation relation s = .ok t) : Frame (fun _ => False) (fun _ => False) s t := by
  obtain rfl := Except.ok.inj h
  exact frame_annotations s _

theorem drop_frame {view : Bool} (h : drop view relation s = .ok t) :
    Frame (fun r => r.same relation = true) (fun _ => False) s t ∧ ∀ o ∈ t.objects, o.relation.same relation = false := by
  rw [drop] at h
  split at h
  · cases h
  · split at h
    · obtain rfl := Except.ok.inj h
      refine ⟨remove_frame s relation, fun o ho => ?_⟩
      simpa using (List.mem_filter.mp ho).2
    · cases h

theorem dropOwned_frame (relations : List Relation) (s : Store) :
    Frame (fun r => ∃ owned ∈ relations, r.same owned = true) (fun _ => False) s (relations.foldl dropOwned s) := by
  induction relations generalizing s with
  | nil => exact (Frame.refl s).mono (fun _ h => h.elim) fun _ => Iff.rfl
  | cons owned relations ih =>
      have hfirst : Frame (fun r => r.same owned = true) (fun _ => False) s (dropOwned s owned) := by
        have hremove := remove_frame s owned
        exact ⟨hremove.fewer, hremove.kept, hremove.registrations, hremove.publications⟩
      refine (hfirst.trans (ih (dropOwned s owned))).mono ?_ fun _ => or_self_iff
      rintro r (hsame | ⟨other, hother, hsame⟩)
      · exact ⟨owned, List.mem_cons_self, hsame⟩
      · exact ⟨other, List.mem_cons_of_mem _ hother, hsame⟩

theorem isPublished_schema (h : isPublished env relation = true) : relation.schema = "wordflow" := by
  rw [isPublished, Bool.and_eq_true, Bool.and_eq_true, decide_eq_true_eq] at h
  exact h.1.1

theorem deletePublication_frame (h : deletePublication env relation s = .ok t) :
    Frame (Owned s relation) (fun _ => False) s t := by
  rw [deletePublication] at h
  split at h
  · obtain rfl := Except.ok.inj h
    exact (Frame.refl s).mono (fun _ h => h.elim) fun _ => Iff.rfl
  · rename_i hschema
    split at h
    · obtain rfl := Except.ok.inj h
      exact (Frame.refl s).mono (fun _ h => h.elim) fun _ => Iff.rfl
    · rename_i p hp
      split at h
      · cases h
      · rename_i hpublished
        obtain rfl := Except.ok.inj h
        have hdropped := dropOwned_frame p.relations.reverse s
        have hname := List.find?_some hp
        refine ⟨hdropped.fewer, fun o ho hnot => hdropped.kept o ho ?_, hdropped.registrations, ?_⟩
        · rintro ⟨owned, howned, hsame⟩
          rw [List.mem_reverse] at howned
          have hall := List.all_eq_true.mp (Bool.eq_true_of_not_eq_false hpublished)
          exact hnot ⟨not_not.mp hschema, p, List.mem_of_find?_eq_some hp, of_decide_eq_true hname, owned, howned,
            isPublished_schema (hall owned howned), hsame⟩
        · exact List.filter_sublist.trans hdropped.publications

theorem refreshPublication_frame {affected : List Relation} {all : Bool} {p : Publication}
    (h : refreshPublication env affected all s p = .ok t) : Frame (fun _ => False) (fun _ => False) s t := by
  rw [refreshPublication] at h
  split at h
  · obtain rfl := Except.ok.inj h
    exact Frame.refl s
  · split at h
    · cases h
    · split at h
      · obtain rfl := Except.ok.inj h
        exact frame_annotations s _
      · obtain rfl := Except.ok.inj h
        exact Frame.refl s

theorem refresh_frame {before : Store} {deleted : List Relation} (h : refresh env before deleted s = .ok t) :
    Frame (fun _ => False) (fun _ => False) s t := by
  refine foldlM_preserves (fun u => Frame (fun _ => False) (fun _ => False) s u) h (Frame.refl s) ?_
  intro p u v _ hu hv
  exact (hu.trans (refreshPublication_frame hv)).mono (fun _ h => h.elim id id) fun _ => or_self_iff

/-- The node by which an object is deleted. -/
def nodeOf (graph : DependencyGraph) (object : Relation) : Option DependencyNode := graph.nodes.find? fun node => node.object = object

def present (graph : DependencyGraph) (object : Relation) : Prop := ∃ node, nodeOf graph object = some node ∧ node.kind ≠ .missing

def registered (graph : DependencyGraph) (object : Relation) : Prop :=
  ∃ node, nodeOf graph object = some node ∧ node.registered = true

/-- The statements for an object drop it, if it is present, and take what belongs to it. -/
theorem objectStatements_frame (h : perform s (objectStatements env graph relation) = .ok t) :
    Frame (fun r => present graph relation ∧ r.same relation = true ∨ Owned s relation r)
        (fun name => registered graph relation ∧ name = relation.name) s t ∧
      (present graph relation → ∀ o ∈ t.objects, o.relation.same relation = false) := by
  rw [objectStatements] at h
  split at h
  · obtain ⟨_, hfail, -⟩ := perform_cons.mp h
    cases hfail
  · rename_i node hnode
    simp only [perform_append] at h
    obtain ⟨dropped, ⟨named, ⟨_, hfirst, hnamed⟩, hdropped⟩, hlast⟩ := h
    obtain ⟨annotated, hannotated, hdone⟩ := perform_cons.mp hfirst
    obtain rfl := Except.ok.inj hdone
    obtain ⟨unpublished, hpublication, hdone⟩ := perform_cons.mp hlast
    obtain rfl := Except.ok.inj hdone
    have hnamedFrame : Frame (fun _ => False) (fun name => registered graph relation ∧ name = relation.name) annotated named := by
      cases hregistered : node.registered with
      | true =>
          rw [hregistered, if_pos rfl] at hnamed
          obtain ⟨_, hdelete, hdone⟩ := perform_cons.mp hnamed
          obtain rfl := Except.ok.inj hdone
          exact (deleteNode_frame annotated relation.name hdelete).mono (fun _ h => h)
            fun name => (and_iff_right ⟨node, hnode, hregistered⟩).symm
      | false =>
          rw [hregistered, if_neg Bool.false_ne_true] at hnamed
          obtain rfl := Except.ok.inj hnamed
          refine (Frame.refl annotated).mono (fun _ h => h) fun name => ⟨False.elim, ?_⟩
          rintro ⟨⟨node', hnode', hregistered'⟩, -⟩
          obtain rfl := Option.some.inj (hnode.symm.trans hnode')
          rw [hregistered] at hregistered'
          cases hregistered'
    have hdroppedFrame : Frame (fun r => present graph relation ∧ r.same relation = true) (fun _ => False) named dropped ∧
        (present graph relation → ∀ o ∈ dropped.objects, o.relation.same relation = false) := by
      cases hkind : node.kind with
      | missing =>
          rw [hkind] at hdropped
          obtain rfl := Except.ok.inj hdropped
          refine ⟨(Frame.refl named).mono (fun _ h => h.elim) fun _ => Iff.rfl, ?_⟩
          rintro ⟨node', hnode', hpresent⟩
          obtain rfl := Option.some.inj (hnode.symm.trans hnode')
          exact absurd hkind hpresent
      | view | table =>
          rw [hkind] at hdropped
          obtain ⟨_, hdrop, hdone⟩ := perform_cons.mp hdropped
          obtain rfl := Except.ok.inj hdone
          have hpresent : present graph relation := ⟨node, hnode, by simp [hkind]⟩
          exact ⟨(drop_frame hdrop).1.mono (fun _ hsame => ⟨hpresent, hsame⟩) fun _ => Iff.rfl, fun _ => (drop_frame hdrop).2⟩
    have hpublicationFrame := deletePublication_frame hpublication
    have hall := (((deleteRelation_frame hannotated).trans hnamedFrame).trans hdroppedFrame.1)
    refine ⟨(hall.trans hpublicationFrame).mono ?_ ?_, fun hpresent o ho => ?_⟩
    · rintro r (((hfalse | hfalse) | hsame) | ⟨hschema, p, hp, howned⟩)
      · exact hfalse.elim
      · exact hfalse.elim
      · exact .inl hsame
      · exact .inr ⟨hschema, p, hall.publications.subset hp, howned⟩
    · intro name
      simp
    · exact hdroppedFrame.2 hpresent o (hpublicationFrame.fewer.subset ho)

/-- A deletion takes the objects of the order, what they have for their own, and their registrations. -/
structure Deleted (graph : DependencyGraph) (db : Store) (ordered : List Relation) (t : Store) : Prop where
  gone : ∀ object ∈ ordered, present graph object → ∀ o ∈ t.objects, o.relation.same object = false
  fewer : t.objects.Sublist db.objects
  kept : ∀ o ∈ db.objects, (∀ object ∈ ordered, o.relation.same object = false ∧ ¬Owned db object o.relation) → o ∈ t.objects
  registrations : ∀ name, name ∈ t.registrations ↔
    name ∈ db.registrations ∧ ¬∃ object ∈ ordered, registered graph object ∧ name = object.name

theorem ordered_frame {ordered : List Relation} (h : perform s (ordered.flatMap (objectStatements env graph)) = .ok t) :
    Frame (fun r => ∃ object ∈ ordered, present graph object ∧ r.same object = true ∨ Owned s object r)
        (fun name => ∃ object ∈ ordered, registered graph object ∧ name = object.name) s t ∧
      ∀ object ∈ ordered, present graph object → ∀ o ∈ t.objects, o.relation.same object = false := by
  induction ordered generalizing s with
  | nil =>
      obtain rfl := Except.ok.inj h
      exact ⟨(Frame.refl s).mono (fun _ h => h.elim) fun name => by simp, fun _ hobject => nomatch hobject⟩
  | cons object ordered ih =>
      rw [List.flatMap_cons, perform_append] at h
      obtain ⟨u, hobject, h⟩ := h
      obtain ⟨hframe, hgone⟩ := objectStatements_frame hobject
      obtain ⟨hrest, hgoneRest⟩ := ih h
      refine ⟨(hframe.trans hrest).mono ?_ ?_, ?_⟩
      · rintro r (hfirst | ⟨other, hother, hsame | ⟨hschema, p, hp, howned⟩⟩)
        · exact ⟨object, List.mem_cons_self, hfirst⟩
        · exact ⟨other, List.mem_cons_of_mem _ hother, .inl hsame⟩
        · exact ⟨other, List.mem_cons_of_mem _ hother, .inr ⟨hschema, p, hframe.publications.subset hp, howned⟩⟩
      · intro name
        simp
      · refine List.forall_mem_cons.mpr ⟨fun hpresent o ho => ?_, hgoneRest⟩
        exact hgone hpresent o (hrest.fewer.subset ho)

theorem statements_deleted {db : Store} {ordered : List Relation} (h : perform db (statements env graph db ordered) = .ok t) :
    Deleted graph db ordered t := by
  rw [statements, perform_append] at h
  obtain ⟨u, hordered, hrest⟩ := h
  obtain ⟨_, hcheck, hrest⟩ := perform_cons.mp hrest
  obtain rfl := Except.ok.inj hcheck
  obtain ⟨v, hrefresh, hrest⟩ := perform_cons.mp hrest
  obtain ⟨_, hcheck, hrest⟩ := perform_cons.mp hrest
  obtain rfl := Except.ok.inj hcheck
  obtain ⟨_, hcheck, hrest⟩ := perform_cons.mp hrest
  obtain rfl := Except.ok.inj hcheck
  obtain rfl := Except.ok.inj hrest
  obtain ⟨hframe, hgone⟩ := ordered_frame hordered
  have hrefreshed := refresh_frame hrefresh
  have hall := hframe.trans hrefreshed
  refine ⟨fun object hobject hpresent o ho => hgone object hobject hpresent o (hrefreshed.fewer.subset ho), hall.fewer, ?_, ?_⟩
  · intro o ho hnone
    apply hall.kept o ho
    rintro (⟨object, hobject, ⟨-, hsame⟩ | howned⟩ | hfalse)
    · rw [(hnone object hobject).1] at hsame
      cases hsame
    · exact (hnone object hobject).2 howned
    · exact hfalse
  · intro name
    rw [hall.registrations]
    simp

end Frame

/-- A database as it is kept: no two objects are named alike, one schema is that
of the application, and the published outputs have their own relations. -/
structure Store.Sound (env : Environment) (s : Store) : Prop where
  distinct : s.objects.Pairwise fun a b => a.relation.same b.relation = false
  schemas : ∀ o ∈ s.objects, eqIgnoreAsciiCase o.relation.schema "wordflow" = true → o.relation.schema = "wordflow"
  owned : ∀ p ∈ s.publications, p.relations ≠ [] ∧ p.relations.all (isPublished env) = true

/-- The nodes of a graph are the objects of the database as they are, and registered Data Blocks. -/
structure Agrees (graph : DependencyGraph) (db : Store) : Prop where
  schemas : ∀ node ∈ graph.nodes, eqIgnoreAsciiCase node.object.schema "wordflow" = false
  objects : ∀ node ∈ graph.nodes, node.kind ≠ .missing → ∃ o ∈ db.objects, o.relation = node.object ∧ o.kind = node.kind
  registered : ∀ node ∈ graph.nodes, node.registered = true → node.object.schema = "data"

section Success

variable {env : Environment} {fault : Nat → Option Error} {graph : DependencyGraph} {targets : List ObjectTarget} {rounds : Nat}
  {db s t : Store} {object : Relation} {ordered : List Relation}

theorem inspect_agrees (hs : db.Sound env) : Agrees (inspectDependencies env db) db := by
  have hmem : ∀ node ∈ (inspectDependencies env db).nodes, node ∈ inspectNodes env db :=
    fun node hnode => (List.perm_insertionSort _ _).subset hnode
  have hcases : ∀ node ∈ inspectNodes env db,
      (∃ o ∈ db.objects, o.relation.schema ≠ "wordflow" ∧ node.object = o.relation ∧ node.kind = o.kind ∧
        (node.registered = true → o.relation.schema = "data")) ∨ ∃ name, node.object = ⟨"data", name⟩ ∧ node.kind = .missing := by
    intro node hnode
    rcases List.mem_append.mp hnode with hobject | hmissing
    · obtain ⟨o, ho, rfl⟩ := List.mem_map.mp hobject
      obtain ⟨ho, hschema⟩ := List.mem_filter.mp ho
      refine .inl ⟨o, ho, by simpa using hschema, rfl, rfl, fun hregistered => ?_⟩
      simp only [Bool.and_eq_true, decide_eq_true_eq] at hregistered
      exact hregistered.1
    · obtain ⟨name, -, rfl⟩ := List.mem_map.mp hmissing
      exact .inr ⟨name, rfl, rfl⟩
  refine ⟨fun node hnode => ?_, fun node hnode hkind => ?_, fun node hnode hregistered => ?_⟩
  · rcases hcases node (hmem node hnode) with ⟨o, ho, hschema, hobject, -⟩ | ⟨name, hobject, -⟩
    · rw [hobject, Bool.eq_false_iff]
      exact fun hwordflow => hschema (hs.schemas o ho hwordflow)
    · rw [hobject]
      exact show eqIgnoreAsciiCase "data" "wordflow" = false by decide
  · rcases hcases node (hmem node hnode) with ⟨o, ho, -, hobject, hsame, -⟩ | ⟨name, -, hmissing⟩
    · exact ⟨o, ho, hobject.symm, hsame.symm⟩
    · exact absurd hmissing hkind
  · rcases hcases node (hmem node hnode) with ⟨o, ho, -, hobject, -, hdata⟩ | ⟨name, hobject, -⟩
    · rw [hobject]
      exact hdata hregistered
    · rw [hobject]

/-- Where every object of the order is as its node says, in a sound store, its statements do not fail. -/
structure Ready (env : Environment) (graph : DependencyGraph) (ordered : List Relation) (s : Store) : Prop where
  distinct : s.objects.Pairwise fun a b => a.relation.same b.relation = false
  owned : ∀ p ∈ s.publications, p.relations ≠ [] ∧ p.relations.all (isPublished env) = true
  nodes : ∀ object ∈ ordered, eqIgnoreAsciiCase object.schema "wordflow" = false ∧ ∃ node, nodeOf graph object = some node ∧
    (node.kind ≠ .missing → ∃ o ∈ s.objects, o.relation = object ∧ o.kind = node.kind)

theorem eq_of_same {objects : List Object} (h : objects.Pairwise fun a b => a.relation.same b.relation = false) {a b : Object}
    (ha : a ∈ objects) (hb : b ∈ objects) (hsame : a.relation.same b.relation = true) : a = b := by
  by_contra hne
  have hsymm : Std.Symm fun a b : Object => a.relation.same b.relation = false :=
    ⟨fun a b hfalse => by rwa [Relation.same_comm]⟩
  have hfalse := h.forall ha hb hne
  rw [hsame] at hfalse
  cases hfalse

theorem lookup_eq (h : s.objects.Pairwise fun a b => a.relation.same b.relation = false) {o : Object} (ho : o ∈ s.objects) :
    lookup s o.relation = some o := by
  obtain ⟨found, hfound⟩ : ∃ found, lookup s o.relation = some found := by
    rw [← Option.isSome_iff_exists, lookup, List.find?_isSome]
    exact ⟨o, ho, Relation.same_refl _⟩
  have hpass := List.find?_some hfound
  rw [hfound, eq_of_same h (List.mem_of_find?_eq_some hfound) ho hpass]

theorem drop_total (h : s.objects.Pairwise fun a b => a.relation.same b.relation = false) {o : Object} (ho : o ∈ s.objects) :
    drop o.view o.relation s = .ok (remove s o.relation) := by
  rw [drop, lookup_eq h ho]
  exact if_pos rfl

theorem deletePublication_total (h : ∀ p ∈ s.publications, p.relations ≠ [] ∧ p.relations.all (isPublished env) = true) :
    ∃ t, deletePublication env object s = .ok t := by
  rw [deletePublication]
  split
  · exact ⟨_, rfl⟩
  · split
    · exact ⟨_, rfl⟩
    · rename_i p hp
      rw [(h p (List.mem_of_find?_eq_some hp)).2, if_neg (by simp)]
      exact ⟨_, rfl⟩

theorem objectStatements_total (h : Ready env graph (object :: ordered) s) :
    ∃ t, perform s (objectStatements env graph object) = .ok t := by
  obtain ⟨-, node, hnode, hobject⟩ := h.nodes object List.mem_cons_self
  have hfound : graph.nodes.find? (fun node => node.object = object) = some node := hnode
  rw [objectStatements, hfound]
  simp only [perform_append]
  -- up to the publication the statements change none of the publications
  obtain ⟨named, hnamed, hobjects, hpublications⟩ : ∃ named,
      (∃ annotated, perform s [deleteRelation object] = .ok annotated ∧
        perform annotated (if node.registered then [deleteNode object.name] else []) = .ok named) ∧
          named.objects = s.objects ∧ named.publications = s.publications := by
    cases node.registered with
    | true => exact ⟨_, ⟨_, rfl, rfl⟩, rfl, rfl⟩
    | false => exact ⟨_, ⟨_, rfl, rfl⟩, rfl, rfl⟩
  have hpublication : ∀ dropped, dropped.publications = s.publications →
      ∃ t, perform dropped [deletePublication env object] = .ok t := by
    intro dropped hsame
    obtain ⟨t, ht⟩ := @deletePublication_total env dropped object (hsame.symm ▸ h.owned)
    exact ⟨t, perform_cons.mpr ⟨t, ht, rfl⟩⟩
  cases hkind : node.kind with
  | missing =>
      obtain ⟨t, ht⟩ := hpublication named hpublications
      exact ⟨t, named, ⟨named, hnamed, rfl⟩, ht⟩
  | view | table =>
      obtain ⟨o, ho, rfl, hsame⟩ := hobject (by simp [hkind])
      have hdrop := drop_total (s := named) (hobjects.symm ▸ h.distinct) (hobjects.symm ▸ ho)
      have hview := hsame.trans hkind
      rw [Object.kind] at hview
      cases hv : o.view <;> rw [hv] at hview hdrop <;> cases hview
      obtain ⟨t, ht⟩ := hpublication (remove named o.relation) hpublications
      exact ⟨t, _, ⟨named, hnamed, perform_cons.mpr ⟨_, hdrop, rfl⟩⟩, ht⟩

theorem Ready.next (h : Ready env graph (object :: ordered) s) (hnodup : (object :: ordered).Nodup)
    (hperform : perform s (objectStatements env graph object) = .ok t) : Ready env graph ordered t := by
  obtain ⟨hframe, -⟩ := objectStatements_frame hperform
  refine ⟨h.distinct.sublist hframe.fewer, fun p hp => h.owned p (hframe.publications.subset hp), fun other hother => ?_⟩
  obtain ⟨hschema, node, hnode, hobject⟩ := h.nodes other (List.mem_cons_of_mem _ hother)
  refine ⟨hschema, node, hnode, fun hkind => ?_⟩
  obtain ⟨o, ho, rfl, hsame⟩ := hobject hkind
  refine ⟨o, hframe.kept o ho ?_, rfl, hsame⟩
  rintro (⟨⟨first, hfirst, hpresent⟩, heq⟩ | ⟨-, p, hp, -, owned, howned, hwordflow, heq⟩)
  · obtain ⟨-, node', hnode', hobject'⟩ := h.nodes object List.mem_cons_self
    obtain rfl := Option.some.inj (hfirst.symm.trans hnode')
    obtain ⟨o', ho', rfl, -⟩ := hobject' hpresent
    obtain rfl := eq_of_same h.distinct ho ho' heq
    exact (List.nodup_cons.mp hnodup).1 hother
  · rw [Relation.same, Bool.and_eq_true, hwordflow] at heq
    rw [heq.1] at hschema
    cases hschema

theorem ordered_total (h : Ready env graph ordered s) (hnodup : ordered.Nodup) :
    ∃ t, perform s (ordered.flatMap (objectStatements env graph)) = .ok t ∧
      ∀ p ∈ t.publications, p.relations ≠ [] ∧ p.relations.all (isPublished env) = true := by
  induction ordered generalizing s with
  | nil => exact ⟨s, rfl, h.owned⟩
  | cons object ordered ih =>
      obtain ⟨u, hu⟩ := objectStatements_total h
      obtain ⟨t, ht, howned⟩ := ih (h.next hnodup hu) (List.nodup_cons.mp hnodup).2
      exact ⟨t, by rw [List.flatMap_cons]; exact perform_append.mpr ⟨u, hu, ht⟩, howned⟩

theorem refresh_total {before : Store} {deleted : List Relation}
    (h : ∀ p ∈ s.publications, p.relations ≠ [] ∧ p.relations.all (isPublished env) = true) :
    ∃ t, refresh env before deleted s = .ok t := by
  have hfold : ∀ (publications : List Publication) (affected : List Relation) (all : Bool) (s : Store),
      (∀ p ∈ publications, p.relations ≠ []) → ∃ t, publications.foldlM (refreshPublication env affected all) s = .ok t := by
    intro publications affected all
    induction publications with
    | nil => exact fun s _ => ⟨s, rfl⟩
    | cons p publications ih =>
        intro s hrelations
        obtain ⟨hp, hrelations⟩ := List.forall_mem_cons.mp hrelations
        obtain ⟨u, hu⟩ : ∃ u, refreshPublication env affected all s p = .ok u := by
          rw [refreshPublication, List.getLast?_eq_some_getLast hp]
          split
          · exact ⟨_, rfl⟩
          · simp only
            split <;> exact ⟨_, rfl⟩
        obtain ⟨t, ht⟩ := ih u hrelations
        exact ⟨t, by rw [List.foldlM_cons]; exact bind_eq_ok.mpr ⟨u, hu, ht⟩⟩
  exact hfold s.publications _ _ s fun p hp => (h p hp).1

theorem statements_total (hs : db.Sound env) (hgraph : Agrees graph db) (hnodup : ordered.Nodup)
    (hnodes : ∀ object ∈ ordered, ∃ node ∈ graph.nodes, node.object = object) :
    ∃ t, perform db (statements env graph db ordered) = .ok t := by
  have hready : Ready env graph ordered db := by
    refine ⟨hs.distinct, hs.owned, fun object hobject => ?_⟩
    obtain ⟨node, hnode, hsame⟩ := hnodes object hobject
    obtain ⟨found, hfound⟩ : ∃ found, nodeOf graph object = some found := by
      rw [← Option.isSome_iff_exists, nodeOf, List.find?_isSome]
      exact ⟨node, hnode, decide_eq_true hsame⟩
    have hmem := List.mem_of_find?_eq_some hfound
    have hpass := List.find?_some hfound
    obtain rfl : found.object = object := of_decide_eq_true hpass
    exact ⟨hgraph.schemas found hmem, found, hfound, hgraph.objects found hmem⟩
  obtain ⟨u, hu, howned⟩ := ordered_total hready hnodup
  obtain ⟨t, ht⟩ := @refresh_total env _ db ordered howned
  exact ⟨t, perform_append.mpr ⟨u, hu, perform_cons.mpr ⟨u, rfl, perform_cons.mpr ⟨t, ht, rfl⟩⟩⟩⟩

theorem select_node {target : ObjectTarget} (h : select graph target = .ok object) : ∃ node ∈ graph.nodes, node.object = object := by
  rw [select] at h
  split at h
  · rename_i node hnode
    exact ⟨node, List.mem_of_find?_eq_some hnode, Except.ok.inj h⟩
  · cases h

end Success

section Claim

variable {env : Environment} {fault : Nat → Option Error} {inspected : Except Error DependencyGraph} {targets : List ObjectTarget}
  {rounds : Nat} {db t : Store} {result : Except Error (List Relation)}

theorem deleteObjects_error {e : Error} (h : deleteObjects env fault inspected targets rounds db = some (t, .error e)) : t = db := by
  cases inspected with
  | error failure => exact (Prod.mk.inj (Option.some.inj h)).1.symm
  | ok graph =>
      obtain ⟨planned, -, hplanned⟩ := Option.map_eq_some_iff.mp h
      cases planned with
      | error failure => exact (Prod.mk.inj hplanned).1.symm
      | ok ordered =>
          have hcommitted := runStatements_committed fault 0 (statements env graph db ordered) ⟨db, db⟩
          simp only at hplanned
          split at hplanned
          · rename_i session failure hrun
            rw [hrun] at hcommitted
            exact (Prod.mk.inj hplanned).1.symm.trans hcommitted
          · cases (Prod.mk.inj hplanned).2

theorem deleteObjects_ok {ordered : List Relation} (h : deleteObjects env fault inspected targets rounds db = some (t, .ok ordered)) :
    ∃ graph, inspected = .ok graph ∧ plan graph targets rounds = some (.ok ordered) ∧
      perform db (statements env graph db ordered) = .ok t := by
  cases inspected with
  | error failure => cases (Prod.mk.inj (Option.some.inj h)).2
  | ok graph =>
      obtain ⟨planned, hplan, hplanned⟩ := Option.map_eq_some_iff.mp h
      cases planned with
      | error failure => cases (Prod.mk.inj hplanned).2
      | ok ordered' =>
          simp only at hplanned
          split at hplanned
          · cases (Prod.mk.inj hplanned).2
          · rename_i session hrun
            obtain ⟨rfl, hordered⟩ := Prod.mk.inj hplanned
            obtain rfl := Except.ok.inj hordered
            exact ⟨graph, rfl, hplan, runStatements_ok hrun⟩

theorem deleteObjects_terminates (hrounds : targets.length < rounds) :
    ∃ t result, deleteObjects env fault inspected targets rounds db = some (t, result) := by
  cases inspected with
  | error failure => exact ⟨_, _, rfl⟩
  | ok graph =>
      obtain ⟨planned, hplanned⟩ := @plan_terminates graph _ _ hrounds
      rw [deleteObjects, hplanned]
      exact ⟨_, _, rfl⟩

end Claim

section Example

/-- A parser that finds a View over the documents. -/
def parser : Environment where
  references _ relation := if relation.name = "report" then [⟨"data", "docs"⟩] else []
  uncertain _ _ := false
  prepares _ _ := false
  scope _ _ deleted := (deleted, false)
  rebind s _ := s.annotations
  isUuid _ := false

def docs : Store where
  objects := [⟨⟨"data", "docs"⟩, false⟩, ⟨⟨"data", "report"⟩, true⟩, ⟨⟨"data", "other"⟩, false⟩]
  registrations := ["docs", "report", "other", "lost"]
  links := [("docs", "report")]
  tokenizerModels := []
  annotations := []
  publications := []

theorem docs_sound : docs.Sound parser where
  distinct := by decide
  schemas := by decide
  owned := fun _ hp => nomatch hp

end Example

end Wordflow.Deletion
