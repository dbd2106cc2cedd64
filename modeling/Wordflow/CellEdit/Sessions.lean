import Mathlib.Data.List.Pairwise
import Wordflow.CellEdit.Save
import Wordflow.Library.Run

namespace Wordflow.CellEdit

open Library Library.Fallible Library.Identifier Library.Run Objects Renames Tables Annotation

variable {V : Type} [DecidableEq V]

/-- The calls of an editor with what the code around them returns. -/
inductive Call
  | beginEdit (target : ObjectTarget) (stale : Bool) ( annotation : Option EditRequest) (setup : Except Error Unit)
      (id : String)
  | page (id : String) (page pageSize : Nat) (sorting : List String) (read : Except Error Unit)
  | save (id : String) (input : Save) (writer commit : Except Error Unit)
  | cancel (id : String)
  deriving DecidableEq

inductive Reply
  | opened
  | page
  | completed (saved : Bool)
  deriving DecidableEq

namespace Call

def run (sql : Sql V) (w : World V) : Call → Except Error Reply × World V
  | .beginEdit target stale annotation setup id =>
      ((beginEditor sql w target stale annotation setup id).1.map fun _ => .opened,
        (beginEditor sql w target stale annotation setup id).2)
  | .page id number pageSize sorting read =>
      ((cellEditPage w id number pageSize sorting read).1.map fun _ => .page,
        (cellEditPage w id number pageSize sorting read).2)
  | .save id input writer commit =>
      ((saveCellEdit sql w id input writer commit).1.map .completed, (saveCellEdit sql w id input writer commit).2)
  | .cancel id => ((cancelCellEdit w id).1.map .completed, (cancelCellEdit w id).2)

def minted : Call → List String
  | .beginEdit _ _ _ _ id => [id]
  | .page _ _ _ _ _ | .save _ _ _ _ | .cancel _ => []

/-- The session a call may end. -/
def ends : Call → Option String
  | .save id _ _ _ | .cancel id => some id
  | .beginEdit _ _ _ _ _ | .page _ _ _ _ _ => none

end Call

structure Entry (V : Type) where
  call : Call
  reply : Except Error Reply
  before : World V
  after : World V
  deriving DecidableEq

/-- `log` holds every call with its reply and the states around it, oldest
first. -/
structure State (V : Type) where
  world : World V
  minted : List String
  log : List (Entry V)
  deriving DecidableEq

/-- `write` is any other writer; the leases keep it off the tables being
edited. -/
inductive Event (V : Type)
  | call (call : Call)
  | write (catalogue : Catalogue V) (renames : List Rename)
  deriving DecidableEq

def step (sql : Sql V) (s : State V) : Event V → Option (State V)
  | .call call =>
      if ∀ id ∈ call.minted, id ∉ s.minted then
        some {
          world := (call.run sql s.world).2
          minted := call.minted ++ s.minted
          log := s.log ++ [⟨call, (call.run sql s.world).1, s.world, (call.run sql s.world).2⟩] }
      else none
  | .write catalogue renames =>
      if ∀ session ∈ s.world.editor.sessions,
          catalogue.table? session.2.relation = s.world.catalogue.table? session.2.relation then
        some { s with world := ⟨catalogue, publish s.world.editor renames⟩ }
      else none

/-- The part of a session that nothing changes while it lives. -/
structure Lease (V : Type) where
  target : ObjectTarget
  relation : Relation
  snapshot : Catalogue V

def Session.lease (s : Session V) : Lease V := ⟨s.target, s.relation, s.snapshot⟩

def Editor.leases (e : Editor V) : List (String × Lease V) := e.sessions.map fun s => (s.1, s.2.lease)

/-- A session reads the table it locks as it was when the session began. -/
def Lease.Good (sql : Sql V) (c : Catalogue V) (l : Lease V) : Prop :=
  (asciiLower l.relation.schema = asciiLower (l.target.schema.getD "data") ∧
      asciiLower l.relation.name = asciiLower l.target.name) ∧
    ∃ t, l.snapshot.table? l.relation = some t ∧ c.table? l.relation = some t ∧ Keyed sql t.rows

structure Leased (sql : Sql V) (w : World V) : Prop where
  ids : (w.editor.leases.map Prod.fst).Nodup
  apart : w.editor.leases.Pairwise fun a b => Protection.same a.2.target b.2.target = false
  good : ∀ l ∈ w.editor.leases, l.2.Good sql w.catalogue

section Editor

omit [DecidableEq V]

variable {e : Editor V} {id : String}

theorem editing_spec {session : Session V} (h : e.editing id = .ok session) : (id, session) ∈ e.sessions := by
  simp only [Editor.editing] at h
  split at h
  · rename_i found hfind
    cases h
    have hid : found.1 = id := by simpa using List.find?_some hfind
    exact hid ▸ List.mem_of_find?_eq_some hfind
  · cases h

theorem editing_error (h : ∀ s ∈ e.sessions, s.1 ≠ id) : e.editing id = .error editingClosed := by
  have hfind : e.sessions.find? (fun s => s.1 = id) = none := by simpa using h
  simp only [Editor.editing, hfind]

theorem leases_setSession {session : Session V}
    (h : ∀ s ∈ e.sessions, s.1 = id → session.lease = s.2.lease) : (e.setSession id session).leases = e.leases := by
  simp only [Editor.leases, Editor.setSession, List.map_map]
  apply List.map_congr_left
  intro s hs
  by_cases hid : s.1 = id
  · simp [hid, h s hs hid]
  · simp [hid]

theorem leases_publish (renames : List Rename) : (publish e renames).leases = e.leases := by
  simp only [Editor.leases, publish, List.map_map]
  apply List.map_congr_left
  intro s _
  simp only [Function.comp_apply, Session.notify]
  split <;> rfl

theorem reconcile_lease (s : Session V) : s.reconcile.1.lease = s.lease := by
  simp only [Session.reconcile]
  split
  · rfl
  · split <;> rfl

theorem sessions_ids : e.leases.map Prod.fst = e.sessions.map Prod.fst := by
  simp only [Editor.leases, List.map_map]
  rfl

theorem reconcile_absent (h : ∀ s ∈ e.sessions, s.1 ≠ id) : reconcileReferences e id = (e, .ok ()) := by
  have hfind : e.sessions.find? (fun s => s.1 = id) = none := by simpa using h
  simp only [reconcileReferences, hfind]

theorem reconcile_present {session : Session V} (hids : (e.leases.map Prod.fst).Nodup)
    (h : (id, session) ∈ e.sessions) :
    reconcileReferences e id = (e.setSession id session.reconcile.1, session.reconcile.2) := by
  rw [sessions_ids] at hids
  cases hfind : e.sessions.find? (fun s => s.1 = id) with
  | none => simpa using List.find?_eq_none.mp hfind _ h
  | some found =>
      have hid : found.1 = id := by simpa using List.find?_some hfind
      obtain rfl := List.inj_on_of_nodup_map hids (List.mem_of_find?_eq_some hfind) h hid
      simp only [reconcileReferences, hfind]

/-- Either no session has the id, and nothing is read, or its notifications
are. -/
theorem reconcile_cases (hids : (e.leases.map Prod.fst).Nodup) (id : String) :
    ((∀ s ∈ e.sessions, s.1 ≠ id) ∧ reconcileReferences e id = (e, .ok ())) ∨
      ∃ session, (id, session) ∈ e.sessions ∧
        reconcileReferences e id = (e.setSession id session.reconcile.1, session.reconcile.2) := by
  by_cases hlive : ∃ s ∈ e.sessions, s.1 = id
  · obtain ⟨⟨_, session⟩, hs, rfl⟩ := hlive
    exact .inr ⟨session, hs, reconcile_present hids hs⟩
  · push Not at hlive
    exact .inl ⟨hlive, reconcile_absent hlive⟩

theorem leases_reconcile (hids : (e.leases.map Prod.fst).Nodup) (id : String) :
    (reconcileReferences e id).1.leases = e.leases := by
  rcases reconcile_cases hids id with ⟨-, h⟩ | ⟨session, hs, h⟩
  · rw [h]
  · rw [h]
    apply leases_setSession
    intro s hmem hid
    rw [sessions_ids] at hids
    have heq := List.inj_on_of_nodup_map hids hmem hs hid
    rw [heq, reconcile_lease]

theorem editing_setSession {session other : Session V} (h : (e.setSession id session).editing id = .ok other) :
    other = session := by
  obtain ⟨s, -, hs⟩ := List.mem_map.mp (editing_spec h)
  by_cases hid : s.1 = id
  · rw [if_pos hid] at hs
    exact (Prod.mk.inj hs).2.symm
  · rw [if_neg hid] at hs
    exact absurd (congrArg Prod.fst hs) hid

theorem leases_remove : (e.remove id).leases = e.leases.filter fun l => l.1 ≠ id := by
  simp only [Editor.leases, Editor.remove, List.filter_map]
  rfl

theorem leases_finish {saved : Bool} : (e.finish id saved).leases = e.leases.filter fun l => l.1 ≠ id :=
  leases_remove

end Editor

section Begin

variable {sql : Sql V}

omit [DecidableEq V] in
theorem markIdentifier_spec {columns : List (String × String)} {marked : List Column} {rowType : String}
    (h : markIdentifier columns = .ok (marked, rowType)) (hnone : marked.any Column.identifier = false) :
    ∀ c ∈ columns, eqIgnoreAsciiCase c.1 "rowid" = false := by
  induction columns generalizing marked rowType with
  | nil => simp
  | cons column rest ih =>
      rcases column with ⟨name, ty⟩
      rw [markIdentifier] at h
      split at h
      · obtain ⟨-, h⟩ := guard_eq_ok.mp h
        obtain ⟨rfl, -⟩ := Prod.mk.inj (Except.ok.inj h)
        simp at hnone
      · rename_i hname
        obtain ⟨⟨restMarked, restType⟩, hrest, h⟩ := map_eq_ok.mp h
        obtain ⟨rfl, -⟩ := Prod.mk.inj h
        rw [List.any_cons, Bool.or_eq_false_iff] at hnone
        exact List.forall_mem_cons.mpr ⟨by simpa using hname, ih hrest hnone.2⟩

theorem keyed_of_validated {rows : List (Row V)} (h : validateIdentifiers sql rows = .ok ()) : Keyed sql rows := by
  simp only [validateIdentifiers] at h
  split at h
  · rename_i hvalid
    exact fun a ha b hb hab => List.inj_on_of_nodup_map hvalid.2 ha hb hab
  · cases h

omit [DecidableEq V] in
theorem key_of_columns {t : Table V} {row : Row V} (hrow : row ∈ t.rows)
    (h : ∀ c ∈ t.columns, eqIgnoreAsciiCase c.1 "rowid" = false) : row.key sql = sql.bigint row.rowid := by
  have hfind : row.cells.find? (fun c => eqIgnoreAsciiCase c.1 "rowid") = none := by
    rw [List.find?_eq_none]
    intro cell hcell
    obtain ⟨column, hcolumn, hname⟩ := List.mem_map.mp (t.shaped row hrow ▸ List.mem_map_of_mem (f := Prod.fst) hcell)
    rw [← hname, h column hcolumn]
    simp
  simp only [Row.key, hfind]

omit [DecidableEq V] in
theorem keyed_of_columns {t : Table V} (hsql : sql.Rowids)
    (h : ∀ c ∈ t.columns, eqIgnoreAsciiCase c.1 "rowid" = false) : Keyed sql t.rows := by
  intro a ha b hb hab
  rw [key_of_columns ha h, key_of_columns hb h] at hab
  exact List.inj_on_of_nodup_map t.distinct ha hb (hsql.injective _ _ hab)

theorem beginCellEdit_spec {c : Catalogue V} {e begun : Editor V} {target : ObjectTarget} {stale : Bool} {id : String}
    (hsql : sql.Rowids) (h : beginCellEdit sql c e target stale id = .ok begun) :
    ∃ session, begun = { e with sessions := e.sessions ++ [(id, session)] } ∧ session.lease.Good sql c ∧
      ∀ s ∈ e.sessions, Protection.same s.2.target session.target = false := by
  simp only [beginCellEdit] at h
  split at h
  · cases h
  · rename_i hfree
    obtain ⟨relation, hrelation, h⟩ := bind_eq_ok.mp h
    obtain ⟨-, h⟩ := guard_eq_ok.mp h
    split at h
    · cases h
    · rename_i t ht
      obtain ⟨⟨columns, rowType⟩, hmark, h⟩ := bind_eq_ok.mp h
      obtain ⟨⟨⟩, hvalid, h⟩ := bind_eq_ok.mp h
      cases h
      have htable : c.table? relation = some t := (Option.filter_eq_some_iff.mp ht).1
      refine ⟨_, rfl, ⟨resolve_spec hrelation, t, htable, htable, ?_⟩, ?_⟩
      · cases hany : columns.any Column.identifier with
        | true =>
            rw [hany, if_pos rfl] at hvalid
            exact keyed_of_validated hvalid
        | false => exact keyed_of_columns hsql (markIdentifier_spec hmark hany)
      · simpa using List.find?_eq_none.mp hfree

omit [DecidableEq V] in
theorem restrictAnnotation_spec {e restricted : Editor V} {id : String} {request : EditRequest}
    (hids : (e.leases.map Prod.fst).Nodup) (h : restrictAnnotation sql e id request = .ok restricted) :
    restricted.leases = e.leases ∧ restricted.completed = e.completed := by
  obtain ⟨session, hsession, h⟩ := bind_eq_ok.mp h
  obtain ⟨-, -, h⟩ := bind_eq_ok.mp h
  obtain ⟨-, h⟩ := guard_eq_ok.mp h
  cases h
  refine ⟨leases_setSession fun s hs hid => ?_, rfl⟩
  rw [sessions_ids] at hids
  have heq := List.inj_on_of_nodup_map hids hs (editing_spec hsession) hid
  rw [heq]
  rfl

omit [DecidableEq V] in
theorem configure_spec {e configured : Editor V} { annotation : Option EditRequest} {setup : Except Error Unit}
    {id : String} (hids : (e.leases.map Prod.fst).Nodup) (h : configure sql e annotation setup id = .ok configured) :
    configured.leases = e.leases ∧ configured.completed = e.completed := by
  cases annotation with
  | none =>
      cases h
      exact ⟨rfl, rfl⟩
  | some request =>
      obtain ⟨restricted, hrestricted, h⟩ := bind_eq_ok.mp h
      obtain ⟨⟨⟩, -, h⟩ := bind_eq_ok.mp h
      cases h
      exact restrictAnnotation_spec hids hrestricted

/-- Beginning an edit adds one session, or changes nothing. -/
theorem beginEditor_spec {w : World V} {target : ObjectTarget} {stale : Bool} { annotation : Option EditRequest}
    {setup : Except Error Unit} {id : String} (hsql : sql.Rowids) (hids : (w.editor.leases.map Prod.fst).Nodup)
    (hfresh : ∀ l ∈ w.editor.leases, l.1 ≠ id) :
    (beginEditor sql w target stale annotation setup id).2.catalogue = w.catalogue ∧
      (beginEditor sql w target stale annotation setup id).2.editor.completed = w.editor.completed ∧
      ((beginEditor sql w target stale annotation setup id).2.editor.leases = w.editor.leases ∨
        ∃ lease : Lease V, (beginEditor sql w target stale annotation setup id).2.editor.leases =
            w.editor.leases ++ [(id, lease)] ∧ lease.Good sql w.catalogue ∧
          ∀ l ∈ w.editor.leases, Protection.same l.2.target lease.target = false) := by
  simp only [beginEditor]
  cases hbegin : beginCellEdit sql w.catalogue w.editor target stale id with
  | error error => exact ⟨rfl, rfl, .inl rfl⟩
  | ok begun =>
      obtain ⟨session, hbegun, hgood, hapart⟩ := beginCellEdit_spec hsql hbegin
      have hleases : begun.leases = w.editor.leases ++ [(id, session.lease)] := by simp [hbegun, Editor.leases]
      have hdone : begun.completed = w.editor.completed := by rw [hbegun]
      have hadded : ∀ l ∈ w.editor.leases, Protection.same l.2.target session.lease.target = false := by
        intro l hl
        obtain ⟨s, hs, rfl⟩ := List.mem_map.mp hl
        exact hapart s hs
      have hnodup : ((w.editor.leases ++ [(id, session.lease)]).map Prod.fst).Nodup := by
        rw [List.map_append, List.nodup_append]
        refine ⟨hids, List.nodup_singleton _, ?_⟩
        rintro a ha b hb rfl
        obtain ⟨l, hl, rfl⟩ := List.mem_map.mp ha
        exact hfresh l hl (List.mem_singleton.mp hb)
      cases hconfigure : configure sql begun annotation setup id with
      | ok configured =>
          obtain ⟨hsame, hcompleted⟩ := configure_spec (hleases ▸ hnodup) hconfigure
          simp only [hconfigure]
          exact ⟨trivial, hcompleted.trans hdone, .inr ⟨session.lease, hsame.trans hleases, hgood, hadded⟩⟩
      | error error =>
          simp only [hconfigure]
          refine ⟨trivial, hdone, .inl ?_⟩
          simp only [leases_remove, hleases, List.filter_append]
          have hkeep : w.editor.leases.filter (fun l => l.1 ≠ id) = w.editor.leases :=
            List.filter_eq_self.mpr fun l hl => by simpa using hfresh l hl
          rw [hkeep]
          simp

end Begin

section Save

variable {sql : Sql V} {w : World V} {id : String}

/-- A Save that succeeds on an open session. -/
structure Committed (sql : Sql V) (w : World V) (id : String) (input : Save) (after : World V) : Prop where
  saved : ∃ session, (id, session) ∈ w.editor.sessions ∧ ∃ t accepted changed,
    session.snapshot.table? session.relation = some t ∧ w.catalogue.table? session.relation = some t ∧
    acceptedChanges sql w.catalogue session.reconcile.1 input = .ok accepted ∧
    Saved sql session.reconcile.1 accepted t changed ∧
    after.catalogue.table? session.relation = some changed ∧
    ∀ other, other ≠ session.relation → after.catalogue.table? other = w.catalogue.table? other
  leases : after.editor.leases = w.editor.leases.filter fun l => l.1 ≠ id
  completed : after.editor.completed = (w.editor.finish id true).completed

/-- The sessions after a failed Save of `id`: it may have read its notifications,
which its annotation rules follow, and is otherwise as it was. -/
def Reconciled (id : String) (e e' : Editor V) : Prop :=
  e'.completed = e.completed ∧ List.Forall₂ (fun s s' => s'.1 = s.1 ∧ s'.2.lease = s.2.lease ∧
    s'.2.columns = s.2.columns ∧ s'.2.rowType = s.2.rowType ∧
    (s'.2 = s.2 ∨ s.1 = id ∧ s'.2 = s.2.reconcile.1)) e.sessions e'.sessions

omit [DecidableEq V] in
theorem reconcile_frozen (s : Session V) : s.reconcile.1.lease = s.lease ∧ s.reconcile.1.columns = s.columns ∧
    s.reconcile.1.rowType = s.rowType := by
  refine ⟨reconcile_lease s, ?_⟩
  simp only [Session.reconcile]
  split
  · exact ⟨rfl, rfl⟩
  · split <;> exact ⟨rfl, rfl⟩

omit [DecidableEq V] in
theorem reconciled_refl (e : Editor V) : Reconciled id e e :=
  ⟨rfl, List.forall₂_same.mpr fun _ _ => ⟨rfl, rfl, rfl, rfl, .inl rfl⟩⟩

omit [DecidableEq V] in
theorem reconciled_setSession {e : Editor V} {session : Session V} (hids : (e.leases.map Prod.fst).Nodup)
    (h : (id, session) ∈ e.sessions) : Reconciled id e (e.setSession id session.reconcile.1) := by
  refine ⟨rfl, ?_⟩
  simp only [Editor.setSession, List.forall₂_map_right_iff]
  apply List.forall₂_same.mpr
  intro s hs
  by_cases hid : s.1 = id
  · rw [sessions_ids] at hids
    obtain rfl := List.inj_on_of_nodup_map hids hs h hid
    simp [reconcile_frozen session]
  · simp [hid]

theorem committed_of_save {session : Session V} {input : Save} {result : Option (Catalogue V)} {after : World V}
    (hw : Leased sql w) (hsession : (id, session) ∈ w.editor.sessions)
    (hsave : saveTransaction sql w.catalogue session.reconcile.1 input = .ok result)
    (hcatalogue : after.catalogue = result.getD w.catalogue)
    (hleases : after.editor.leases = w.editor.leases.filter fun l => l.1 ≠ id)
    (hcompleted : after.editor.completed = (w.editor.finish id true).completed) :
    Committed sql w id input after := by
  obtain ⟨-, t, ht, hlive, hkeyed⟩ := hw.good _ (List.mem_map_of_mem hsession)
  have hlease := reconcile_lease session
  have hrelation : session.reconcile.1.relation = session.relation := congrArg Lease.relation hlease
  have hsnapshot : session.reconcile.1.snapshot = session.snapshot := congrArg Lease.snapshot hlease
  obtain ⟨accepted, changed, haccepted, hsaved, hresult⟩ :=
    saveTransaction_spec (by rw [hsnapshot, hrelation]; exact ht) (by rw [hrelation]; exact hlive) hkeyed hsave
  refine ⟨⟨session, hsession, t, accepted, changed, ht, hlive, haccepted, hsaved, ?_, ?_⟩, hleases, hcompleted⟩
  · rcases hresult with ⟨rfl, rfl⟩ | rfl
    · rw [hcatalogue]
      exact hlive
    · rw [hcatalogue, Option.getD_some, hrelation]
      exact Catalogue.table?_set_self hlive
  · intro other hother
    rcases hresult with ⟨rfl, rfl⟩ | rfl
    · rw [hcatalogue, Option.getD_none]
    · rw [hcatalogue, Option.getD_some, hrelation]
      exact Catalogue.table?_set_of_ne hother

/-- The steps of a Save up to its end, on an open session. -/
theorem save_result {e : Editor V} {session : Session V} {reconciled : Except Error Unit} {input : Save}
    {writer commit : Except Error Unit} {c : Catalogue V} {result : Option (Catalogue V)}
    (h : (do
      reconciled
      let session ← (e.setSession id session).editing id
      writer
      let changed ← saveTransaction sql c session input
      (if changed.isSome then commit else .ok ())
      return changed) = Except.ok result) : saveTransaction sql c session input = .ok result := by
  obtain ⟨⟨⟩, -, h⟩ := bind_eq_ok.mp h
  obtain ⟨live, hediting, h⟩ := bind_eq_ok.mp h
  obtain ⟨⟨⟩, -, h⟩ := bind_eq_ok.mp h
  obtain ⟨changed, hchanged, h⟩ := bind_eq_ok.mp h
  obtain ⟨⟨⟩, -, h⟩ := bind_eq_ok.mp h
  cases h
  rwa [← editing_setSession hediting]

/-- All that a Save can do. -/
theorem saveCellEdit_cases (hw : Leased sql w) (id : String) (input : Save) (writer commit : Except Error Unit) :
    ((id, true) ∈ w.editor.completed ∧ saveCellEdit sql w id input writer commit = (.ok true, w)) ∨
    (∃ error, (saveCellEdit sql w id input writer commit).1 = .error error ∧
      (saveCellEdit sql w id input writer commit).2.catalogue = w.catalogue ∧
      Reconciled id w.editor (saveCellEdit sql w id input writer commit).2.editor ∧
      ((∀ s ∈ w.editor.sessions, s.1 ≠ id) → (saveCellEdit sql w id input writer commit).2 = w)) ∨
    ((saveCellEdit sql w id input writer commit).1 = .ok true ∧
      Committed sql w id input (saveCellEdit sql w id input writer commit).2) := by
  simp only [saveCellEdit]
  split
  · rename_i hdone
    obtain ⟨c, hc, hcid⟩ := List.any_eq_true.mp hdone
    simp only [Bool.and_eq_true, decide_eq_true_eq] at hcid
    refine .inl ⟨?_, rfl⟩
    rw [← hcid.1, ← hcid.2]
    exact hc
  · right
    rcases reconcile_cases hw.ids id with ⟨habsent, hreconcile⟩ | ⟨session, hsession, hreconcile⟩
    · left
      rw [hreconcile]
      simp only [editing_error habsent]
      exact ⟨editingClosed, rfl, rfl, reconciled_refl _, fun _ => rfl⟩
    · have hleases : (w.editor.setSession id session.reconcile.1).leases = w.editor.leases := by
        have := leases_reconcile hw.ids id
        rwa [hreconcile] at this
      rw [hreconcile]
      split
      · rename_i error _
        exact .inl ⟨error, rfl, rfl, reconciled_setSession hw.ids hsession, fun h => absurd rfl (h _ hsession)⟩
      · rename_i hresult
        exact .inr ⟨rfl, committed_of_save hw hsession (save_result hresult) rfl (by rw [leases_finish, hleases]) rfl⟩
      · rename_i catalogue hresult
        refine .inr ⟨rfl, committed_of_save hw hsession (save_result hresult) rfl ?_ rfl⟩
        rw [leases_finish, leases_publish, hleases]

omit [DecidableEq V] in
theorem cancelCellEdit_cases (w : World V) (id : String) :
    (cancelCellEdit w id).2 = w ∨ ((cancelCellEdit w id).1 = .ok false ∧ (∃ s ∈ w.editor.sessions, s.1 = id) ∧
      (cancelCellEdit w id).2 = { w with editor := w.editor.finish id false }) := by
  simp only [cancelCellEdit]
  split
  · exact .inl rfl
  · split
    · exact .inl rfl
    · rename_i session hediting
      exact .inr ⟨rfl, ⟨_, editing_spec hediting, rfl⟩, rfl⟩

end Save

section Run

variable {sql : Sql V}

omit [DecidableEq V] in
theorem same_of_relation {a b : Lease V} {c d : Catalogue V} {sql : Sql V} (ha : a.Good sql c) (hb : b.Good sql d)
    (h : a.relation = b.relation) : Protection.same a.target b.target = true := by
  have hschema := ha.1.1.symm.trans ((congrArg (fun r => asciiLower r.schema) h).trans hb.1.1)
  have hname := ha.1.2.symm.trans ((congrArg (fun r => asciiLower r.name) h).trans hb.1.2)
  simp [Protection.same, eqIgnoreAsciiCase, hschema, hname]

omit [DecidableEq V] in
theorem Leased.relation_ne {w : World V} (hw : Leased sql w) {a b : String × Lease V} (ha : a ∈ w.editor.leases)
    (hb : b ∈ w.editor.leases) (hid : a.1 ≠ b.1) : a.2.relation ≠ b.2.relation := by
  intro hrel
  have hsame := same_of_relation (hw.good a ha) (hw.good b hb) hrel
  have : Std.Symm fun x y : String × Lease V => Protection.same x.2.target y.2.target = false :=
    ⟨fun _ _ h => (Protection.same_comm _ _).trans h⟩
  rw [hw.apart.forall ha hb fun h => hid (congrArg Prod.fst h)] at hsame
  cases hsame

omit [DecidableEq V] in
theorem Leased.of_leases {w w' : World V} (hw : Leased sql w) (hleases : w'.editor.leases = w.editor.leases)
    (hkeep : ∀ l ∈ w.editor.leases, w'.catalogue.table? l.2.relation = w.catalogue.table? l.2.relation) :
    Leased sql w' where
  ids := hleases ▸ hw.ids
  apart := hleases ▸ hw.apart
  good l hl := by
    rw [hleases] at hl
    obtain ⟨hrelation, t, ht, hlive, hkeyed⟩ := hw.good l hl
    exact ⟨hrelation, t, ht, (hkeep l hl).trans hlive, hkeyed⟩

omit [DecidableEq V] in
theorem Leased.of_filter {w w' : World V} {id : String} (hw : Leased sql w)
    (hleases : w'.editor.leases = w.editor.leases.filter fun l => l.1 ≠ id)
    (hkeep : ∀ l ∈ w.editor.leases, l.1 ≠ id → w'.catalogue.table? l.2.relation = w.catalogue.table? l.2.relation) :
    Leased sql w' where
  ids := hleases ▸ hw.ids.sublist (List.filter_sublist.map _)
  apart := hleases ▸ hw.apart.sublist List.filter_sublist
  good l hl := by
    rw [hleases, List.mem_filter] at hl
    obtain ⟨hrelation, t, ht, hlive, hkeyed⟩ := hw.good l hl.1
    exact ⟨hrelation, t, ht, (hkeep l hl.1 (by simpa using hl.2)).trans hlive, hkeyed⟩

omit [DecidableEq V] in
theorem Leased.of_added {w w' : World V} {id : String} {lease : Lease V} (hw : Leased sql w)
    (hfresh : ∀ l ∈ w.editor.leases, l.1 ≠ id) (hcatalogue : w'.catalogue = w.catalogue)
    (hleases : w'.editor.leases = w.editor.leases ++ [(id, lease)]) (hgood : lease.Good sql w.catalogue)
    (hapart : ∀ l ∈ w.editor.leases, Protection.same l.2.target lease.target = false) : Leased sql w' where
  ids := by
    rw [hleases, List.map_append, List.nodup_append]
    refine ⟨hw.ids, List.nodup_singleton _, ?_⟩
    rintro a ha b hb rfl
    obtain ⟨l, hl, rfl⟩ := List.mem_map.mp ha
    exact hfresh l hl (List.mem_singleton.mp hb)
  apart := by
    rw [hleases, List.pairwise_append]
    exact ⟨hw.apart, List.pairwise_singleton _ _, fun l hl m hm => by rw [List.mem_singleton.mp hm]; exact hapart l hl⟩
  good := by
    rw [hleases, hcatalogue]
    exact List.forall_mem_append.mpr ⟨hw.good, List.forall_mem_singleton.mpr hgood⟩

def Live (w : World V) (id : String) : Prop := ∃ l ∈ w.editor.leases, l.1 = id

omit [DecidableEq V] in
theorem live_iff {w : World V} {id : String} : Live w id ↔ ∃ s ∈ w.editor.sessions, s.1 = id := by
  simp [Live, Editor.leases]

omit [DecidableEq V] in
theorem mem_finish {e : Editor V} {id : String} {saved : Bool} {c : String × Bool}
    (h : c ∈ (e.finish id saved).completed) : c ∈ e.completed ∨ c = (id, saved) := by
  have hmem : c ∈ e.completed ++ [(id, saved)] := by
    simp only [Editor.finish] at h
    split at h
    · exact List.mem_of_mem_drop h
    · exact h
  simpa using hmem

/-- What a call leaves behind: sessions that lived before or are new, and
completions recorded before or by this call. -/
structure Effect (sql : Sql V) (w w' : World V) (call : Call) (reply : Except Error Reply) : Prop where
  leased : Leased sql w'
  live : ∀ id, Live w' id → Live w id ∨ id ∈ call.minted
  completed : ∀ c ∈ w'.editor.completed, c ∈ w.editor.completed ∨
    (call.ends = some c.1 ∧ reply = .ok (.completed c.2) ∧ Live w c.1)
  ended : ∀ id, call.ends = some id → (∃ r, reply = .ok r) → ¬Live w' id ∧ (Live w id ∨ ∃ c ∈ w.editor.completed, c.1 = id)

theorem beginEdit_effect {w : World V} {target : ObjectTarget} {stale : Bool} { annotation : Option EditRequest}
    {setup : Except Error Unit} {id : String} (hsql : sql.Rowids) (hw : Leased sql w)
    (hfresh : ∀ l ∈ w.editor.leases, l.1 ≠ id) :
    Effect sql w (Call.run sql w (.beginEdit target stale annotation setup id)).2
      (.beginEdit target stale annotation setup id)
      (Call.run sql w (.beginEdit target stale annotation setup id)).1 := by
  obtain ⟨hcatalogue, hcompleted, hleases⟩ :=
    @beginEditor_spec _ _ sql w target stale annotation setup id hsql hw.ids hfresh
  refine ⟨?_, ?_, fun c hc => .inl (hcompleted ▸ hc), fun _ hends => by simp [Call.ends] at hends⟩
  · rcases hleases with hsame | ⟨lease, hadded, hgood, hapart⟩
    · exact hw.of_leases hsame fun l _ => congrArg (fun c => c.table? l.2.relation) hcatalogue
    · exact hw.of_added hfresh hcatalogue hadded hgood hapart
  · rintro other ⟨l, hl, rfl⟩
    rcases hleases with hsame | ⟨lease, hadded, -, -⟩
    · exact .inl ⟨l, hsame ▸ hl, rfl⟩
    · change l ∈ (beginEditor sql w target stale annotation setup id).2.editor.leases at hl
      rw [hadded] at hl
      rcases List.mem_append.mp hl with hl | hl
      · exact .inl ⟨l, hl, rfl⟩
      · exact .inr (by simp [List.mem_singleton.mp hl, Call.minted])

theorem page_effect {w : World V} {id : String} {number pageSize : Nat} {sorting : List String}
    {read : Except Error Unit} (hw : Leased sql w) :
    Effect sql w (Call.run sql w (.page id number pageSize sorting read)).2 (.page id number pageSize sorting read)
      (Call.run sql w (.page id number pageSize sorting read)).1 := by
  have hleases : (reconcileReferences w.editor id).1.leases = w.editor.leases := leases_reconcile hw.ids id
  have hcompleted : (reconcileReferences w.editor id).1.completed = w.editor.completed := by
    rcases reconcile_cases hw.ids id with ⟨-, h⟩ | ⟨_, -, h⟩
    · rw [h]
    · rw [h]
      rfl
  refine ⟨hw.of_leases hleases fun _ _ => rfl, ?_, fun c hc => .inl (hcompleted ▸ hc), fun _ hends => by
    simp [Call.ends] at hends⟩
  rintro other ⟨l, hl, rfl⟩
  exact .inl ⟨l, hleases ▸ hl, rfl⟩

theorem save_effect {w : World V} {id : String} {input : Save} {writer commit : Except Error Unit}
    (hw : Leased sql w) (hclosed : ∀ c ∈ w.editor.completed, ¬Live w c.1) :
    Effect sql w (Call.run sql w (.save id input writer commit)).2 (.save id input writer commit)
      (Call.run sql w (.save id input writer commit)).1 := by
  rcases saveCellEdit_cases hw id input writer commit with
    ⟨hdone, hsame⟩ | ⟨error, hreply, hcatalogue, hreconciled, -⟩ | ⟨hreply, hcommitted⟩
  · simp only [Call.run, hsame]
    refine ⟨hw, fun _ h => .inl h, fun c hc => .inl hc, ?_⟩
    rintro _ hends -
    obtain rfl := Option.some.inj hends
    exact ⟨hclosed _ hdone, .inr ⟨_, hdone, rfl⟩⟩
  · have hleases : (saveCellEdit sql w id input writer commit).2.editor.leases = w.editor.leases := by
      have hsame : List.Forall₂ (fun s s' : String × Session V => (s'.1, s'.2.lease) = (s.1, s.2.lease))
          w.editor.sessions (saveCellEdit sql w id input writer commit).2.editor.sessions :=
        hreconciled.2.imp fun s s' h => by rw [h.1, h.2.1]
      exact (List.forall₂_eq_eq_eq ▸ (List.forall₂_map_left_iff.mpr (List.forall₂_map_right_iff.mpr hsame.flip)))
    refine ⟨hw.of_leases hleases fun _ _ => by simp only [Call.run, hcatalogue], ?_, ?_, ?_⟩
    · rintro other ⟨l, hl, rfl⟩
      exact .inl ⟨l, hleases ▸ hl, rfl⟩
    · intro c hc
      exact .inl (hreconciled.1 ▸ hc)
    · rintro _ - ⟨r, hr⟩
      simp only [Call.run, hreply] at hr
      cases hr
  · obtain ⟨session, hsession, t, accepted, changed, -, hlive, -, -, hself, hothers⟩ := hcommitted.saved
    have hid : Live w id := live_iff.mpr ⟨_, hsession, rfl⟩
    have hlease : (id, session.lease) ∈ w.editor.leases := List.mem_map_of_mem hsession
    refine ⟨hw.of_filter hcommitted.leases fun l hl hne => hothers _ (hw.relation_ne hl hlease hne), ?_, ?_, ?_⟩
    · rintro other ⟨l, hl, rfl⟩
      simp only [Call.run, hcommitted.leases] at hl
      exact .inl ⟨l, (List.mem_filter.mp hl).1, rfl⟩
    · intro c hc
      simp only [Call.run, hcommitted.completed] at hc
      rcases mem_finish hc with hold | rfl
      · exact .inl hold
      · exact .inr ⟨rfl, by simp [Call.run, hreply, Except.map], hid⟩
    · rintro _ hends -
      obtain rfl := Option.some.inj hends
      refine ⟨?_, .inl hid⟩
      rintro ⟨l, hl, hlid⟩
      simp only [Call.run, hcommitted.leases] at hl
      simpa [hlid] using (List.mem_filter.mp hl).2

theorem cancel_effect {w : World V} {id : String} (hw : Leased sql w)
    (hclosed : ∀ c ∈ w.editor.completed, ¬Live w c.1) :
    Effect sql w (Call.run sql w (.cancel id)).2 (.cancel id) (Call.run sql w (.cancel id)).1 := by
  simp only [Call.run, cancelCellEdit]
  split
  · rename_i hdone
    obtain ⟨c, hc, hcid⟩ := List.any_eq_true.mp hdone
    simp only [Bool.and_eq_true, decide_eq_true_eq] at hcid
    refine ⟨hw, fun _ h => .inl h, fun c hc => .inl hc, ?_⟩
    rintro _ hends -
    obtain rfl := Option.some.inj hends
    exact ⟨hcid.1 ▸ hclosed c hc, .inr ⟨c, hc, hcid.1⟩⟩
  · split
    · rename_i error _
      refine ⟨hw, fun _ h => .inl h, fun c hc => .inl hc, ?_⟩
      rintro _ - ⟨r, hr⟩
      cases hr
    · rename_i session hediting
      have hid : Live w id := live_iff.mpr ⟨_, editing_spec hediting, rfl⟩
      refine ⟨hw.of_filter leases_finish fun _ _ _ => rfl, ?_, ?_, ?_⟩
      · rintro other ⟨l, hl, rfl⟩
        rw [leases_finish] at hl
        exact .inl ⟨l, (List.mem_filter.mp hl).1, rfl⟩
      · intro c hc
        rcases mem_finish hc with hold | rfl
        · exact .inl hold
        · exact .inr ⟨rfl, rfl, hid⟩
      · rintro _ hends -
        obtain rfl := Option.some.inj hends
        refine ⟨?_, .inl hid⟩
        rintro ⟨l, hl, hlid⟩
        rw [leases_finish] at hl
        simpa [hlid] using (List.mem_filter.mp hl).2

theorem run_effect {w : World V} (call : Call) (hsql : sql.Rowids) (hw : Leased sql w)
    (hfresh : ∀ id ∈ call.minted, ∀ l ∈ w.editor.leases, l.1 ≠ id)
    (hclosed : ∀ c ∈ w.editor.completed, ¬Live w c.1) :
    Effect sql w (call.run sql w).2 call (call.run sql w).1 := by
  cases call with
  | beginEdit target stale annotation setup id =>
      exact beginEdit_effect hsql hw (hfresh id (List.mem_singleton_self id))
  | page id number pageSize sorting read => exact page_effect hw
  | save id input writer commit => exact save_effect hw hclosed
  | cancel id => exact cancel_effect hw hclosed

/-- Ending a session that is not open changes nothing. -/
theorem run_ended {w : World V} {call : Call} {id : String} (hw : Leased sql w) (hends : call.ends = some id)
    (hlive : ¬Live w id) : (call.run sql w).2 = w := by
  have habsent : ∀ s ∈ w.editor.sessions, s.1 ≠ id := fun s hs h => hlive (live_iff.mpr ⟨s, hs, h⟩)
  cases call with
  | beginEdit | page => cases hends
  | save other input writer commit =>
      obtain rfl := Option.some.inj hends
      rcases saveCellEdit_cases hw other input writer commit with ⟨-, hsame⟩ | ⟨error, -, -, -, hsame⟩ | ⟨-, hcommitted⟩
      · exact congrArg Prod.snd hsame
      · exact hsame habsent
      · obtain ⟨session, hsession, -⟩ := hcommitted.saved
        exact absurd rfl (habsent _ hsession)
  | cancel other =>
      obtain rfl := Option.some.inj hends
      rcases cancelCellEdit_cases w other with hsame | ⟨-, ⟨s, hs, hid⟩, -⟩
      · exact hsame
      · exact absurd hid (habsent s hs)

def Ends (id : String) (e : Entry V) : Prop := e.call.ends = some id ∧ ∃ r, e.reply = .ok r

/-- A Save that succeeded: it repeats the answer of an earlier one, or commits. -/
def Answered (sql : Sql V) (earlier : List (Entry V)) (e : Entry V) (id : String) (input : Save) : Prop :=
  (e.after = e.before ∧ ∃ f ∈ earlier, f.call.ends = some id ∧ f.reply = .ok (.completed true)) ∨
    Committed sql e.before id input e.after

structure Invariant (sql : Sql V) (s : State V) : Prop where
  leased : Leased sql s.world
  minted : ∀ id, Live s.world id → id ∈ s.minted
  closed : ∀ c ∈ s.world.editor.completed, ¬Live s.world c.1 ∧ c.1 ∈ s.minted
  recorded : ∀ c ∈ s.world.editor.completed,
    ∃ e ∈ s.log, e.call.ends = some c.1 ∧ e.reply = .ok (.completed c.2)
  entries : ∀ e ∈ s.log, Leased sql e.before ∧ e.call.run sql e.before = (e.reply, e.after)
  ended : ∀ e ∈ s.log, ∀ id, Ends id e → ¬Live s.world id ∧ id ∈ s.minted
  final : ∀ {before first middle second after id}, s.log = before ++ first :: (middle ++ second :: after) →
    Ends id first → second.call.ends = some id → second.after = second.before
  answered : ∀ {before e after id input writer commit}, s.log = before ++ e :: after →
    e.call = .save id input writer commit → (∃ r, e.reply = .ok r) → Answered sql before e id input

theorem save_answered {s : State V} {id : String} {input : Save} {writer commit : Except Error Unit} {e : Entry V}
    (hs : Invariant sql s) (hcall : e.call = .save id input writer commit) (hbefore : e.before = s.world)
    (hrun : e.call.run sql e.before = (e.reply, e.after)) (hreply : ∃ r, e.reply = .ok r) :
    Answered sql s.log e id input := by
  obtain ⟨r, hr⟩ := hreply
  rw [hcall, hbefore] at hrun
  obtain ⟨hfst, hsnd⟩ := Prod.mk.inj hrun
  rcases saveCellEdit_cases hs.leased id input writer commit with
    ⟨hdone, hsame⟩ | ⟨error, herror, -⟩ | ⟨-, hcommitted⟩
  · refine .inl ⟨?_, hs.recorded _ hdone⟩
    rw [hbefore, ← hsnd]
    exact congrArg Prod.snd hsame
  · rw [herror, hr] at hfst
    cases hfst
  · right
    rw [hbefore, ← hsnd]
    exact hcommitted

theorem invariant_call {s : State V} {call : Call} (hsql : sql.Rowids) (hs : Invariant sql s)
    (hfresh : ∀ id ∈ call.minted, id ∉ s.minted) : Invariant sql {
      world := (call.run sql s.world).2
      minted := call.minted ++ s.minted
      log := s.log ++ [⟨call, (call.run sql s.world).1, s.world, (call.run sql s.world).2⟩] } := by
  have heffect := run_effect call hsql hs.leased
    (fun id hid l hl heq => hfresh id hid (hs.minted id ⟨l, hl, heq⟩)) fun c hc => (hs.closed c hc).1
  have hdead : ∀ {id}, ¬Live s.world id → id ∈ s.minted → ¬Live (call.run sql s.world).2 id := by
    intro id hlive hid hafter
    rcases heffect.live id hafter with hbefore | hnew
    · exact hlive hbefore
    · exact hfresh id hnew hid
  constructor
  case leased => exact heffect.leased
  case minted =>
    intro id hid
    rcases heffect.live id hid with hbefore | hnew
    · exact List.mem_append_right _ (hs.minted id hbefore)
    · exact List.mem_append_left _ hnew
  case closed =>
    intro c hc
    rcases heffect.completed c hc with hold | ⟨hends, hreply, hlive⟩
    · exact ⟨hdead (hs.closed c hold).1 (hs.closed c hold).2, List.mem_append_right _ (hs.closed c hold).2⟩
    · exact ⟨(heffect.ended c.1 hends ⟨_, hreply⟩).1, List.mem_append_right _ (hs.minted c.1 hlive)⟩
  case recorded =>
    intro c hc
    rcases heffect.completed c hc with hold | ⟨hends, hreply, -⟩
    · obtain ⟨e, he, hrest⟩ := hs.recorded c hold
      exact ⟨e, List.mem_append_left _ he, hrest⟩
    · exact ⟨_, List.mem_append_right _ (List.mem_singleton_self _), hends, hreply⟩
  case entries => exact List.forall_mem_append.mpr ⟨hs.entries, List.forall_mem_singleton.mpr ⟨hs.leased, rfl⟩⟩
  case ended =>
    intro e he id hid
    rcases List.mem_append.mp he with hold | hnew
    · obtain ⟨hlive, hmem⟩ := hs.ended e hold id hid
      exact ⟨hdead hlive hmem, List.mem_append_right _ hmem⟩
    · obtain rfl := List.mem_singleton.mp hnew
      obtain ⟨hlive, hbefore⟩ := heffect.ended id hid.1 hid.2
      refine ⟨hlive, List.mem_append_right _ ?_⟩
      rcases hbefore with hbefore | ⟨c, hc, rfl⟩
      · exact hs.minted id hbefore
      · exact (hs.closed c hc).2
  case final =>
    intro before first middle second after id hlog hfirst hsecond
    rw [← List.cons_append, ← List.append_assoc] at hlog
    rcases concat_eq_append_cons hlog with ⟨hold, rfl, -⟩ | ⟨rest, -, hold⟩
    · have hmem : first ∈ s.log := hold ▸ List.mem_append_right _ List.mem_cons_self
      exact run_ended hs.leased hsecond (hs.ended first hmem id hfirst).1
    · rw [List.append_assoc, List.cons_append] at hold
      exact hs.final hold hfirst hsecond
  case answered =>
    intro before e after id input writer commit hlog hcall hreply
    rcases concat_eq_append_cons hlog with ⟨rfl, rfl, -⟩ | ⟨rest, -, hold⟩
    · exact save_answered hs hcall rfl rfl hreply
    · exact hs.answered hold hcall hreply

theorem invariant_write {s : State V} {catalogue : Catalogue V} {renames : List Rename} (hs : Invariant sql s)
    (hguard : ∀ session ∈ s.world.editor.sessions,
      catalogue.table? session.2.relation = s.world.catalogue.table? session.2.relation) :
    Invariant sql { s with world := ⟨catalogue, publish s.world.editor renames⟩ } := by
  have hleases : (publish s.world.editor renames).leases = s.world.editor.leases := leases_publish renames
  have hlive : ∀ id, Live ⟨catalogue, publish s.world.editor renames⟩ id ↔ Live s.world id := by
    intro id
    simp only [Live, hleases]
  refine { hs with leased := ?_, minted := ?_, closed := ?_, ended := ?_ }
  · refine hs.leased.of_leases hleases fun l hl => ?_
    obtain ⟨session, hsession, rfl⟩ := List.mem_map.mp hl
    exact hguard session hsession
  · exact fun id hid => hs.minted id ((hlive id).mp hid)
  · exact fun c hc => ⟨fun h => (hs.closed c hc).1 ((hlive c.1).mp h), (hs.closed c hc).2⟩
  · exact fun e he id hid => ⟨fun h => (hs.ended e he id hid).1 ((hlive id).mp h), (hs.ended e he id hid).2⟩

theorem invariant_step {s t : State V} {e : Event V} (hsql : sql.Rowids) (hs : Invariant sql s)
    (h : step sql s e = some t) : Invariant sql t := by
  cases e with
  | call call =>
      simp only [step, Option.ite_none_right_eq_some, Option.some.injEq] at h
      obtain ⟨hfresh, rfl⟩ := h
      exact invariant_call hsql hs hfresh
  | write catalogue renames =>
      simp only [step, Option.ite_none_right_eq_some, Option.some.injEq] at h
      obtain ⟨hguard, rfl⟩ := h
      exact invariant_write hs hguard

/-- A project whose editor has not been used. -/
def Initial (s : State V) : Prop := s.world.editor = ⟨[], []⟩ ∧ s.log = []

theorem Initial.invariant {s : State V} (h : Initial s) : Invariant sql s := by
  obtain ⟨heditor, hlog⟩ := h
  constructor
  case leased => exact ⟨by simp [heditor, Editor.leases], by simp [heditor, Editor.leases], by simp [heditor, Editor.leases]⟩
  case minted => simp [Live, heditor, Editor.leases]
  case closed => simp [heditor]
  case recorded => simp [heditor]
  case entries => simp [hlog]
  case ended => simp [hlog]
  case final =>
    intro _ _ _ _ _ _ hsplit
    simp [hlog] at hsplit
  case answered =>
    intro _ _ _ _ _ _ _ hsplit
    simp [hlog] at hsplit

/-- In every order of calls a session changes its table in at most one Save,
which writes exactly the accepted edits; a Save that fails leaves tables and
completions alone and the session open as it was but for its notifications;
after the end of a session nothing done to it changes anything. -/
theorem session_commits_once {s t : State V} {es : List (Event V)} (hsql : sql.Rowids) (h0 : Initial s)
    (h : exec (step sql) s es = some t) :
    (∀ before first middle second after id i₁ w₁ c₁ i₂ w₂ c₂,
      t.log = before ++ first :: (middle ++ second :: after) → first.call = .save id i₁ w₁ c₁ →
      second.call = .save id i₂ w₂ c₂ → first.after.catalogue ≠ first.before.catalogue →
      second.after.catalogue = second.before.catalogue) ∧
    (∀ e ∈ t.log, ∀ id input writer commit error, e.call = .save id input writer commit → e.reply = .error error →
      e.after.catalogue = e.before.catalogue ∧ Reconciled id e.before.editor e.after.editor) ∧
    (∀ before e after id input writer commit r, t.log = before ++ e :: after →
      e.call = .save id input writer commit → e.reply = .ok r → Answered sql before e id input) ∧
    (∀ before first middle second after id, t.log = before ++ first :: (middle ++ second :: after) →
      Ends id first → second.call.ends = some id → second.after = second.before) := by
  have ht : Invariant sql t := exec_invariant (fun hs h => invariant_step hsql hs h) h0.invariant h
  have hfailed : ∀ e ∈ t.log, ∀ id input writer commit error, e.call = .save id input writer commit →
      e.reply = .error error → e.after.catalogue = e.before.catalogue ∧ Reconciled id e.before.editor e.after.editor := by
    intro e he id input writer commit error hcall hreply
    obtain ⟨hleased, hrun⟩ := ht.entries e he
    rw [hcall] at hrun
    obtain ⟨hfst, hsnd⟩ := Prod.mk.inj hrun
    rcases saveCellEdit_cases hleased id input writer commit with
      ⟨-, hsame⟩ | ⟨_, -, hcatalogue, hreconciled, -⟩ | ⟨hok, -⟩
    · rw [hsame, hreply] at hfst
      cases hfst
    · exact ⟨hsnd ▸ hcatalogue, hsnd ▸ hreconciled⟩
    · rw [hok, hreply] at hfst
      cases hfst
  refine ⟨?_, hfailed, ?_, ?_⟩
  · intro before first middle second after id i₁ w₁ c₁ i₂ w₂ c₂ hlog hfirst hsecond hchanged
    have hreply : ∃ r, first.reply = .ok r := by
      cases hr : first.reply with
      | ok r => exact ⟨r, rfl⟩
      | error error => exact absurd (hfailed first (hlog ▸ by simp) id i₁ w₁ c₁ error hfirst hr).1 hchanged
    exact congrArg World.catalogue (ht.final hlog ⟨by rw [hfirst]; rfl, hreply⟩ (by rw [hsecond]; rfl))
  · intro before e after id input writer commit r hlog hcall hreply
    exact ht.answered hlog hcall ⟨r, hreply⟩
  · intro before first middle second after id hlog hfirst hsecond
    exact ht.final hlog hfirst hsecond

end Run

/-- Values of two types. -/
inductive Value
  | null
  | bigint (n : Nat)
  | text (s : String)
  deriving DecidableEq

namespace Value

def digits (s : String) : Option Nat :=
  if s.toList ≠ [] ∧ s.toList.all Char.isDigit then
    some (s.toList.foldl (fun n c => 10 * n + (c.toNat - '0'.toNat)) 0)
  else none

def sql : Sql Value where
  cast ty text :=
    match text with
    | none => .ok .null
    | some s =>
        if ty = "BIGINT" then
          match digits s with
          | some n => .ok (.bigint n)
          | none => .error (sqlError "Conversion Error")
        else .ok (.text s)
  text
    | .null => none
    | .bigint n => some (toString n)
    | .text s => some s
  compare := id
  bigint := .bigint
  default _ _ := .ok .null
  constraints _ _ := .ok ()
  moves _ _ := false
  fold s := s

theorem rowids : sql.Rowids := ⟨fun _ => rfl, fun _ _ => Value.bigint.inj⟩

end Value

def docs : Table Value where
  base := true
  columns := [("text", "VARCHAR"), ("label", "VARCHAR")]
  rows := [⟨0, [("text", .text "a"), ("label", .null)]⟩, ⟨1, [("text", .text "b"), ("label", .null)]⟩]
  next := 2
  shaped := by decide
  below := by decide
  distinct := by decide

def codes : Table Value where
  base := true
  columns := [("code", "VARCHAR"), ("description", "VARCHAR")]
  rows := [⟨0, [("code", .text "pro"), ("description", .text "")]⟩]
  next := 1
  shaped := by decide
  below := by decide
  distinct := by decide

def codesRenamed : Table Value where
  base := true
  columns := [("tag", "VARCHAR"), ("description", "VARCHAR")]
  rows := [⟨0, [("tag", .text "pro"), ("description", .text "")]⟩]
  next := 1
  shaped := by decide
  below := by decide
  distinct := by decide

def catalogue (book : Table Value) : Catalogue Value :=
  ⟨[(⟨"data", "docs"⟩, docs), (⟨"data", "codes"⟩, book)], ["docs", "codes"]⟩

def project : State Value := ⟨⟨catalogue codes, ⟨[], []⟩⟩, [], []⟩

def edits : Save := ⟨[⟨"0", "label", some "pro"⟩], ["1"], [⟨[("text", some "c")]⟩]⟩

def unknownEdit : Save := ⟨[⟨"0", "other", some "pro"⟩], [], []⟩

def labels : EditRequest :=
  .manual ⟨⟨none, "docs"⟩, "text", "label", none, some ⟨⟨none, "codes"⟩, "code", "description"⟩⟩

def retriedSave : List (Event Value) :=
  [.call (.beginEdit ⟨none, "docs"⟩ false none (.ok ()) "s"), .call (.save "s" edits (.ok ()) (.ok ())),
    .call (.save "s" edits (.ok ()) (.ok ()))]

def failedSave : List (Event Value) :=
  [.call (.beginEdit ⟨none, "docs"⟩ false (some labels) (.ok ()) "s"),
    .write (catalogue codesRenamed) [.column ⟨"data", "codes"⟩ "code" "tag"],
    .call (.save "s" unknownEdit (.ok ()) (.ok ()))]

theorem retried_save_commits_once : ∃ t begun first second, exec (step Value.sql) project retriedSave = some t ∧
    t.log = [begun, first, second] ∧ first.after.catalogue ≠ first.before.catalogue ∧
    second.after.catalogue = second.before.catalogue := by
  have hrun : (exec (step Value.sql) project retriedSave).map (fun t => t.log.map fun e =>
      (e.call, decide (e.after.catalogue = e.before.catalogue))) =
        some [(.beginEdit ⟨none, "docs"⟩ false none (.ok ()) "s", true), (.save "s" edits (.ok ()) (.ok ()), false),
          (.save "s" edits (.ok ()) (.ok ()), true)] := by decide
  obtain ⟨t, ht, hlog⟩ := Option.map_eq_some_iff.mp hrun
  obtain ⟨begun, first, second, hthree⟩ := List.length_eq_three.mp (by simpa using congrArg List.length hlog)
  simp only [hthree, List.map_cons, List.map_nil, List.cons.injEq, Prod.mk.injEq, decide_eq_false_iff_not] at hlog
  obtain ⟨-, ⟨hfirst, hchanged⟩, ⟨hsecond, -⟩, -⟩ := hlog
  obtain ⟨honce, -⟩ := session_commits_once Value.rowids ⟨rfl, rfl⟩ ht
  exact ⟨t, begun, first, second, ht, hthree, hchanged,
    honce [begun] first [] second [] "s" edits _ _ edits _ _ hthree hfirst hsecond hchanged⟩

/-- A failing Save that changes its session: it read a rename. -/
theorem failed_save_follows_rename : ∃ t e, exec (step Value.sql) project failedSave = some t ∧ e ∈ t.log ∧
    e.call = .save "s" unknownEdit (.ok ()) (.ok ()) ∧
    e.reply = .error (.invalid "Column other is not editable") ∧
    e.after.editor.sessions ≠ e.before.editor.sessions := by
  have hrun : (exec (step Value.sql) project failedSave).map (fun t => t.log.map fun e =>
      (e.call, e.reply, decide (e.after.editor.sessions = e.before.editor.sessions))) =
        some [(.beginEdit ⟨none, "docs"⟩ false (some labels) (.ok ()) "s", .ok .opened, false),
          (.save "s" unknownEdit (.ok ()) (.ok ()), .error (.invalid "Column other is not editable"), false)] := by
    decide
  obtain ⟨t, ht, hlog⟩ := Option.map_eq_some_iff.mp hrun
  obtain ⟨e, he, hentry⟩ := List.mem_map.mp (hlog ▸ List.mem_cons_of_mem _ (List.mem_singleton_self _))
  simp only [Prod.mk.injEq, decide_eq_false_iff_not] at hentry
  exact ⟨t, e, ht, he, hentry⟩

end Wordflow.CellEdit
