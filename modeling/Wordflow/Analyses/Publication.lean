import Wordflow.Analyses.Store
import Wordflow.Library.Run

namespace Wordflow.Analyses

open Library Library.Fallible Library.Run Objects

inductive Operation
  | createTab (tab : Tab)
  | beginRun (tabId : Uuid) (kind : String) (request : Json) (id : Uuid)
  | publish (accepted : AcceptedAnalysis) (version : Int) (effects : List Effect) (payload : Json)
  | clear (tabId : Uuid)
  | delete (tabId : Uuid)
  deriving DecidableEq

namespace Operation

def run (db : Database) : Operation → Except Error Database
  | .createTab tab => insertTab db tab
  | .beginRun tabId kind request id => beginAnalysisRun db tabId kind request id
  | .publish accepted version effects payload => publishAnalysisVersion db accepted version effects payload
  | .clear tabId => clearOrDelete db tabId false
  | .delete tabId => clearOrDelete db tabId true

/-- The UUIDs an operation draws for rows it inserts. -/
def minted : Operation → List Uuid
  | .createTab tab => [tab.id]
  | .beginRun _ _ _ id => [id]
  | .publish _ _ effects _ => effects.filterMap Effect.artifact
  | .clear _ | .delete _ => []

end Operation

/-- An operation and how its transaction ends: `commit` fails when the caller
was cancelled or the database refuses. -/
structure Event where
  operation : Operation
  commit : Except Error Unit
  deriving DecidableEq

abbrev Entry := Operation × Except Error Unit

/-- `log` holds every operation so far with what it returned, oldest first. -/
structure State where
  db : Database
  minted : List Uuid
  log : List Entry
  deriving DecidableEq

def transact (db : Database) (e : Event) : Except Error Database := do
  let changed ← e.operation.run db
  e.commit
  return changed

/-- A transaction that fails is rolled back. UUIDs are never drawn twice. -/
def step (s : State) (e : Event) : Option State :=
  if ∀ id ∈ e.operation.minted, id ∉ s.minted then
    some {
      db := (transact s.db e).toOption.getD s.db
      minted := e.operation.minted ++ s.minted
      log := s.log ++ [(e.operation, (transact s.db e).map fun _ => ())] }
  else none

def Publishes (accepted : AcceptedAnalysis) (entry : Entry) : Prop :=
  (∃ version effects payload, entry.1 = .publish accepted version effects payload) ∧ entry.2 = .ok ()

def Clears (tabId : Uuid) (entry : Entry) : Prop := entry.1 = .clear tabId ∧ entry.2 = .ok ()

def Begins (id : Uuid) (entry : Entry) : Prop :=
  (∃ tabId kind request, entry.1 = .beginRun tabId kind request id) ∧ entry.2 = .ok ()

/-- A later run of the tab or its deletion. -/
def Replaces (tabId : Uuid) (entry : Entry) : Prop :=
  ((∃ kind request id, entry.1 = .beginRun tabId kind request id) ∨ entry.1 = .delete tabId) ∧ entry.2 = .ok ()

def Registers (artifact : Uuid) (entry : Entry) : Prop :=
  ∃ accepted version effects payload name, entry.1 = .publish accepted version effects payload ∧
    .registerTable artifact name ∈ effects

theorem transact_spec {db changed : Database} {e : Event} (h : transact db e = .ok changed) :
    e.operation.run db = .ok changed := by
  obtain ⟨d, hd, h⟩ := bind_eq_ok.mp h
  obtain ⟨-, -, h⟩ := bind_eq_ok.mp h
  cases h
  exact hd

/-- A step either fails and only writes the log, or its operation succeeds. -/
theorem step_cases {s t : State} {e : Event} (h : step s e = some t) :
    (∀ id ∈ e.operation.minted, id ∉ s.minted) ∧ t.minted = e.operation.minted ++ s.minted ∧
      ((∃ error, t.db = s.db ∧ t.log = s.log ++ [(e.operation, .error error)]) ∨
        (e.operation.run s.db = .ok t.db ∧ t.log = s.log ++ [(e.operation, .ok ())])) := by
  simp only [step, Option.ite_none_right_eq_some, Option.some.injEq] at h
  obtain ⟨hfresh, rfl⟩ := h
  refine ⟨hfresh, rfl, ?_⟩
  cases ht : transact s.db e with
  | error error => exact .inl ⟨error, rfl, rfl⟩
  | ok changed => exact .inr ⟨transact_spec ht, rfl⟩

theorem write_wellFormed {db written : Database} {id : Uuid} {effect : Effect} (h : write id db effect = .ok written)
    (hdb : WellFormed db ∧ ∃ a ∈ db.analyses, a.id = id) :
    (WellFormed written ∧ ∃ a ∈ written.analyses, a.id = id) ∧ written.analyses = db.analyses := by
  obtain ⟨hdb, howner⟩ := hdb
  cases effect with
  | create artifact kind =>
      obtain ⟨-, h⟩ := guard_eq_ok.mp h
      cases h
      exact ⟨⟨{ hdb with }, howner⟩, rfl⟩
  | registerTable artifact name =>
      have hkeep := hdb.insertArtifact h howner fun n hn => (Storage.relation.inj hn).symm
      obtain ⟨-, rfl⟩ := insertArtifact_spec h
      exact ⟨⟨hkeep, howner⟩, rfl⟩
  | registerBlob artifact name mediaType content =>
      have hkeep := hdb.insertArtifact h howner fun n hn => nomatch hn
      obtain ⟨-, rfl⟩ := insertArtifact_spec h
      exact ⟨⟨hkeep, howner⟩, rfl⟩
  | fail error => cases h

theorem writes_wellFormed {db written : Database} {id : Uuid} {effects : List Effect}
    (h : effects.foldlM (write id) db = .ok written) (hdb : WellFormed db) (howner : ∃ a ∈ db.analyses, a.id = id) :
    WellFormed written ∧ written.analyses = db.analyses := by
  have hkeep := foldlM_preserves
    (fun d => (WellFormed d ∧ ∃ a ∈ d.analyses, a.id = id) ∧ d.analyses = db.analyses) h ⟨⟨hdb, howner⟩, rfl⟩
    fun _ hd hw => by
      obtain ⟨hnext, hsame⟩ := write_wellFormed hw hd.1
      exact ⟨hnext, hsame.trans hd.2⟩
  exact ⟨hkeep.1.1, hkeep.2⟩

theorem run_wellFormed {db changed : Database} {op : Operation} (hdb : WellFormed db)
    (h : op.run db = .ok changed) : WellFormed changed := by
  cases op with
  | createTab tab => exact hdb.insertTab h
  | beginRun tabId kind request id =>
      obtain ⟨removed, hremoved, hinsert⟩ := beginAnalysisRun_spec hdb h
      exact (hremoved.wellFormed hdb).insertAnalysis hinsert
  | publish accepted version effects payload =>
      obtain ⟨⟨a, ha, hid, -⟩, written, hwritten, rfl⟩ := publishAnalysisVersion_spec hdb h
      exact (writes_wellFormed hwritten hdb ⟨a, ha, hid⟩).1.setResult _ _
  | clear tabId =>
      rcases clear_spec hdb h with rfl | ⟨a, -, -, rfl⟩
      · exact hdb
      · exact (hdb.withoutArtifacts _).setResult _ _
  | delete tabId =>
      obtain ⟨removed, hremoved, rfl⟩ := delete_spec hdb h
      exact (hremoved.wellFormed hdb).withoutTab _

theorem mem_setResult {db : Database} {id : Uuid} {result : Option Output} {a : Analysis}
    (h : a ∈ (setResult db id result).analyses) :
    ∃ old ∈ db.analyses, old.id = a.id ∧ old.tabId = a.tabId ∧
      a.result = if a.id = id then result else old.result := by
  obtain ⟨old, hold, rfl⟩ := List.mem_map.mp h
  refine ⟨old, hold, ?_⟩
  by_cases hid : old.id = id <;> simp [hid]

/-- Rows of `wordflow.analyses` are new, or keep their tab, and keep their
result unless their tab is cleared. -/
theorem run_analyses {db changed : Database} {op : Operation} (hdb : WellFormed db) (h : op.run db = .ok changed)
    {a : Analysis} (ha : a ∈ changed.analyses) :
    a.id ∈ op.minted ∨ ∃ old ∈ db.analyses, old.id = a.id ∧ old.tabId = a.tabId ∧
      (old.result.isSome = true → op = .clear a.tabId ∨ a.result.isSome = true) := by
  have hkept : ∀ {d : Database}, a ∈ d.analyses → (∀ b ∈ d.analyses, b ∈ db.analyses) →
      ∃ old ∈ db.analyses, old.id = a.id ∧ old.tabId = a.tabId ∧
        (old.result.isSome = true → op = .clear a.tabId ∨ a.result.isSome = true) :=
    fun ha hsub => ⟨a, hsub a ha, rfl, rfl, .inr⟩
  cases op with
  | createTab tab =>
      obtain ⟨-, h⟩ := guard_eq_ok.mp h
      cases h
      exact .inr (hkept ha fun _ h => h)
  | beginRun tabId kind request id =>
      obtain ⟨removed, hremoved, hinsert⟩ := beginAnalysisRun_spec hdb h
      obtain ⟨-, rfl⟩ := insertAnalysis_spec hinsert
      rcases List.mem_append.mp ha with hold | hnew
      · exact .inr (hkept hold fun _ hb => (hremoved.analyses hdb hb).1)
      · exact .inl (by simp [List.mem_singleton.mp hnew, Operation.minted])
  | publish accepted version effects payload =>
      obtain ⟨⟨b, hb, hbid, -⟩, written, hwritten, rfl⟩ := publishAnalysisVersion_spec hdb h
      obtain ⟨old, hold, hid, htab, hresult⟩ := mem_setResult ha
      rw [(writes_wellFormed hwritten hdb ⟨b, hb, hbid⟩).2] at hold
      refine .inr ⟨old, hold, hid, htab, fun hsome => .inr ?_⟩
      rw [hresult]
      split
      · rfl
      · exact hsome
  | clear tabId =>
      rcases clear_spec hdb h with rfl | ⟨b, hb, hbtab, rfl⟩
      · exact .inr (hkept ha fun _ h => h)
      · obtain ⟨old, hold, hid, htab, hresult⟩ := mem_setResult ha
        refine .inr ⟨old, hold, hid, htab, fun hsome => ?_⟩
        by_cases hsame : a.id = b.id
        · have heq := List.inj_on_of_nodup_map hdb.analyses hold hb (hid.trans hsame)
          left
          rw [← htab, heq, hbtab]
        · right
          rw [hresult, if_neg hsame]
          exact hsome
  | delete tabId =>
      obtain ⟨removed, hremoved, rfl⟩ := delete_spec hdb h
      exact .inr (hkept ha fun _ hb => (hremoved.analyses hdb hb).1)

/-- The relation of an artifact exists only while its analysis owns it. -/
def Held (db : Database) (analysisId artifact : Uuid) : Prop :=
  db.hasRelation (artifactTable artifact) → Owns db analysisId (artifactTable artifact)

theorem Held.withoutArtifacts {db : Database} {analysisId artifact : Uuid} (h : Held db analysisId artifact)
    (id : Uuid) : Held (withoutArtifacts db id) analysisId artifact := by
  rintro ⟨r, hr, hname⟩
  obtain ⟨hmem, hnot⟩ := List.mem_filter.mp hr
  obtain ⟨row, hrow, hanalysis, hstorage⟩ := h ⟨r, hmem, hname⟩
  refine ⟨row, List.mem_filter.mpr ⟨hrow, ?_⟩, hanalysis, hstorage⟩
  have hnot : ¬Owns db id r.1 := by simpa using hnot
  rw [hname] at hnot
  exact decide_eq_true fun hid => hnot ⟨row, hrow, hid, hstorage⟩

theorem Held.removed {db removed : Database} {analysisId artifact tabId : Uuid} (h : Held db analysisId artifact)
    (hremoved : Removed db tabId removed) : Held removed analysisId artifact := by
  rcases hremoved with ⟨rfl, -⟩ | ⟨previous, -, -, rfl⟩
  · exact h
  · exact h.withoutArtifacts previous.id

theorem Owns.insertArtifact {db inserted : Database} {row : Artifact} {analysisId : Uuid} {name : String}
    (h : Owns db analysisId name) (hinsert : insertArtifact db row = .ok inserted) : Owns inserted analysisId name := by
  obtain ⟨-, rfl⟩ := insertArtifact_spec hinsert
  obtain ⟨r, hr, hrow⟩ := h
  exact ⟨r, List.mem_append_left _ hr, hrow⟩

theorem Held.write {db written : Database} {analysisId artifact id : Uuid} {effect : Effect}
    (h : Held db analysisId artifact) (hfresh : effect.artifact ≠ some artifact)
    (hwrite : write id db effect = .ok written) : Held written analysisId artifact := by
  have hinsert : ∀ {row : Artifact}, insertArtifact db row = .ok written → Held written analysisId artifact := by
    intro row hrow hrel
    refine (h ?_).insertArtifact hrow
    obtain ⟨-, rfl⟩ := insertArtifact_spec hrow
    exact hrel
  cases effect with
  | create other kind =>
      obtain ⟨-, hwrite⟩ := guard_eq_ok.mp hwrite
      cases hwrite
      rintro ⟨r, hr, hname⟩
      rcases List.mem_append.mp hr with hold | hnew
      · exact h ⟨r, hold, hname⟩
      · rw [List.mem_singleton.mp hnew] at hname
        exact absurd (congrArg some (artifactTable_injective hname)) hfresh
  | registerTable other name => exact hinsert hwrite
  | registerBlob other name mediaType content => exact hinsert hwrite
  | fail error => cases hwrite

theorem run_held {db changed : Database} {op : Operation} {analysisId artifact : Uuid} (hdb : WellFormed db)
    (h : op.run db = .ok changed) (hheld : Held db analysisId artifact) (hfresh : artifact ∉ op.minted) :
    Held changed analysisId artifact := by
  cases op with
  | createTab tab =>
      obtain ⟨-, h⟩ := guard_eq_ok.mp h
      cases h
      exact hheld
  | beginRun tabId kind request id =>
      obtain ⟨removed, hremoved, hinsert⟩ := beginAnalysisRun_spec hdb h
      obtain ⟨-, rfl⟩ := insertAnalysis_spec hinsert
      have hrest : Held removed analysisId artifact := hheld.removed hremoved
      exact hrest
  | publish accepted version effects payload =>
      obtain ⟨-, written, hwritten, rfl⟩ := publishAnalysisVersion_spec hdb h
      have hrest : Held written analysisId artifact := by
        refine foldlM_preserves (fun d => Held d analysisId artifact) hwritten hheld ?_
        intro effect d d' hmem hd hwrite
        refine hd.write (fun heq => hfresh ?_) hwrite
        exact List.mem_filterMap.mpr ⟨effect, hmem, heq⟩
      exact hrest
  | clear tabId =>
      rcases clear_spec hdb h with rfl | ⟨a, -, -, rfl⟩
      · exact hheld
      · exact hheld.withoutArtifacts a.id
  | delete tabId =>
      obtain ⟨removed, hremoved, rfl⟩ := delete_spec hdb h
      have hrest : Held removed analysisId artifact := hheld.removed hremoved
      exact hrest

theorem writes_own {db written : Database} {id : Uuid} {effects : List Effect}
    (h : effects.foldlM (write id) db = .ok written) {artifact : Uuid} {name : String}
    (hmem : .registerTable artifact name ∈ effects) : Owns written id (artifactTable artifact) := by
  have hall := foldlM_relates (fun before d => ∀ artifact name, Effect.registerTable artifact name ∈ before →
    Owns d id (artifactTable artifact)) h (by simp) ?_
  · exact hall artifact name hmem
  · intro before effect d d' _ hd hwrite artifact name hin
    rcases List.mem_append.mp hin with hin | hin
    · have howns := hd artifact name hin
      cases effect with
      | create other kind =>
          obtain ⟨-, hwrite⟩ := guard_eq_ok.mp hwrite
          cases hwrite
          exact howns
      | registerTable other name => exact howns.insertArtifact hwrite
      | registerBlob other name mediaType content => exact howns.insertArtifact hwrite
      | fail error => cases hwrite
    · obtain rfl := List.mem_singleton.mp hin
      obtain ⟨-, rfl⟩ := insertArtifact_spec hwrite
      exact ⟨_, List.mem_append_right _ (List.mem_singleton_self _), rfl, rfl⟩

/-- A run that has published keeps its result. -/
def Spent (db : Database) (accepted : AcceptedAnalysis) : Prop :=
  ∀ a ∈ db.analyses, a.id = accepted.id → a.tabId = accepted.tabId ∧ a.result.isSome = true

def Detached (db : Database) (id tabId : Uuid) : Prop := ∀ a ∈ db.analyses, a.id = id → a.tabId ≠ tabId

structure Invariant (s : State) : Prop where
  wellFormed : WellFormed s.db
  known : ∀ a ∈ s.db.analyses, a.id ∈ s.minted
  logged : ∀ entry ∈ s.log, ∀ id ∈ entry.1.minted, id ∈ s.minted
  spent : ∀ {before entry after accepted}, s.log = before ++ entry :: after → Publishes accepted entry →
    (∀ c ∈ after, ¬Clears accepted.tabId c) → accepted.id ∈ s.minted ∧ Spent s.db accepted
  detached : ∀ {before entry after id tabId}, s.log = before ++ entry :: after → (∃ b ∈ before, Begins id b) →
    Replaces tabId entry → Detached s.db id tabId
  held : ∀ entry ∈ s.log, ∀ accepted, Publishes accepted entry → ∀ artifact, Registers artifact entry →
    Held s.db accepted.id artifact
  once : ∀ {before first middle second after accepted}, s.log = before ++ first :: (middle ++ second :: after) →
    Publishes accepted first → Publishes accepted second → ∃ c ∈ middle, Clears accepted.tabId c
  never : ∀ {before first middle second after accepted}, s.log = before ++ first :: (middle ++ second :: after) →
    (∃ b ∈ before, Begins accepted.id b) → Replaces accepted.tabId first → ¬Publishes accepted second

theorem Publishes.run {s t : State} {op : Operation} {accepted : AcceptedAnalysis}
    (h : Publishes accepted (op, .ok ())) (hs : WellFormed s.db) (hrun : op.run s.db = .ok t.db) :
    (∃ a ∈ s.db.analyses, a.id = accepted.id ∧ a.tabId = accepted.tabId ∧ a.result = none) ∧
      ∃ version effects payload, op = .publish accepted version effects payload := by
  obtain ⟨⟨version, effects, payload, rfl⟩, -⟩ := h
  exact ⟨(publishAnalysisVersion_spec hs hrun).1, version, effects, payload, rfl⟩

theorem Spent.run {db changed : Database} {op : Operation} {accepted : AcceptedAnalysis} (hdb : WellFormed db)
    (h : op.run db = .ok changed) (hspent : Spent db accepted) (hfresh : accepted.id ∉ op.minted)
    (hclear : op ≠ .clear accepted.tabId) : Spent changed accepted := by
  intro a ha hid
  rcases run_analyses hdb h ha with hnew | ⟨old, hold, hsame, htab, hresult⟩
  · exact absurd (hid ▸ hnew) hfresh
  · obtain ⟨holdTab, hsome⟩ := hspent old hold (hsame.trans hid)
    have haTab : a.tabId = accepted.tabId := htab.symm.trans holdTab
    exact ⟨haTab, (hresult hsome).resolve_left (haTab ▸ hclear)⟩

theorem Spent.publish {db changed : Database} {accepted : AcceptedAnalysis} {version : Int} {effects : List Effect}
    {payload : Json} (hdb : WellFormed db)
    (h : publishAnalysisVersion db accepted version effects payload = .ok changed) : Spent changed accepted := by
  obtain ⟨⟨b, hb, hbid, hbtab, -⟩, written, hwritten, rfl⟩ := publishAnalysisVersion_spec hdb h
  intro a ha hid
  obtain ⟨old, hold, hsame, htab, hresult⟩ := mem_setResult ha
  rw [(writes_wellFormed hwritten hdb ⟨b, hb, hbid⟩).2] at hold
  have heq := List.inj_on_of_nodup_map hdb.analyses hold hb ((hsame.trans hid).trans hbid.symm)
  exact ⟨htab.symm.trans (heq ▸ hbtab), by simp [hresult, hid]⟩

theorem Detached.run {db changed : Database} {op : Operation} {id tabId : Uuid} (hdb : WellFormed db)
    (h : op.run db = .ok changed) (hdetached : Detached db id tabId) (hfresh : id ∉ op.minted) :
    Detached changed id tabId := by
  intro a ha hid
  rcases run_analyses hdb h ha with hnew | ⟨old, hold, hsame, htab, -⟩
  · exact absurd (hid ▸ hnew) hfresh
  · exact htab ▸ hdetached old hold (hsame.trans hid)

theorem Detached.replace {db changed : Database} {op : Operation} {id tabId : Uuid} (hdb : WellFormed db)
    (h : op.run db = .ok changed) (hop : (∃ kind request new, op = .beginRun tabId kind request new) ∨ op = .delete tabId)
    (hfresh : id ∉ op.minted) : Detached changed id tabId := by
  intro a ha hid htab
  rcases hop with ⟨kind, request, new, rfl⟩ | rfl
  · obtain ⟨removed, hremoved, hinsert⟩ := beginAnalysisRun_spec hdb h
    obtain ⟨-, rfl⟩ := insertAnalysis_spec hinsert
    rcases List.mem_append.mp ha with hold | hnew
    · exact (hremoved.analyses hdb hold).2 htab
    · apply hfresh
      rw [← hid, List.mem_singleton.mp hnew]
      exact List.mem_singleton_self new
  · obtain ⟨removed, hremoved, rfl⟩ := delete_spec hdb h
    exact (hremoved.analyses hdb ha).2 htab

section Step

variable {s t : State} {e : Event} (hs : Invariant s) (h : step s e = some t)

include hs h

theorem step_wellFormed : WellFormed t.db := by
  obtain ⟨-, -, ⟨error, hdb, -⟩ | ⟨hrun, -⟩⟩ := step_cases h
  · exact hdb ▸ hs.wellFormed
  · exact run_wellFormed hs.wellFormed hrun

theorem step_known : ∀ a ∈ t.db.analyses, a.id ∈ t.minted := by
  obtain ⟨-, hminted, ⟨error, hdb, -⟩ | ⟨hrun, -⟩⟩ := step_cases h
  · intro a ha
    rw [hminted]
    exact List.mem_append_right _ (hs.known a (hdb ▸ ha))
  · intro a ha
    rw [hminted]
    rcases run_analyses hs.wellFormed hrun ha with hnew | ⟨old, hold, hsame, -⟩
    · exact List.mem_append_left _ hnew
    · exact List.mem_append_right _ (hsame ▸ hs.known old hold)

theorem step_logged : ∀ entry ∈ t.log, ∀ id ∈ entry.1.minted, id ∈ t.minted := by
  obtain ⟨-, hminted, hend⟩ := step_cases h
  have hlog : ∃ outcome, t.log = s.log ++ [(e.operation, outcome)] := by
    rcases hend with ⟨error, -, hlog⟩ | ⟨-, hlog⟩
    · exact ⟨_, hlog⟩
    · exact ⟨_, hlog⟩
  obtain ⟨outcome, hlog⟩ := hlog
  rw [hlog, hminted]
  intro entry hentry id hid
  rcases List.mem_append.mp hentry with hold | hnew
  · exact List.mem_append_right _ (hs.logged entry hold id hid)
  · rw [List.mem_singleton.mp hnew] at hid
    exact List.mem_append_left _ hid

theorem step_spent {before after : List Entry} {entry : Entry} {accepted : AcceptedAnalysis}
    (hlog : t.log = before ++ entry :: after) (hpublishes : Publishes accepted entry)
    (hclears : ∀ c ∈ after, ¬Clears accepted.tabId c) : accepted.id ∈ t.minted ∧ Spent t.db accepted := by
  obtain ⟨hfresh, hminted, hend⟩ := step_cases h
  have hold : ∀ {rest x}, after = rest ++ [x] → s.log = before ++ entry :: rest →
      accepted.id ∈ s.minted ∧ Spent s.db accepted := by
    rintro rest x rfl hs'
    exact hs.spent hs' hpublishes fun c hc => hclears c (List.mem_append_left _ hc)
  rcases hend with ⟨error, hdb, hnew⟩ | ⟨hrun, hnew⟩
  · rw [hnew] at hlog
    rcases concat_eq_append_cons hlog with ⟨-, rfl, -⟩ | ⟨rest, hafter, hs'⟩
    · exact absurd hpublishes.2 (by simp)
    · obtain ⟨hmem, hspent⟩ := hold hafter hs'
      exact ⟨hminted ▸ List.mem_append_right _ hmem, hdb ▸ hspent⟩
  · rw [hnew] at hlog
    rcases concat_eq_append_cons hlog with ⟨-, rfl, -⟩ | ⟨rest, rfl, hs'⟩
    · obtain ⟨⟨a, ha, hid, -⟩, version, effects, payload, hop⟩ := hpublishes.run hs.wellFormed hrun
      rw [hop] at hrun
      exact ⟨hminted ▸ List.mem_append_right _ (hid ▸ hs.known a ha), .publish hs.wellFormed hrun⟩
    · obtain ⟨hmem, hspent⟩ := hold rfl hs'
      refine ⟨hminted ▸ List.mem_append_right _ hmem, hspent.run hs.wellFormed hrun (fun hin => hfresh _ hin hmem) ?_⟩
      exact fun hop => hclears _ (List.mem_append_right _ (List.mem_singleton_self _)) ⟨hop, rfl⟩

theorem step_detached {before after : List Entry} {entry : Entry} {id tabId : Uuid}
    (hlog : t.log = before ++ entry :: after) (hbegun : ∃ b ∈ before, Begins id b)
    (hreplaces : Replaces tabId entry) : Detached t.db id tabId := by
  obtain ⟨hfresh, -, hend⟩ := step_cases h
  have hknown : ∀ {rest}, s.log = before ++ rest → id ∈ s.minted := by
    intro rest hs'
    obtain ⟨⟨op, outcome⟩, hb, ⟨tab, kind, request, rfl⟩, -⟩ := hbegun
    exact hs.logged (.beginRun tab kind request id, outcome) (hs' ▸ List.mem_append_left _ hb) id
      (List.mem_singleton_self id)
  rcases hend with ⟨error, hdb, hnew⟩ | ⟨hrun, hnew⟩
  · rw [hnew] at hlog
    rcases concat_eq_append_cons hlog with ⟨-, rfl, -⟩ | ⟨rest, -, hs'⟩
    · exact absurd hreplaces.2 (by simp)
    · exact hdb ▸ hs.detached hs' hbegun hreplaces
  · rw [hnew] at hlog
    rcases concat_eq_append_cons hlog with ⟨rfl, rfl, -⟩ | ⟨rest, -, hs'⟩
    · have hid := hknown (List.append_nil _).symm
      exact .replace hs.wellFormed hrun hreplaces.1 fun hin => hfresh id hin hid
    · have hid := hknown hs'
      exact (hs.detached hs' hbegun hreplaces).run hs.wellFormed hrun fun hin => hfresh id hin hid

theorem step_held : ∀ entry ∈ t.log, ∀ accepted, Publishes accepted entry → ∀ artifact, Registers artifact entry →
    Held t.db accepted.id artifact := by
  intro entry hentry accepted hpublishes artifact hregisters
  obtain ⟨hfresh, -, hend⟩ := step_cases h
  have hknown : entry ∈ s.log → artifact ∈ s.minted := by
    intro hold
    obtain ⟨other, version, effects, payload, name, hop, hmem⟩ := hregisters
    refine hs.logged entry hold artifact ?_
    rw [hop]
    exact List.mem_filterMap.mpr ⟨_, hmem, rfl⟩
  rcases hend with ⟨error, hdb, hnew⟩ | ⟨hrun, hnew⟩
  · rw [hnew] at hentry
    rcases List.mem_append.mp hentry with hold | hlast
    · exact hdb ▸ hs.held entry hold accepted hpublishes artifact hregisters
    · rw [List.mem_singleton.mp hlast] at hpublishes
      exact absurd hpublishes.2 (by simp)
  · rw [hnew] at hentry
    rcases List.mem_append.mp hentry with hold | hlast
    · refine run_held hs.wellFormed hrun (hs.held entry hold accepted hpublishes artifact hregisters) ?_
      exact fun hin => hfresh artifact hin (hknown hold)
    · obtain rfl := List.mem_singleton.mp hlast
      obtain ⟨-, version, effects, payload, hop⟩ := hpublishes.run hs.wellFormed hrun
      obtain ⟨other, v, fs, p, name, hregister, hmem⟩ := hregisters
      obtain ⟨rfl, rfl, rfl, rfl⟩ := Operation.publish.inj (hop.symm.trans hregister)
      rw [hop] at hrun
      obtain ⟨-, written, hwritten, hchanged⟩ := publishAnalysisVersion_spec hs.wellFormed hrun
      rw [hchanged]
      exact fun _ => writes_own hwritten hmem

theorem step_once {before middle after : List Entry} {first second : Entry} {accepted : AcceptedAnalysis}
    (hlog : t.log = before ++ first :: (middle ++ second :: after)) (hfirst : Publishes accepted first)
    (hsecond : Publishes accepted second) : ∃ c ∈ middle, Clears accepted.tabId c := by
  rw [← List.cons_append, ← List.append_assoc] at hlog
  obtain ⟨-, -, hend⟩ := step_cases h
  by_contra hno
  push Not at hno
  rcases hend with ⟨error, -, hnew⟩ | ⟨hrun, hnew⟩
  · rw [hnew] at hlog
    rcases concat_eq_append_cons hlog with ⟨-, rfl, -⟩ | ⟨rest, -, hs'⟩
    · exact absurd hsecond.2 (by simp)
    · rw [List.append_assoc, List.cons_append] at hs'
      obtain ⟨c, hc, hclears⟩ := hs.once hs' hfirst hsecond
      exact hno c hc hclears
  · rw [hnew] at hlog
    rcases concat_eq_append_cons hlog with ⟨hs', rfl, -⟩ | ⟨rest, -, hs'⟩
    · obtain ⟨⟨a, ha, hid, -, hresult⟩, -⟩ := hsecond.run hs.wellFormed hrun
      have hspent := (hs.spent hs'.symm hfirst hno).2 a ha hid
      simp [hresult] at hspent
    · rw [List.append_assoc, List.cons_append] at hs'
      obtain ⟨c, hc, hclears⟩ := hs.once hs' hfirst hsecond
      exact hno c hc hclears

theorem step_never {before middle after : List Entry} {first second : Entry} {accepted : AcceptedAnalysis}
    (hlog : t.log = before ++ first :: (middle ++ second :: after)) (hbegun : ∃ b ∈ before, Begins accepted.id b)
    (hfirst : Replaces accepted.tabId first) : ¬Publishes accepted second := by
  rw [← List.cons_append, ← List.append_assoc] at hlog
  intro hsecond
  obtain ⟨-, -, hend⟩ := step_cases h
  rcases hend with ⟨error, -, hnew⟩ | ⟨hrun, hnew⟩
  · rw [hnew] at hlog
    rcases concat_eq_append_cons hlog with ⟨-, rfl, -⟩ | ⟨rest, -, hs'⟩
    · exact absurd hsecond.2 (by simp)
    · rw [List.append_assoc, List.cons_append] at hs'
      exact hs.never hs' hbegun hfirst hsecond
  · rw [hnew] at hlog
    rcases concat_eq_append_cons hlog with ⟨hs', rfl, -⟩ | ⟨rest, -, hs'⟩
    · obtain ⟨⟨a, ha, hid, htab, -⟩, -⟩ := hsecond.run hs.wellFormed hrun
      exact hs.detached hs'.symm hbegun hfirst a ha hid htab
    · rw [List.append_assoc, List.cons_append] at hs'
      exact hs.never hs' hbegun hfirst hsecond

theorem invariant_step : Invariant t where
  wellFormed := step_wellFormed hs h
  known := step_known hs h
  logged := step_logged hs h
  spent := step_spent hs h
  detached := step_detached hs h
  held := step_held hs h
  once := step_once hs h
  never := step_never hs h

end Step

/-- A project as it is opened: rows within the constraints of the schema, no
operation yet. -/
structure Initial (s : State) : Prop where
  wellFormed : WellFormed s.db
  known : ∀ a ∈ s.db.analyses, a.id ∈ s.minted
  log : s.log = []

theorem Initial.invariant {s : State} (h : Initial s) : Invariant s where
  wellFormed := h.wellFormed
  known := h.known
  logged := by simp [h.log]
  spent hlog := by simp [h.log] at hlog
  detached hlog := by simp [h.log] at hlog
  held := by simp [h.log]
  once hlog := by simp [h.log] at hlog
  never hlog := by simp [h.log] at hlog

/-- In every order of operations each tab has one analysis, artifacts belong to
it and go with it, an accepted run publishes once between clears of its tab and
never after it is replaced, and what fails changes nothing. -/
theorem published_at_most_once {s t : State} {es : List Event} (h0 : Initial s) (h : exec step s es = some t) :
    (∀ a ∈ t.db.analyses, ∀ b ∈ t.db.analyses, a.tabId = b.tabId → a = b) ∧
    (∀ before first middle second after accepted, t.log = before ++ first :: (middle ++ second :: after) →
      Publishes accepted first → Publishes accepted second → ∃ c ∈ middle, Clears accepted.tabId c) ∧
    (∀ before first middle second after accepted, t.log = before ++ first :: (middle ++ second :: after) →
      (∃ b ∈ before, Begins accepted.id b) → Replaces accepted.tabId first → ¬Publishes accepted second) ∧
    (∀ r ∈ t.db.artifacts, (∃ a ∈ t.db.analyses, a.id = r.analysisId) ∧
      ∀ name, r.storage = .relation name → name = artifactTable r.id) ∧
    (∀ entry ∈ t.log, ∀ accepted artifact, Publishes accepted entry → Registers artifact entry →
      t.db.hasRelation (artifactTable artifact) → ∃ a ∈ t.db.analyses, a.id = accepted.id) ∧
    (∀ e u error, step t e = some u → u.log.getLast? = some (e.operation, .error error) → u.db = t.db) := by
  have ht : Invariant t := exec_invariant (fun hs h => invariant_step hs h) h0.invariant h
  refine ⟨?_, ?_, ?_, ?_, ?_, ?_⟩
  · intro a ha b hb hab
    exact List.inj_on_of_nodup_map ht.wellFormed.single ha hb hab
  · intro before first middle second after accepted hlog
    exact ht.once hlog
  · intro before first middle second after accepted hlog
    exact ht.never hlog
  · intro r hr
    exact ⟨ht.wellFormed.owned r hr, ht.wellFormed.named r hr⟩
  · intro entry hentry accepted artifact hpublishes hregisters hrelation
    obtain ⟨r, hr, hanalysis, -⟩ := ht.held entry hentry accepted hpublishes artifact hregisters hrelation
    obtain ⟨a, ha, hid⟩ := ht.wellFormed.owned r hr
    exact ⟨a, ha, hid.trans hanalysis⟩
  · intro e u error hstep hlast
    obtain ⟨-, -, ⟨_, hdb, -⟩ | ⟨-, hnew⟩⟩ := step_cases hstep
    · exact hdb
    · rw [hnew, List.getLast?_concat] at hlast
      simp at hlast

def opened : State where
  db := ⟨[⟨⟨"a0"⟩, "compare", 0⟩], [], [], []⟩
  minted := [⟨"a0"⟩]
  log := []

def firstRun : AcceptedAnalysis := ⟨⟨"b1"⟩, ⟨"a0"⟩, "compare"⟩

def secondRun : AcceptedAnalysis := ⟨⟨"b2"⟩, ⟨"a0"⟩, "compare"⟩

def firstRows : Operation := .publish firstRun 1 [.create ⟨"c1"⟩ .baseTable, .registerTable ⟨"c1"⟩ "rows"] .null

/-- A run that finishes, a second one that replaces it, a late publication of
the first and a failing one of the second before it succeeds. -/
def replaced : List Operation :=
  [.beginRun ⟨"a0"⟩ "compare" .null ⟨"b1"⟩, firstRows, .beginRun ⟨"a0"⟩ "compare" .null ⟨"b2"⟩,
    .publish firstRun 1 [] .null, .publish secondRun 1 [.create ⟨"c2"⟩ .view, .fail ⟨"interrupted", ""⟩] .null,
    .publish secondRun 1 [.create ⟨"c3"⟩ .baseTable, .registerTable ⟨"c3"⟩ "rows"] .null]

theorem opened_initial : Initial opened where
  wellFormed := ⟨by decide, by decide, by decide, by decide, by simp [opened], by simp [opened]⟩
  known := by simp [opened]
  log := rfl

def replacedEnd : State where
  db := ⟨opened.db.tabs, [⟨⟨"b2"⟩, ⟨"a0"⟩, .null, some ⟨1, .null⟩⟩],
    [⟨⟨"c3"⟩, ⟨"b2"⟩, "rows", .relation "result_c3"⟩], [("result_c3", .baseTable)]⟩
  minted := [⟨"c3"⟩, ⟨"c3"⟩, ⟨"c2"⟩, ⟨"b2"⟩, ⟨"c1"⟩, ⟨"c1"⟩, ⟨"b1"⟩, ⟨"a0"⟩]
  log := replaced.zip [.ok (), .ok (), .ok (),
    .error ⟨"analysis_unavailable", "The submitted analysis was removed, replaced or already completed"⟩,
    .error ⟨"interrupted", ""⟩, .ok ()]

theorem replaced_publishes_once :
    exec step opened (replaced.map (⟨·, .ok ()⟩)) = some replacedEnd ∧
      ¬replacedEnd.db.hasRelation (artifactTable ⟨"c1"⟩) := by
  have hrun : exec step opened (replaced.map (⟨·, .ok ()⟩)) = some replacedEnd := by decide
  obtain ⟨-, -, -, -, hgone, -⟩ := published_at_most_once opened_initial hrun
  refine ⟨hrun, fun hrelation => ?_⟩
  obtain ⟨a, ha, hid⟩ := hgone (firstRows, .ok ()) (by decide) firstRun ⟨"c1"⟩ ⟨⟨_, _, _, rfl⟩, rfl⟩
    ⟨_, _, _, _, "rows", rfl, by decide⟩ hrelation
  simp only [replacedEnd, List.mem_singleton] at ha
  rw [ha] at hid
  exact absurd hid (by decide)

end Wordflow.Analyses
