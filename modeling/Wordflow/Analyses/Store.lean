import Mathlib.Data.List.Nodup
import Mathlib.Logic.Function.Basic
import Wordflow.Library.Fallible
import Wordflow.Library.Json
import Wordflow.Objects

namespace Wordflow.Analyses

open Library Library.Fallible Objects

/-- A UUID by its text of 32 hexadecimal digits. -/
structure Uuid where
  simple : String
  deriving DecidableEq, Repr

def artifactTable (id : Uuid) : String := "result_" ++ id.simple

structure Tab where
  id : Uuid
  kind : String
  position : BitVec 64
  deriving DecidableEq

structure Output where
  version : Int
  payload : Json
  deriving DecidableEq

structure Analysis where
  id : Uuid
  tabId : Uuid
  request : Json
  result : Option Output
  deriving DecidableEq

inductive Storage
  | relation (name : String)
  | blob (mediaType : String) (content : List UInt8)
  deriving DecidableEq

def Storage.relationName : Storage → Option String
  | .relation name => some name
  | .blob _ _ => none

structure Artifact where
  id : Uuid
  analysisId : Uuid
  name : String
  storage : Storage
  deriving DecidableEq

inductive TableType
  | baseTable
  | view
  | localTemporary
  deriving DecidableEq

/-- The tables of schema `wordflow` that analyses live in, and the catalogue
entries of that schema. -/
structure Database where
  tabs : List Tab
  analyses : List Analysis
  artifacts : List Artifact
  relations : List (String × TableType)
  deriving DecidableEq

structure AcceptedAnalysis where
  id : Uuid
  tabId : Uuid
  kind : String
  deriving DecidableEq

def sqlError (message : String) : Error := ⟨"sql_error", message⟩

def Database.tableType (db : Database) (name : String) : Option TableType :=
  (db.relations.find? fun r => r.1 = name).map Prod.snd

def Database.hasRelation (db : Database) (name : String) : Prop := ∃ r ∈ db.relations, r.1 = name

/-- The row `create_analysis_tab` inserts. -/
def insertTab (db : Database) (tab : Tab) : Except Error Database :=
  if db.tabs.any fun t => t.id = tab.id then .error (sqlError "Constraint Error: Duplicate key")
  else .ok { db with tabs := db.tabs ++ [tab] }

/-- Two updates that give every position back; their row count is the check. -/
def claimTab (db : Database) (id : Uuid) (kind : String) : Except Error Database :=
  if (db.tabs.filter fun t => t.id = id ∧ t.kind = kind).length ≠ 1 then
    .error ⟨"analysis_tab_not_found", "Analysis tab is unavailable or has a different kind"⟩
  else
    let tabs := db.tabs.map fun t =>
      if t.id = id ∧ t.kind = kind then { t with position := ~~~t.position } else t
    .ok { db with tabs := tabs.map fun t => if t.id = id then { t with position := ~~~t.position } else t }

def readTab (db : Database) (id : Uuid) : Except Error (Tab × Option Analysis) :=
  match db.tabs.find? fun t => t.id = id with
  | some tab => .ok (tab, db.analyses.find? fun a => a.tabId = tab.id)
  | none => .error ⟨"analysis_tab_not_found", "Analysis tab is no longer available"⟩

def readAnalysis (db : Database) (id : Uuid) : Except Error Analysis :=
  match db.analyses.find? fun a => a.id = id ∧ db.tabs.any fun t => t.id = a.tabId with
  | some analysis => .ok analysis
  | none => .error ⟨"analysis_not_found", "Analysis is no longer available"⟩

/-- `INSERT INTO wordflow.artifacts` under the constraints of the table. -/
def insertArtifact (db : Database) (artifact : Artifact) : Except Error Database :=
  if db.artifacts.any fun a => a.id = artifact.id ∨ a.analysisId = artifact.analysisId ∧ a.name = artifact.name then
    .error (sqlError "Constraint Error: Duplicate key")
  else .ok { db with artifacts := db.artifacts ++ [artifact] }

def registerTable (db : Database) (analysisId artifactId : Uuid) (name : String) : Except Error Database :=
  insertArtifact db ⟨artifactId, analysisId, name, .relation (artifactTable artifactId)⟩

def registerBlob (db : Database) (analysisId artifactId : Uuid) (name mediaType : String)
    (content : List UInt8) : Except Error Database :=
  insertArtifact db ⟨artifactId, analysisId, name, .blob mediaType content⟩

def dropRelation (db : Database) (kind : TableType) (name : String) : Except Error Database :=
  if (name, kind) ∈ db.relations then
    .ok { db with relations := db.relations.filter fun r => r.1 ≠ name }
  else .error (sqlError "Catalog Error: relation does not exist")

/-- One pass of the loop in `delete_artifacts`, for an artifact and the kind its
relation had when the artifacts were read. -/
def dropArtifact (db : Database) (artifact : Artifact) (kind : Option TableType) : Except Error Database :=
  match artifact.storage.relationName with
  | none => .ok db
  | some relation =>
      if relation ≠ artifactTable artifact.id then
        .error ⟨"analysis_corrupt", "Analysis artifact relation identity is invalid"⟩
      else match kind with
        | some .view => dropRelation db .view relation
        | some .baseTable => dropRelation db .baseTable relation
        | none => .ok db
        | some .localTemporary => .error ⟨"analysis_corrupt", "Analysis relation is unavailable"⟩

def artifactKind (db : Database) (artifact : Artifact) : Option TableType :=
  artifact.storage.relationName.bind db.tableType

/-- The artifacts of an analysis with the kinds of their relations, views
before tables. -/
def cleanupRows (db : Database) (id : Uuid) : List (Artifact × Option TableType) :=
  let rows := (db.artifacts.filter fun a => a.analysisId = id).map fun a => (a, artifactKind db a)
  (rows.filter fun row => row.2 = some .view) ++ rows.filter fun row => row.2 ≠ some .view

def deleteArtifacts (db : Database) (id : Uuid) : Except Error Database := do
  let db ← (cleanupRows db id).foldlM (fun db row => dropArtifact db row.1 row.2) db
  return { db with artifacts := db.artifacts.filter fun a => a.analysisId ≠ id }

def deleteAnalysis (db : Database) (id : Uuid) : Except Error Database := do
  let db ← deleteArtifacts db id
  return { db with analyses := db.analyses.filter fun a => a.id ≠ id }

/-- `INSERT INTO wordflow.analyses` under the constraints of the table. -/
def insertAnalysis (db : Database) (analysis : Analysis) : Except Error Database :=
  if db.analyses.any fun a => a.id = analysis.id ∨ a.tabId = analysis.tabId then
    .error (sqlError "Constraint Error: Duplicate key")
  else .ok { db with analyses := db.analyses ++ [analysis] }

def deletePrevious (db : Database) : Option Analysis → Except Error Database
  | some previous => deleteAnalysis db previous.id
  | none => .ok db

/-- `id` is the fresh UUID of the run. -/
def beginAnalysisRun (db : Database) (tabId : Uuid) (kind : String) (request : Json) (id : Uuid) :
    Except Error Database := do
  let db ← claimTab db tabId kind
  let (_, previous) ← readTab db tabId
  let db ← deletePrevious db previous
  insertAnalysis db ⟨id, tabId, request, none⟩

def setResult (db : Database) (id : Uuid) (result : Option Output) : Database :=
  { db with analyses := db.analyses.map fun a => if a.id = id then { a with result := result } else a }

def clearPrevious (db : Database) : Option Analysis → Except Error Database
  | some previous => do
      let db ← deleteArtifacts db previous.id
      return setResult db previous.id none
  | none => .ok db

def clearOrDelete (db : Database) (tabId : Uuid) (delete : Bool) : Except Error Database := do
  let (tab, analysis) ← readTab db tabId
  let db ← claimTab db tabId tab.kind
  let db ← (if delete then deletePrevious db analysis else clearPrevious db analysis)
  return if delete then { db with tabs := db.tabs.filter fun t => t.id ≠ tabId } else db

/-- What the callback of a publication does to the database: create relations,
register what it created, and give up at any point. -/
inductive Effect
  | create (artifact : Uuid) (kind : TableType)
  | registerTable (artifact : Uuid) (name : String)
  | registerBlob (artifact : Uuid) (name mediaType : String) (content : List UInt8)
  | fail (error : Error)
  deriving DecidableEq

def Effect.artifact : Effect → Option Uuid
  | .create artifact _ | .registerTable artifact _ | .registerBlob artifact _ _ _ => some artifact
  | .fail _ => none

def write (analysisId : Uuid) (db : Database) : Effect → Except Error Database
  | .create artifact kind =>
      if (db.tableType (artifactTable artifact)).isSome then .error (sqlError "Catalog Error: relation exists")
      else .ok { db with relations := db.relations ++ [(artifactTable artifact, kind)] }
  | .registerTable artifact name => registerTable db analysisId artifact name
  | .registerBlob artifact name mediaType content => registerBlob db analysisId artifact name mediaType content
  | .fail error => .error error

def publishAnalysisVersion (db : Database) (accepted : AcceptedAnalysis) (version : Int)
    (effects : List Effect) (payload : Json) : Except Error Database := do
  let db ← claimTab db accepted.tabId accepted.kind
  let claimed := db.analyses.filter fun a => a.id = accepted.id ∧ a.tabId = accepted.tabId ∧ a.result = none
  if claimed.length ≠ 1 then
    .error ⟨"analysis_unavailable", "The submitted analysis was removed, replaced or already completed"⟩
  else
    let db ← effects.foldlM (write accepted.id) db
    if version ≤ 0 then .error (sqlError "Constraint Error: CHECK constraint failed")
    else
      let db := setResult db accepted.id (some ⟨version, payload⟩)
      let _ ← readAnalysis db accepted.id
      return db

/-- The row constraints of the schema and what publication adds to them. -/
structure WellFormed (db : Database) : Prop where
  tabs : (db.tabs.map Tab.id).Nodup
  analyses : (db.analyses.map Analysis.id).Nodup
  single : (db.analyses.map Analysis.tabId).Nodup
  artifacts : (db.artifacts.map Artifact.id).Nodup
  owned : ∀ r ∈ db.artifacts, ∃ a ∈ db.analyses, a.id = r.analysisId
  named : ∀ r ∈ db.artifacts, ∀ name, r.storage = .relation name → name = artifactTable r.id

theorem artifactTable_injective : Function.Injective artifactTable := by
  rintro ⟨a⟩ ⟨b⟩ h
  simpa [artifactTable] using h

/-- Claiming a tab locks its row and changes nothing. -/
theorem claimTab_spec {db claimed : Database} {id : Uuid} {kind : String} (hdb : WellFormed db)
    (h : claimTab db id kind = .ok claimed) : claimed = db ∧ ∃ t ∈ db.tabs, t.id = id ∧ t.kind = kind := by
  obtain ⟨hcount, h⟩ := guard_eq_ok.mp h
  obtain ⟨tab, htab⟩ := List.length_eq_one_iff.mp (not_not.mp hcount)
  have hmem : tab ∈ db.tabs ∧ tab.id = id ∧ tab.kind = kind := by
    have : tab ∈ db.tabs.filter fun t => t.id = id ∧ t.kind = kind := htab ▸ List.mem_singleton_self tab
    simpa using this
  refine ⟨?_, tab, hmem.1, hmem.2⟩
  obtain rfl := Except.ok.inj h
  have htabs : (db.tabs.map fun t =>
      if t.id = id ∧ t.kind = kind then { t with position := ~~~t.position } else t).map
      (fun t => if t.id = id then { t with position := ~~~t.position } else t) = db.tabs := by
    rw [List.map_map]
    refine (List.map_congr_left fun t ht => ?_).trans (List.map_id db.tabs)
    by_cases hid : t.id = id
    · obtain rfl := List.inj_on_of_nodup_map hdb.tabs ht hmem.1 (hid.trans hmem.2.1.symm)
      simp only [Function.comp_apply, hmem.2, and_self, if_true, BitVec.not_not]
      exact congrArg₂ (Tab.mk · · t.position) hmem.2.1.symm hmem.2.2.symm
    · simp [hid]
  simp [htabs]

theorem readTab_spec {db : Database} {id : Uuid} {tab : Tab} {analysis : Option Analysis}
    (h : readTab db id = .ok (tab, analysis)) :
    tab ∈ db.tabs ∧ tab.id = id ∧ analysis = db.analyses.find? fun a => a.tabId = id := by
  simp only [readTab] at h
  split at h
  · rename_i found hfind
    obtain ⟨rfl, rfl⟩ := Prod.mk.inj (Except.ok.inj h)
    have hid : found.id = id := by simpa using List.find?_some hfind
    exact ⟨List.mem_of_find?_eq_some hfind, hid, by rw [hid]⟩
  · cases h

def Owns (db : Database) (analysisId : Uuid) (name : String) : Prop :=
  ∃ r ∈ db.artifacts, r.analysisId = analysisId ∧ r.storage = .relation name

instance (db : Database) (analysisId : Uuid) (name : String) : Decidable (Owns db analysisId name) :=
  inferInstanceAs (Decidable (∃ r ∈ db.artifacts, r.analysisId = analysisId ∧ r.storage = .relation name))

/-- A database without the artifacts of one analysis and their relations. -/
def withoutArtifacts (db : Database) (id : Uuid) : Database :=
  { db with
    artifacts := db.artifacts.filter fun a => a.analysisId ≠ id
    relations := db.relations.filter fun r => ¬Owns db id r.1 }

theorem dropRelation_spec {db dropped : Database} {kind : TableType} {name : String}
    (h : dropRelation db kind name = .ok dropped) :
    dropped = { db with relations := db.relations.filter fun r => r.1 ≠ name } := by
  simp only [dropRelation] at h
  split at h
  · exact (Except.ok.inj h).symm
  · cases h

theorem dropArtifact_spec {db dropped : Database} {artifact : Artifact} {kind : Option TableType}
    (h : dropArtifact db artifact kind = .ok dropped)
    (hkind : kind = none → ∀ name, artifact.storage = .relation name → ¬db.hasRelation name) :
    dropped = { db with relations := db.relations.filter fun r => artifact.storage ≠ .relation r.1 } := by
  simp only [dropArtifact] at h
  cases hs : artifact.storage with
  | blob mediaType content =>
      simp only [hs, Storage.relationName, Except.ok.injEq] at h
      simp [h]
  | relation name =>
      simp only [hs, Storage.relationName] at h
      obtain ⟨-, h⟩ := guard_eq_ok.mp h
      have hdrop : (fun r : String × TableType => decide (Storage.relation name ≠ .relation r.1)) =
          fun r => decide (r.1 ≠ name) := by
        funext r
        simp [eq_comm]
      rw [hdrop]
      cases kind with
      | none =>
          obtain rfl := Except.ok.inj h
          have habsent := hkind rfl name hs
          have hkeep : db.relations.filter (fun r => r.1 ≠ name) = db.relations :=
            List.filter_eq_self.mpr fun r hr => by simpa using fun hname => habsent ⟨r, hr, hname⟩
          rw [hkeep]
      | some kind =>
          cases kind with
          | view => exact dropRelation_spec h
          | baseTable => exact dropRelation_spec h
          | localTemporary => cases h

theorem not_hasRelation_of_tableType {db : Database} {name : String} (h : db.tableType name = none) :
    ¬db.hasRelation name := by
  simp only [Database.tableType, Option.map_eq_none_iff, List.find?_eq_none] at h
  rintro ⟨r, hr, hname⟩
  exact h r hr (by simpa using hname)

theorem dropArtifacts_spec {db dropped : Database} {rows : List (Artifact × Option TableType)}
    (h : rows.foldlM (fun db row => dropArtifact db row.1 row.2) db = .ok dropped)
    (hkind : ∀ row ∈ rows, row.2 = artifactKind db row.1) :
    dropped = { db with relations := db.relations.filter fun r => ∀ row ∈ rows, row.1.storage ≠ .relation r.1 } := by
  refine foldlM_relates (fun rows dropped => dropped = { db with
    relations := db.relations.filter fun r => ∀ row ∈ rows, row.1.storage ≠ .relation r.1 }) h (by simp) ?_
  rintro before row _ t hrow rfl hdrop
  rw [dropArtifact_spec hdrop]
  · simp only [List.filter_filter, List.forall_mem_append, List.forall_mem_singleton, Database.mk.injEq, true_and]
    apply List.filter_congr
    intro r _
    rw [← Bool.decide_and]
    exact decide_eq_decide.mpr and_comm
  · rintro hnone name hname ⟨r, hr, hrname⟩
    have habsent : db.tableType name = none := by
      rw [hkind row hrow] at hnone
      simpa [artifactKind, hname, Storage.relationName] using hnone
    exact not_hasRelation_of_tableType habsent ⟨r, (List.mem_filter.mp hr).1, hrname⟩

theorem mem_cleanupRows {db : Database} {id : Uuid} {row : Artifact × Option TableType} :
    row ∈ cleanupRows db id ↔ ∃ a ∈ db.artifacts, a.analysisId = id ∧ (a, artifactKind db a) = row := by
  simp only [cleanupRows, List.mem_append, List.mem_filter, List.mem_map, decide_eq_true_eq, ← and_or_left]
  simp [Decidable.em, and_assoc]

theorem deleteArtifacts_spec {db deleted : Database} {id : Uuid} (h : deleteArtifacts db id = .ok deleted) :
    deleted = withoutArtifacts db id := by
  obtain ⟨dropped, hdropped, hdeleted⟩ := bind_eq_ok.mp h
  obtain rfl := Except.ok.inj hdeleted
  have hdb := dropArtifacts_spec hdropped fun row hrow => by
    obtain ⟨a, -, -, rfl⟩ := mem_cleanupRows.mp hrow
    rfl
  rw [hdb]
  simp only [withoutArtifacts, Database.mk.injEq, true_and]
  apply List.filter_congr
  intro r _
  simp only [decide_eq_decide, Owns, not_exists, not_and]
  constructor
  · intro hno a ha hid
    exact hno _ (mem_cleanupRows.mpr ⟨a, ha, hid, rfl⟩)
  · intro hno row hrow
    obtain ⟨a, ha, hid, rfl⟩ := mem_cleanupRows.mp hrow
    exact hno a ha hid

def withoutAnalysis (db : Database) (id : Uuid) : Database :=
  { withoutArtifacts db id with analyses := db.analyses.filter fun a => a.id ≠ id }

theorem deleteAnalysis_spec {db deleted : Database} {id : Uuid} (h : deleteAnalysis db id = .ok deleted) :
    deleted = withoutAnalysis db id := by
  obtain ⟨cleaned, hcleaned, hdeleted⟩ := bind_eq_ok.mp h
  obtain rfl := Except.ok.inj hdeleted
  rw [deleteArtifacts_spec hcleaned]
  rfl

theorem insertArtifact_spec {db inserted : Database} {artifact : Artifact}
    (h : insertArtifact db artifact = .ok inserted) :
    (∀ a ∈ db.artifacts, a.id ≠ artifact.id) ∧ inserted = { db with artifacts := db.artifacts ++ [artifact] } := by
  obtain ⟨hfresh, h⟩ := guard_eq_ok.mp h
  refine ⟨fun a ha hid => hfresh ?_, (Except.ok.inj h).symm⟩
  exact List.any_eq_true.mpr ⟨a, ha, by simp [hid]⟩

theorem insertAnalysis_spec {db inserted : Database} {analysis : Analysis}
    (h : insertAnalysis db analysis = .ok inserted) :
    (∀ a ∈ db.analyses, a.id ≠ analysis.id ∧ a.tabId ≠ analysis.tabId) ∧
      inserted = { db with analyses := db.analyses ++ [analysis] } := by
  obtain ⟨hfresh, h⟩ := guard_eq_ok.mp h
  refine ⟨fun a ha => ?_, (Except.ok.inj h).symm⟩
  rw [← not_or]
  exact fun hsame => hfresh (List.any_eq_true.mpr ⟨a, ha, by simpa using hsame⟩)

namespace WellFormed

variable {db : Database}

theorem withoutArtifacts (hdb : WellFormed db) (id : Uuid) : WellFormed (withoutArtifacts db id) where
  tabs := hdb.tabs
  analyses := hdb.analyses
  single := hdb.single
  artifacts := hdb.artifacts.sublist (List.filter_sublist.map _)
  owned r hr := hdb.owned r (List.mem_filter.mp hr).1
  named r hr := hdb.named r (List.mem_filter.mp hr).1

theorem withoutAnalysis (hdb : WellFormed db) (id : Uuid) : WellFormed (withoutAnalysis db id) where
  tabs := hdb.tabs
  analyses := hdb.analyses.sublist (List.filter_sublist.map _)
  single := hdb.single.sublist (List.filter_sublist.map _)
  artifacts := (hdb.withoutArtifacts id).artifacts
  named := (hdb.withoutArtifacts id).named
  owned r hr := by
    obtain ⟨hmem, hid⟩ := List.mem_filter.mp hr
    obtain ⟨a, ha, haid⟩ := hdb.owned r hmem
    refine ⟨a, List.mem_filter.mpr ⟨ha, ?_⟩, haid⟩
    simpa [haid] using hid

theorem insertArtifact (hdb : WellFormed db) {inserted : Database} {artifact : Artifact}
    (h : insertArtifact db artifact = .ok inserted) (howned : ∃ a ∈ db.analyses, a.id = artifact.analysisId)
    (hnamed : ∀ name, artifact.storage = .relation name → name = artifactTable artifact.id) :
    WellFormed inserted := by
  obtain ⟨hfresh, rfl⟩ := insertArtifact_spec h
  refine { hdb with artifacts := ?_, owned := ?_, named := ?_ }
  · simp only [List.map_append, List.map_singleton, List.nodup_append, List.mem_map, List.mem_singleton]
    refine ⟨hdb.artifacts, List.nodup_singleton _, ?_⟩
    rintro _ ⟨a, ha, rfl⟩ _ rfl
    exact hfresh a ha
  · exact List.forall_mem_append.mpr ⟨hdb.owned, List.forall_mem_singleton.mpr howned⟩
  · exact List.forall_mem_append.mpr ⟨hdb.named, List.forall_mem_singleton.mpr hnamed⟩

theorem insertAnalysis (hdb : WellFormed db) {inserted : Database} {analysis : Analysis}
    (h : insertAnalysis db analysis = .ok inserted) : WellFormed inserted := by
  obtain ⟨hfresh, rfl⟩ := insertAnalysis_spec h
  refine { hdb with analyses := ?_, single := ?_, owned := ?_ }
  · simp only [List.map_append, List.map_singleton, List.nodup_append, List.mem_map, List.mem_singleton]
    refine ⟨hdb.analyses, List.nodup_singleton _, ?_⟩
    rintro _ ⟨a, ha, rfl⟩ _ rfl
    exact (hfresh a ha).1
  · simp only [List.map_append, List.map_singleton, List.nodup_append, List.mem_map, List.mem_singleton]
    refine ⟨hdb.single, List.nodup_singleton _, ?_⟩
    rintro _ ⟨a, ha, rfl⟩ _ rfl
    exact (hfresh a ha).2
  · intro r hr
    obtain ⟨a, ha, hid⟩ := hdb.owned r hr
    exact ⟨a, List.mem_append_left _ ha, hid⟩

theorem setResult (hdb : WellFormed db) (id : Uuid) (result : Option Output) :
    WellFormed (setResult db id result) := by
  have hkeep : ∀ {β : Type} (f : Analysis → β), (∀ a, f { a with result := result } = f a) →
      (Analyses.setResult db id result).analyses.map f = db.analyses.map f := by
    intro β f hf
    simp only [Analyses.setResult, List.map_map]
    refine List.map_congr_left fun a _ => ?_
    by_cases ha : a.id = id
    · simp only [Function.comp_apply, if_pos ha, hf]
    · simp only [Function.comp_apply, if_neg ha]
  refine { hdb with analyses := ?_, single := ?_, owned := ?_ }
  · rw [hkeep Analysis.id fun _ => rfl]
    exact hdb.analyses
  · rw [hkeep Analysis.tabId fun _ => rfl]
    exact hdb.single
  · intro r hr
    obtain ⟨a, ha, hid⟩ := hdb.owned r hr
    refine ⟨_, List.mem_map_of_mem ha, ?_⟩
    by_cases hsame : a.id = id <;> simp [hsame, ← hid]

theorem insertTab (hdb : WellFormed db) {inserted : Database} {tab : Tab} (h : insertTab db tab = .ok inserted) :
    WellFormed inserted := by
  obtain ⟨hfresh, h⟩ := guard_eq_ok.mp h
  cases h
  refine { hdb with tabs := ?_ }
  simp only [List.map_append, List.map_singleton, List.nodup_append, List.mem_map, List.mem_singleton]
  refine ⟨hdb.tabs, List.nodup_singleton _, ?_⟩
  rintro _ ⟨t, ht, rfl⟩ _ rfl hid
  exact hfresh (List.any_eq_true.mpr ⟨t, ht, by simp [hid]⟩)

theorem withoutTab (hdb : WellFormed db) (id : Uuid) :
    WellFormed { db with tabs := db.tabs.filter fun t => t.id ≠ id } :=
  { hdb with tabs := hdb.tabs.sublist (List.filter_sublist.map _) }

end WellFormed

/-- A database whose analysis of one tab, if there was one, is gone with its
artifacts. -/
def Removed (db : Database) (tabId : Uuid) (removed : Database) : Prop :=
  (removed = db ∧ ∀ a ∈ db.analyses, a.tabId ≠ tabId) ∨
    ∃ previous ∈ db.analyses, previous.tabId = tabId ∧ removed = withoutAnalysis db previous.id

theorem Removed.wellFormed {db removed : Database} {tabId : Uuid} (hdb : WellFormed db) (h : Removed db tabId removed) :
    WellFormed removed := by
  rcases h with ⟨rfl, -⟩ | ⟨previous, -, -, rfl⟩
  · exact hdb
  · exact hdb.withoutAnalysis _

theorem Removed.analyses {db removed : Database} {tabId : Uuid} (hdb : WellFormed db) (h : Removed db tabId removed)
    {a : Analysis} (ha : a ∈ removed.analyses) : a ∈ db.analyses ∧ a.tabId ≠ tabId := by
  rcases h with ⟨rfl, hnone⟩ | ⟨previous, hprevious, htab, rfl⟩
  · exact ⟨ha, hnone a ha⟩
  · obtain ⟨hmem, hid⟩ := List.mem_filter.mp ha
    refine ⟨hmem, fun hsame => ?_⟩
    have heq := List.inj_on_of_nodup_map hdb.single hmem hprevious (hsame.trans htab.symm)
    simp [heq] at hid

theorem analysis_of_find {db : Database} {tabId : Uuid} {a : Analysis}
    (h : db.analyses.find? (fun a => a.tabId = tabId) = some a) : a ∈ db.analyses ∧ a.tabId = tabId :=
  ⟨List.mem_of_find?_eq_some h, by simpa using List.find?_some h⟩

theorem no_analysis_of_find {db : Database} {tabId : Uuid}
    (h : db.analyses.find? (fun a => a.tabId = tabId) = none) : ∀ a ∈ db.analyses, a.tabId ≠ tabId := by
  simpa using List.find?_eq_none.mp h

theorem deletePrevious_spec {db removed : Database} {tabId : Uuid}
    (h : deletePrevious db (db.analyses.find? fun a => a.tabId = tabId) = .ok removed) : Removed db tabId removed := by
  cases hfind : db.analyses.find? (fun a => a.tabId = tabId) with
  | none =>
      rw [hfind] at h
      exact .inl ⟨(Except.ok.inj h).symm, no_analysis_of_find hfind⟩
  | some previous =>
      rw [hfind] at h
      obtain ⟨hmem, htab⟩ := analysis_of_find hfind
      exact .inr ⟨previous, hmem, htab, deleteAnalysis_spec h⟩

theorem beginAnalysisRun_spec {db begun : Database} {tabId id : Uuid} {kind : String} {request : Json}
    (hdb : WellFormed db) (h : beginAnalysisRun db tabId kind request id = .ok begun) :
    ∃ removed, Removed db tabId removed ∧ insertAnalysis removed ⟨id, tabId, request, none⟩ = .ok begun := by
  obtain ⟨claimed, hclaimed, hread⟩ := bind_eq_ok.mp h
  obtain ⟨⟨tab, previous⟩, hprevious, hremove⟩ := bind_eq_ok.mp hread
  obtain ⟨removed, hremoved, hinsert⟩ := bind_eq_ok.mp hremove
  obtain ⟨rfl, -⟩ := claimTab_spec hdb hclaimed
  obtain ⟨-, -, rfl⟩ := readTab_spec hprevious
  exact ⟨removed, deletePrevious_spec hremoved, hinsert⟩

theorem clearOrDelete_spec {db changed : Database} {tabId : Uuid} {delete : Bool} (hdb : WellFormed db)
    (h : clearOrDelete db tabId delete = .ok changed) :
    ∃ rest, (if delete then deletePrevious db (db.analyses.find? fun a => a.tabId = tabId)
        else clearPrevious db (db.analyses.find? fun a => a.tabId = tabId)) = .ok rest ∧
      changed = if delete then { rest with tabs := rest.tabs.filter fun t => t.id ≠ tabId } else rest := by
  obtain ⟨⟨tab, analysis⟩, hread, hclaim⟩ := bind_eq_ok.mp h
  obtain ⟨claimed, hclaimed, hchange⟩ := bind_eq_ok.mp hclaim
  obtain ⟨rest, hrest, hchanged⟩ := bind_eq_ok.mp hchange
  obtain ⟨rfl, -⟩ := claimTab_spec hdb hclaimed
  obtain ⟨-, -, rfl⟩ := readTab_spec hread
  exact ⟨rest, hrest, (Except.ok.inj hchanged).symm⟩

theorem delete_spec {db deleted : Database} {tabId : Uuid} (hdb : WellFormed db)
    (h : clearOrDelete db tabId true = .ok deleted) :
    ∃ removed, Removed db tabId removed ∧
      deleted = { removed with tabs := removed.tabs.filter fun t => t.id ≠ tabId } := by
  obtain ⟨removed, hremoved, hdeleted⟩ := clearOrDelete_spec hdb h
  exact ⟨removed, deletePrevious_spec hremoved, hdeleted⟩

theorem clear_spec {db cleared : Database} {tabId : Uuid} (hdb : WellFormed db)
    (h : clearOrDelete db tabId false = .ok cleared) :
    cleared = db ∨ ∃ a ∈ db.analyses, a.tabId = tabId ∧ cleared = setResult (withoutArtifacts db a.id) a.id none := by
  obtain ⟨rest, hrest, rfl⟩ := clearOrDelete_spec hdb h
  simp only [Bool.false_eq_true, if_false] at hrest ⊢
  cases hfind : db.analyses.find? (fun a => a.tabId = tabId) with
  | none =>
      rw [hfind] at hrest
      exact .inl (Except.ok.inj hrest).symm
  | some previous =>
      rw [hfind] at hrest
      obtain ⟨hmem, htab⟩ := analysis_of_find hfind
      obtain ⟨cleaned, hcleaned, hset⟩ := bind_eq_ok.mp hrest
      cases hset
      exact .inr ⟨previous, hmem, htab, by rw [deleteArtifacts_spec hcleaned]⟩

theorem publishAnalysisVersion_spec {db published : Database} {accepted : AcceptedAnalysis} {version : Int}
    {effects : List Effect} {payload : Json} (hdb : WellFormed db)
    (h : publishAnalysisVersion db accepted version effects payload = .ok published) :
    (∃ a ∈ db.analyses, a.id = accepted.id ∧ a.tabId = accepted.tabId ∧ a.result = none) ∧
      ∃ written, effects.foldlM (write accepted.id) db = .ok written ∧
        published = setResult written accepted.id (some ⟨version, payload⟩) := by
  obtain ⟨claimed, hclaimed, hclaim⟩ := bind_eq_ok.mp h
  obtain ⟨rfl, -⟩ := claimTab_spec hdb hclaimed
  obtain ⟨hcount, hwrite⟩ := guard_eq_ok.mp hclaim
  obtain ⟨written, hwritten, hversion⟩ := bind_eq_ok.mp hwrite
  obtain ⟨-, hread⟩ := guard_eq_ok.mp hversion
  obtain ⟨analysis, -, hpublished⟩ := bind_eq_ok.mp hread
  cases hpublished
  obtain ⟨a, ha⟩ := List.length_eq_one_iff.mp (not_not.mp hcount)
  have hmem : a ∈ claimed.analyses.filter _ := ha ▸ List.mem_singleton_self a
  exact ⟨⟨a, by simpa using hmem⟩, written, hwritten, rfl⟩

end Wordflow.Analyses
