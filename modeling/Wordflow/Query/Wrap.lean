import Mathlib.Data.List.Chain
import Wordflow.Library.Fallible
import Wordflow.Library.Json
import Wordflow.Objects

namespace Wordflow.Query

open Library Library.Fallible Objects

def INPUT : String := "__wf_current"

def PREVIOUS : String := "__wf_previous"

/-- DuckDB's `json_serialize_sql`, with the JSON text decoded, and
`json_deserialize_sql`. -/
structure SqlJson where
  serialize : String → Except Error Json
  deserialize : Json → Except Error String

def parse (db : SqlJson) (sql : String) : Except Error Json := do
  let value ← db.serialize sql
  if value.get "error" = .bool true then
    .error ⟨"sql_error", ((value.get "error_message").asStr?).getD "SQL parsing failed"⟩
  else match value.get "statements" with
    | .arr [_] => .ok value
    | _ => .error (.invalid "Exactly one SELECT is required")

def render (db : SqlJson) (tree : Json) : Except Error String := db.deserialize tree

def statement (tree : Json) : Json := (tree.get "statements").item 0

def root (tree : Json) : Json := (statement tree).get "node"

def setStatement (tree value : Json) : Json :=
  tree.set "statements" ((tree.get "statements").setItem 0 value)

def setRoot (tree value : Json) : Json := setStatement tree ((statement tree).set "node" value)

mutual

def hasReservedName : Json → Bool
  | .obj fields => hasReservedFields fields
  | .arr items => hasReservedItems items
  | _ => false

def hasReservedFields : List (String × Json) → Bool
  | [] => false
  | (k, v) :: rest =>
      ((k == "alias" || k == "key") && (v = .str PREVIOUS || v = .str INPUT) || hasReservedName v) ||
        hasReservedFields rest

def hasReservedItems : List Json → Bool
  | [] => false
  | v :: rest => hasReservedName v || hasReservedItems rest

end

/-- The two assignments `rename_input_qualifiers` makes to the value it is at. -/
def renameQualifier (v : Json) : Json :=
  let v :=
    if v.get "class" = .str "COLUMN_REF" ∧ (v.get "column_names").item 0 = .str INPUT then
      v.set "column_names" ((v.get "column_names").setItem 0 (.str PREVIOUS))
    else v
  if v.get "class" = .str "STAR" ∧ v.get "relation_name" = .str INPUT then
    v.set "relation_name" (.str PREVIOUS)
  else v

mutual

/-- The source assigns before it descends; a qualifier is text without
children, so descending first gives the same value. -/
def renameInputQualifiers : Json → Json
  | .obj fields =>
      -- The inserted old query already has its own binding scopes.
      if (Json.obj fields).get "type" = .str "SUBQUERY" ∧ (Json.obj fields).get "alias" = .str PREVIOUS then
        renameQualifier (.obj fields)
      else renameQualifier (.obj (renameInputFields fields))
  | .arr items => .arr (renameInputItems items)
  | v => v

def renameInputFields : List (String × Json) → List (String × Json)
  | [] => []
  | (k, v) :: rest => (k, renameInputQualifiers v) :: renameInputFields rest

def renameInputItems : List Json → List Json
  | [] => []
  | v :: rest => renameInputQualifiers v :: renameInputItems rest

end

/-- The outer SELECT of `wrap` after its checks, its input's alias cleared. -/
def outerNode (tree : Json) : Except Error Json :=
  let node := root tree
  let input := node.get "from_table"
  if node.get "type" ≠ .str "SELECT_NODE" ∨ input.get "type" ≠ .str "BASE_TABLE" ∨
      input.get "table_name" ≠ .str INPUT ∨ input.get "schema_name" ≠ .str "" ∨
      input.get "catalog_name" ≠ .str "" ∨
      (input.get "alias").asStr?.any (fun v => v ≠ "" ∧ v ≠ INPUT) then
    .error (.invalid "In-place SELECT must use FROM __wf_current without a different alias")
  else
    let node := node.set "from_table" (input.set "alias" (.str ""))
    if hasReservedName node then .error (.invalid "Reserved wrapper name in query") else .ok node

def previousLayer (old : Json) : Json :=
  (Json.obj [("type", .str "SUBQUERY"), ("alias", .str INPUT), ("sample", .null),
    ("subquery", statement old), ("column_name_alias", .arr [])]).set "alias" (.str PREVIOUS)

def wrap (db : SqlJson) (outer previous : String) : Except Error String := do
  let tree ← parse db outer
  let node ← outerNode tree
  let old ← parse db previous
  let tree := setRoot tree (renameInputQualifiers (node.set "from_table" (previousLayer old)))
  let sql ← render db tree
  let _ ← parse db sql
  return sql

def canUndo (tree : Json) : Bool :=
  let layer := (root tree).get "from_table"
  layer.get "type" = .str "SUBQUERY" ∧ layer.get "alias" = .str PREVIOUS

def unwrap (db : SqlJson) (sql : String) : Except Error String := do
  let tree ← parse db sql
  if canUndo tree then render db (setStatement tree (((root tree).get "from_table").get "subquery"))
  else .error ⟨"nothing_to_undo", "No Wordflow query wrapper to undo"⟩

/-- Wrap the newest definition of a stack once more. -/
def push (db : SqlJson) (stack : List String) (outer : String) : Except Error (List String) :=
  match stack with
  | [] => .error (.invalid "SQL definitions are available only for views")
  | current :: _ => (wrap db outer current).map (· :: stack)

/-- All definitions of a view from the newest to the first, after the given edits. -/
def wrapAll (db : SqlJson) (previous : String) (outers : List String) : Except Error (List String) :=
  outers.foldlM (push db) [previous]

/-- The definitions met by undoing `n` times, the current one first. -/
def undoAll (db : SqlJson) : Nat → String → Except Error (List String)
  | 0, sql => .ok [sql]
  | n + 1, sql => do
      let previous ← unwrap db sql
      let rest ← undoAll db n previous
      return sql :: rest

def QueryTree (tree : Json) : Prop :=
  ∃ s, tree = .obj [("error", .bool false), ("statements", .arr [s])]

/-- What is assumed of the two DuckDB functions on query trees. -/
structure Inverse (db : SqlJson) : Prop where
  parse_tree : ∀ {sql tree}, parse db sql = .ok tree → QueryTree tree
  parse_render : ∀ {tree sql}, QueryTree tree → render db tree = .ok sql → parse db sql = .ok tree
  render_parsed : ∀ {sql tree}, parse db sql = .ok tree → ∃ text, render db tree = .ok text

theorem statement_setStatement {tree : Json} (h : QueryTree tree) (value : Json) :
    QueryTree (setStatement tree value) ∧ statement (setStatement tree value) = value := by
  obtain ⟨s, rfl⟩ := h
  exact ⟨⟨value, rfl⟩, rfl⟩

theorem QueryTree.ext {a b : Json} (ha : QueryTree a) (hb : QueryTree b)
    (h : statement a = statement b) : a = b := by
  obtain ⟨s, rfl⟩ := ha
  obtain ⟨t, rfl⟩ := hb
  obtain rfl : s = t := h
  rfl

theorem renameQualifier_obj (fields : List (String × Json)) :
    ∃ renamed, renameQualifier (.obj fields) = .obj renamed ∧
      ∀ key, key ≠ "column_names" → key ≠ "relation_name" →
        (Json.obj renamed).get key = (Json.obj fields).get key := by
  simp only [renameQualifier]
  split
  · have hset : ∃ inserted, (Json.obj fields).set "column_names" (((Json.obj fields).get "column_names").setItem 0
        (.str PREVIOUS)) = .obj inserted := ⟨_, rfl⟩
    split
    · refine ⟨_, rfl, fun key hc hr => ?_⟩
      simp only [Json.get_obj, Json.lookup_insert_of_ne hr, Json.lookup_insert_of_ne hc]
    · refine ⟨_, rfl, fun key hc _ => ?_⟩
      simp only [Json.get_obj, Json.lookup_insert_of_ne hc]
  · split
    · refine ⟨_, rfl, fun key _ hr => ?_⟩
      simp only [Json.get_obj, Json.lookup_insert_of_ne hr]
    · exact ⟨fields, rfl, fun _ _ _ => rfl⟩

theorem lookup_renameInputFields (fields : List (String × Json)) (key : String) :
    Json.lookup (renameInputFields fields) key = (Json.lookup fields key).map renameInputQualifiers := by
  induction fields with
  | nil => rfl
  | cons field rest ih =>
      rcases field with ⟨k, v⟩
      by_cases hk : k = key <;> simp [renameInputFields, Json.lookup, hk, ih]

/-- Renaming stops at the embedded layer and leaves all of it alone. -/
theorem renameInputQualifiers_previousLayer (old : Json) :
    renameInputQualifiers (previousLayer old) = previousLayer old := by
  rfl

theorem renameInputQualifiers_get {node : Json} {key : String} {value : Json}
    (hkey : node.get key = value) (hvalue : value ≠ .null) (hfix : renameInputQualifiers value = value)
    (hsub : node.get "type" ≠ .str "SUBQUERY") (hc : key ≠ "column_names") (hr : key ≠ "relation_name") :
    (renameInputQualifiers node).get key = value := by
  obtain ⟨fields, rfl⟩ := Json.exists_obj_of_get (hkey ▸ hvalue)
  have hlook : Json.lookup fields key = some value := by
    cases hl : Json.lookup fields key with
    | none => simp [hl] at hkey; exact absurd hkey.symm hvalue
    | some v => simpa [hl] using hkey
  rw [renameInputQualifiers, if_neg (fun h => hsub h.1)]
  obtain ⟨renamed, heq, hget⟩ := renameQualifier_obj (renameInputFields fields)
  rw [heq, hget key hc hr, Json.get_obj, lookup_renameInputFields, hlook]
  simpa using hfix

theorem outerNode_spec {tree node : Json} (h : outerNode tree = .ok node) :
    (root tree).get "type" = .str "SELECT_NODE" ∧
      node = (root tree).set "from_table" (((root tree).get "from_table").set "alias" (.str "")) := by
  simp only [outerNode] at h
  obtain ⟨hchecks, h⟩ := guard_eq_ok.mp h
  obtain ⟨_, h⟩ := guard_eq_ok.mp h
  cases h
  exact ⟨by_contra fun hne => hchecks (Or.inl hne), rfl⟩

theorem statement_obj {tree node : Json} (h : outerNode tree = .ok node) :
    ∃ fields, statement tree = .obj fields := by
  apply @Json.exists_obj_of_get "node"
  intro hnull
  have htype := (outerNode_spec h).1
  rw [root, hnull] at htype
  exact absurd htype (by decide)

/-- `newer` is `older` under one more Wordflow wrapper, `older` as it was. -/
def Layer (db : SqlJson) (newer older : String) : Prop :=
  ∃ tree old, parse db newer = .ok tree ∧ parse db older = .ok old ∧
    (root tree).get "from_table" = previousLayer old

theorem canUndo_of_layer {tree old : Json} (h : (root tree).get "from_table" = previousLayer old) :
    canUndo tree = true := by
  simp only [canUndo, h]
  rfl

theorem renamed_from_table {tree node : Json} (old : Json) (h : outerNode tree = .ok node) :
    (renameInputQualifiers (node.set "from_table" (previousLayer old))).get "from_table" = previousLayer old := by
  obtain ⟨htype, rfl⟩ := outerNode_spec h
  obtain ⟨fields, hroot⟩ := @Json.exists_obj_of_get "type" (root tree) (by rw [htype]; simp)
  rw [hroot] at htype ⊢
  have hobj : ∃ fs, (Json.obj fields).set "from_table" (((Json.obj fields).get "from_table").set "alias" (.str "")) =
      .obj fs := ⟨_, rfl⟩
  apply renameInputQualifiers_get
  · exact Json.get_set_self hobj
  · simp [previousLayer, Json.set]
  · exact renameInputQualifiers_previousLayer old
  · rw [Json.get_set_of_ne hobj (by decide), Json.get_set_of_ne ⟨_, rfl⟩ (by decide), htype]
    decide
  · decide
  · decide

theorem wrap_layer {db : SqlJson} {outer previous sql : String} (hdb : Inverse db)
    (h : wrap db outer previous = .ok sql) : Layer db sql previous := by
  simp only [wrap] at h
  obtain ⟨tree, htree, h⟩ := bind_eq_ok.mp h
  obtain ⟨node, hnode, h⟩ := bind_eq_ok.mp h
  obtain ⟨old, hold, h⟩ := bind_eq_ok.mp h
  obtain ⟨text, htext, h⟩ := bind_eq_ok.mp h
  obtain ⟨parsed, hparsed, h⟩ := bind_eq_ok.mp h
  cases h
  have hset := statement_setStatement (hdb.parse_tree htree)
    ((statement tree).set "node" (renameInputQualifiers (node.set "from_table" (previousLayer old))))
  refine ⟨_, old, hdb.parse_render hset.1 htext, hold, ?_⟩
  rw [root, hset.2, Json.get_set_self (statement_obj hnode)]
  exact renamed_from_table old hnode

theorem unwrap_layer {db : SqlJson} {newer older sql : String} (hdb : Inverse db) (h : Layer db newer older)
    (hsql : parse db sql = parse db newer) :
    ∃ text, unwrap db sql = .ok text ∧ parse db text = parse db older := by
  obtain ⟨tree, old, htree, hold, hlayer⟩ := h
  have hsub : ((root tree).get "from_table").get "subquery" = statement old := by
    rw [hlayer]
    rfl
  have htrees := statement_setStatement (hdb.parse_tree htree)
  have hback : setStatement tree (statement old) = old :=
    (htrees (statement old)).1.ext (hdb.parse_tree hold) (htrees (statement old)).2
  obtain ⟨text, htext⟩ := hdb.render_parsed hold
  refine ⟨text, ?_, ?_⟩
  · rw [unwrap, hsql, htree]
    simp only [bind, Except.bind, canUndo_of_layer hlayer, if_true, hsub, hback]
    exact htext
  · rw [hold]
    exact hdb.parse_render (hdb.parse_tree hold) htext

theorem push_spec {db : SqlJson} {stack pushed : List String} {outer : String} (h : push db stack outer = .ok pushed) :
    ∃ current below sql, stack = current :: below ∧ wrap db outer current = .ok sql ∧
      pushed = sql :: current :: below := by
  cases stack with
  | nil => cases h
  | cons current below =>
      obtain ⟨sql, hsql, rfl⟩ := map_eq_ok.mp h
      exact ⟨current, below, sql, rfl, hsql, rfl⟩

theorem wrapAll_spec {db : SqlJson} {previous : String} {outers stack : List String} (hdb : Inverse db)
    (h : wrapAll db previous outers = .ok stack) :
    stack.IsChain (Layer db) ∧ stack.length = outers.length + 1 ∧ stack.getLast? = some previous := by
  refine foldlM_relates (fun outers stack => stack.IsChain (Layer db) ∧ stack.length = outers.length + 1 ∧
    stack.getLast? = some previous) h (by simp) ?_
  rintro before outer s t - ⟨hchain, hlength, hlast⟩ hpush
  obtain ⟨current, below, sql, rfl, hwrap, rfl⟩ := push_spec hpush
  refine ⟨List.IsChain.cons_cons (wrap_layer hdb hwrap) hchain, by simp [← hlength], ?_⟩
  rwa [List.getLast?_cons_cons]

theorem undoAll_spec {db : SqlJson} (hdb : Inverse db) {current : String} {below : List String}
    (hchain : (current :: below).IsChain (Layer db)) {sql : String} (hsql : parse db sql = parse db current) :
    ∃ undone, undoAll db below.length sql = .ok undone ∧
      undone.map (parse db) = (current :: below).map (parse db) ∧
      ∀ text ∈ undone.dropLast, ∃ tree, parse db text = .ok tree ∧ canUndo tree = true := by
  induction below generalizing current sql with
  | nil => exact ⟨[sql], rfl, by simp [hsql], by simp⟩
  | cons older below ih =>
      rw [List.isChain_cons_cons] at hchain
      obtain ⟨hlayer, hbelow⟩ := hchain
      obtain ⟨text, hunwrap, htext⟩ := unwrap_layer hdb hlayer hsql
      obtain ⟨undone, hundone, htrees, hcan⟩ := ih hbelow htext
      obtain ⟨tree, old, htree, -, hfrom⟩ := hlayer
      refine ⟨sql :: undone, ?_, by simp [hsql, htrees], ?_⟩
      · simp only [List.length_cons, undoAll, hunwrap, bind, Except.bind, hundone]
        rfl
      · intro t ht
        have hne : undone ≠ [] := by
          rintro rfl
          simp at htrees
        rw [List.dropLast_cons_of_ne_nil hne, List.mem_cons] at ht
        rcases ht with rfl | ht
        · exact ⟨tree, hsql.trans htree, canUndo_of_layer hfrom⟩
        · exact hcan t ht

/-- Undoing every edit of a view meets the trees of all earlier definitions in
turn, and each definition holds the one before it unchanged. -/
theorem undo_is_a_stack {db : SqlJson} (hdb : Inverse db) {previous : String} {outers stack : List String}
    (h : wrapAll db previous outers = .ok stack) :
    stack.getLast? = some previous ∧ stack.length = outers.length + 1 ∧ stack.IsChain (Layer db) ∧
      ∃ undone, undoAll db outers.length (stack.headD previous) = .ok undone ∧
        undone.map (parse db) = stack.map (parse db) ∧
        ∀ sql ∈ undone.dropLast, ∃ tree, parse db sql = .ok tree ∧ canUndo tree = true := by
  obtain ⟨hchain, hlength, hlast⟩ := wrapAll_spec hdb h
  refine ⟨hlast, hlength, hchain, ?_⟩
  cases stack with
  | nil => simp at hlength
  | cons current below =>
      rw [List.length_cons, Nat.add_right_cancel_iff] at hlength
      rw [← hlength]
      exact undoAll_spec hdb hchain rfl

/-- A database that knows finitely many queries. -/
def SqlJson.ofQueries (queries : List (String × Json)) : SqlJson where
  serialize sql :=
    match queries.find? (fun query => query.1 = sql) with
    | some query => .ok query.2
    | none => .ok (.obj [("error", .bool true), ("error_message", .str "syntax error")])
  deserialize tree :=
    match queries.find? (fun query => query.2 = tree) with
    | some query => .ok query.1
    | none => .error ⟨"sql_error", "Unrecognized query tree"⟩

theorem parse_queryTree {db : SqlJson} {sql : String} {tree : Json} (htree : QueryTree tree)
    (h : db.serialize sql = .ok tree) : parse db sql = .ok tree := by
  obtain ⟨s, rfl⟩ := htree
  rw [parse, h]
  rfl

theorem serialize_of_parse {db : SqlJson} {sql : String} {tree : Json} (h : parse db sql = .ok tree) :
    db.serialize sql = .ok tree ∧ tree.get "error" ≠ .bool true := by
  obtain ⟨value, hvalue, h⟩ := bind_eq_ok.mp h
  obtain ⟨herror, h⟩ := guard_eq_ok.mp h
  split at h
  · cases h
    exact ⟨hvalue, herror⟩
  · cases h

theorem SqlJson.ofQueries_parse {queries : List (String × Json)} {sql : String} {tree : Json}
    (h : parse (ofQueries queries) sql = .ok tree) : (sql, tree) ∈ queries := by
  obtain ⟨hserialize, herror⟩ := serialize_of_parse h
  simp only [ofQueries] at hserialize
  split at hserialize
  · rename_i query hfind
    cases hserialize
    have hsql : query.1 = sql := by simpa using List.find?_some hfind
    rw [← hsql]
    exact List.mem_of_find?_eq_some hfind
  · cases hserialize
    exact absurd rfl herror

theorem SqlJson.ofQueries_inverse {queries : List (String × Json)} (htrees : ∀ query ∈ queries, QueryTree query.2)
    (hkeys : ∀ query ∈ queries, (ofQueries queries).serialize query.1 = .ok query.2) : Inverse (ofQueries queries) where
  parse_tree h := htrees _ (ofQueries_parse h)
  parse_render {tree sql} htree h := by
    simp only [render, ofQueries] at h
    split at h
    · rename_i query hfind
      cases h
      have hmem := List.mem_of_find?_eq_some hfind
      have htreeEq : query.2 = tree := by simpa using List.find?_some hfind
      rw [← htreeEq]
      exact parse_queryTree (htrees _ hmem) (hkeys _ hmem)
    · cases h
  render_parsed {sql tree} h := by
    have hmem := ofQueries_parse h
    simp only [render, ofQueries]
    cases hfind : queries.find? (fun query => query.2 = tree) with
    | some query => exact ⟨_, rfl⟩
    | none => simpa using List.find?_eq_none.mp hfind _ hmem

def columnRef (names : List String) : Json :=
  .obj [("class", .str "COLUMN_REF"), ("type", .str "COLUMN_REF"), ("alias", .str ""),
    ("column_names", .arr (names.map .str))]

def baseTable (name : String) : Json :=
  .obj [("type", .str "BASE_TABLE"), ("alias", .str ""), ("sample", .null), ("schema_name", .str ""),
    ("table_name", .str name), ("column_name_alias", .arr []), ("catalog_name", .str "")]

def selectTree (column : List String) (source : Json) : Json :=
  .obj [("error", .bool false), ("statements", .arr [.obj [
    ("node", .obj [("type", .str "SELECT_NODE"), ("modifiers", .arr []), ("cte_map", .obj [("map", .arr [])]),
      ("select_list", .arr [columnRef column]), ("from_table", source), ("where_clause", .null)]),
    ("named_param_map", .arr [])]])]

def docsQuery : String := "SELECT text FROM docs"

def outerQuery : String := "SELECT __wf_current.text FROM __wf_current"

def wrappedQuery (previous : String) : String :=
  "SELECT __wf_previous.text FROM (" ++ previous ++ ") AS __wf_previous"

def docsTree : Json := selectTree ["text"] (baseTable "docs")

def wrappedTree (previous : Json) : Json := selectTree ["__wf_previous", "text"] (previousLayer previous)

/-- A query over `docs`, an outer SELECT and what two edits with it make. -/
def editedDocs : List (String × Json) :=
  [(docsQuery, docsTree), (outerQuery, selectTree ["__wf_current", "text"] (baseTable "__wf_current")),
    (wrappedQuery docsQuery, wrappedTree docsTree),
    (wrappedQuery (wrappedQuery docsQuery), wrappedTree (wrappedTree docsTree))]

theorem editedDocs_inverse : Inverse (.ofQueries editedDocs) := by
  apply SqlJson.ofQueries_inverse
  · simp only [editedDocs, List.forall_mem_cons]
    exact ⟨⟨_, rfl⟩, ⟨_, rfl⟩, ⟨_, rfl⟩, ⟨_, rfl⟩, by simp⟩
  · decide

theorem edited_docs_is_a_stack :
    ∃ undone, undoAll (.ofQueries editedDocs) 2 (wrappedQuery (wrappedQuery docsQuery)) = .ok undone ∧
      undone.map (parse (.ofQueries editedDocs)) =
        [.ok (wrappedTree (wrappedTree docsTree)), .ok (wrappedTree docsTree), .ok docsTree] ∧
      ∀ sql ∈ undone.dropLast, ∃ tree, parse (.ofQueries editedDocs) sql = .ok tree ∧ canUndo tree = true := by
  have hwraps : wrapAll (.ofQueries editedDocs) docsQuery [outerQuery, outerQuery] =
      .ok [wrappedQuery (wrappedQuery docsQuery), wrappedQuery docsQuery, docsQuery] := by decide
  obtain ⟨undone, hundone, htrees, hcan⟩ := (undo_is_a_stack editedDocs_inverse hwraps).2.2.2
  exact ⟨undone, hundone, htrees.trans (by decide), hcan⟩

end Wordflow.Query
