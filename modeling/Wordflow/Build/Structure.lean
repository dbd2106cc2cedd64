import Wordflow.Build.Inspection
import Wordflow.Build.Meaning

namespace Wordflow.Build

open Library.Fallible Library.Quoting Library.SqlExpression

section Names

def BuilderToken.operations {O : Type} : BuilderToken O → List O
  | .column _ operations _ | .literal _ operations _ _ | .combination _ operations _ _ | .sql _ operations _ => operations

/-- A summary that stands for itself names the object that it is read from. -/
def Sourced (operation : BuildOperation) : Prop :=
  (operationDefinition operation.kind).summary = true →
    ∀ source, operation.summary = some (.scalar source) → source ≠ [] ∧ ∀ name ∈ source, name ≠ ""

/-- A part without raw SQL, whose column and sources have names. -/
def Named : Part → Prop
  | .column _ operations column => column ≠ "" ∧ ∀ operation ∈ operations, Sourced operation
  | .literal _ operations _ _ | .combination _ operations _ _ => ∀ operation ∈ operations, Sourced operation
  | .sql .. => False

end Names

section Operations

variable {chain built : BuildChain} {r : Reading} {operation : BuildOperation}

/-- What was built says what its part means. -/
structure Matches (chain : BuildChain) (r : Reading) : Prop where
  expresses : Expresses chain.sql r.expression
  type : chain.type = r.type

theorem toList_ne_nil {s : String} (h : s ≠ "") : s.toList ≠ [] := by
  intro hnil
  exact h (String.toList_inj.mp hnil)

theorem scalar_means {text : List Char} {e : Expression} {source : List String} (h : Expresses text e)
    (hsource : source ≠ [] ∧ ∀ name ∈ source, name ≠ "") :
    Expresses (parenthesized ("SELECT ".toList ++ (text ++ (" FROM ".toList ++ join "." (source.map identifier)))))
      (.scalar e (source.map String.toList)) := by
  have hpath : join "." (source.map identifier) = pathText (source.map String.toList) := by
    rw [pathText, List.map_map]
    rfl
  have hnames : ∀ name ∈ source.map String.toList, name ≠ [] := by
    intro name hname
    obtain ⟨s, hs, rfl⟩ := List.mem_map.mp hname
    exact toList_ne_nil (hsource.2 s hs)
  rw [hpath]
  exact (h.scalar (fun hnil => hsource.1 (List.map_eq_nil_iff.mp hnil)) hnames).expresses

theorem Matches.render (h : Matches chain r) (hsource : Sourced operation)
    (hrender : renderBuildOperation chain operation = .ok built) : Matches built (operationReading r operation) := by
  obtain ⟨text, hsql, hbuilt⟩ := bind_eq_ok.mp hrender
  have hmeans := operation_means h.expresses hsql
  rw [h.type] at hmeans
  cases hbuilt
  refine ⟨?_, by rw [operationReading, h.type]⟩
  refine Primary.expresses (Expresses.parenthesized ?_)
  rw [operationReading]
  by_cases hsummary : (operationDefinition operation.kind).summary = true
  · simp only [if_pos hsummary]
    have hwindow := (hmeans.2 hsummary).parenthesized.expresses
    cases hkind : operation.summary with
    | none => exact hwindow
    | some summary =>
        cases summary with
        | window => exact hwindow
        | scalar source => exact scalar_means hmeans.1 (hsource hsummary source hkind)
  · simp only [if_neg hsummary]
    exact hmeans.1

theorem Matches.operations {step : Nat → String} {operations : List BuildOperation} {index : Nat} (h : Matches chain r)
    (hsources : ∀ operation ∈ operations, Sourced operation)
    (hbuilt : applyOperations step chain index operations = .ok built) : Matches built (operations.foldl operationReading r) := by
  induction operations generalizing chain r index with
  | nil =>
      cases hbuilt
      exact h
  | cons operation rest ih =>
      obtain ⟨hsource, hrest⟩ := List.forall_mem_cons.mp hsources
      rw [applyOperations] at hbuilt
      split at hbuilt
      · cases hbuilt
      · rename_i next hnext
        exact ih (h.render hsource (apply_render hnext)) hrest hbuilt

end Operations

section Combinations

variable {values : List (List Char)} {es : List Expression} {chains : List BuildChain} {rs : List Reading}

theorem operated_means {name : String} (operator : BinaryOperator) (hname : name.toList = operator.text)
    (h : List.Forall₂ Expresses values es) (hne : values ≠ []) : Expresses (operated name values) (chained operator es) := by
  cases h with
  | nil => exact absurd rfl hne
  | @cons first e rest es hfirst hrest =>
      rw [operated, chained, hname]
      clear hne
      -- The inputs so far are one operand of the next.
      induction hrest generalizing first e with
      | nil => exact hfirst
      | cons hnext _ ih => exact ih (Primary.binary operator hfirst.parenthesized hnext.parenthesized)

theorem combineSql_means (combination : Combination) (h : List.Forall₂ Expresses values es) (hne : values ≠ []) :
    Expresses (combineSql values (some combination)) (combinedExpression combination es) := by
  have hshown : shownInputs values = values := if_neg hne
  have hcall (name : String) (hname : Callable name) :
      Expresses (call name (shownInputs values)) (.call name.toList false es false) := by
    rw [hshown]
    exact (call_means hname h hne false).1
  have htext (separator : String) : Expresses (call "concat_ws" (literal separator :: shownInputs values))
      (.call "concat_ws".toList false (.string separator.toList :: es) false) := by
    rw [hshown]
    exact (call_means ⟨rfl, rfl⟩ (.cons (expresses_text separator) h) (List.cons_ne_nil _ _) false).1
  obtain ⟨kind, separator⟩ := combination
  cases kind with
  | text => exact htext separator
  | add => exact operated_means .add rfl h hne
  | subtract => exact operated_means .subtract rfl h hne
  | multiply => exact operated_means .multiply rfl h hne
  | divide => exact operated_means .divide rfl h hne
  | and => exact operated_means .and rfl h hne
  | or => exact operated_means .or rfl h hne
  | greatest => exact hcall "greatest" ⟨rfl, rfl⟩
  | least => exact hcall "least" ⟨rfl, rfl⟩
  | coalesce => exact hcall "coalesce" ⟨rfl, rfl⟩
  | list => exact hcall "list_value" ⟨rfl, rfl⟩
  | listConcat => exact hcall "list_concat" ⟨rfl, rfl⟩

theorem combine_matches {combination : Option Combination} {chain : BuildChain} (h : List.Forall₂ Matches chains rs)
    (hcombine : combine chains combination = .ok chain) : Matches chain (combinedReading combination rs) := by
  have hsqls : List.Forall₂ Expresses (chains.map BuildChain.sql) (rs.map Reading.expression) := by
    rw [List.forall₂_map_left_iff, List.forall₂_map_right_iff]
    exact h.imp fun _ _ hmatches => hmatches.expresses
  have htypes : chains.map BuildChain.type = rs.map Reading.type := by
    rw [← List.forall₂_eq_eq_eq, List.forall₂_map_left_iff, List.forall₂_map_right_iff]
    exact h.imp fun _ _ hmatches => hmatches.type
  unfold combine at hcombine
  split at hcombine
  · cases hcombine
  · rename_i chosen
    rw [guard_eq_ok, guard_eq_ok] at hcombine
    obtain ⟨hne, -, hchain⟩ := hcombine
    cases hchain
    refine ⟨combineSql_means chosen hsqls ?_, ?_⟩
    · exact fun hnil => hne (List.map_eq_nil_iff.mp hnil)
    · rw [combinedReading, htypes]

end Combinations

section Trees

variable {columns : List ColumnInfo} {chain : BuildChain}

theorem literal_matches {literalType : LiteralType} {value : String} (h : literalChain literalType value = .ok chain) :
    Matches chain (literalReading literalType value) := by
  cases literalType with
  | text =>
      cases h
      exact ⟨expresses_text value, rfl⟩
  | null =>
      cases h
      exact ⟨(Primary.constant .null).expresses, rfl⟩
  | number =>
      rw [literalChain] at h
      split at h
      · rename_i hnumber
        cases h
        exact ⟨expresses_number hnumber, rfl⟩
      · cases h
  | boolean =>
      rw [literalChain] at h
      split at h
      · rename_i hvalue
        cases h
        refine ⟨expresses_truth ?_, rfl⟩
        rcases List.mem_pair.mp hvalue with rfl | rfl
        · exact List.mem_cons_self
        · exact List.mem_cons_of_mem _ List.mem_cons_self
      · cases h

theorem column_matches {column : String} (hcolumn : column ≠ "")
    (h : columnChain column ((columns.find? fun c => c.name = column).map ColumnInfo.field) [] = .ok chain) :
    Matches chain { expression := .column column.toList, type := columnType columns column } := by
  rw [columnType]
  cases hfind : columns.find? fun c => c.name = column with
  | none =>
      rw [hfind] at h
      cases h
  | some found =>
      rw [hfind] at h
      cases h
      exact ⟨(Primary.column (toList_ne_nil hcolumn)).expresses, rfl⟩

/-- The chains of the parts say what the parts mean. -/
theorem partChains_match {parts : List Part} {chains : List BuildChain} (hnamed : ∀ node ∈ nodesOf parts, Named node)
    (h : partChains columns parts = .ok chains) : List.Forall₂ Matches chains (readings columns parts) := by
  induction parts using BuilderToken.forest_induction generalizing chains with
  | nil =>
      cases h
      exact .nil
  | cons part rest hpart hrest =>
      rw [nodesOf_cons, List.forall_mem_cons, List.forall_mem_append] at hnamed
      obtain ⟨hself, hbelow, hafter⟩ := hnamed
      obtain ⟨chain, hchain, h⟩ := bind_eq_ok.mp h
      obtain ⟨more, hmore, h⟩ := bind_eq_ok.mp h
      cases h
      refine .cons ?_ (hrest hafter hmore)
      cases part with
      | column _ operations column =>
          obtain ⟨first, hfirst, hoperations⟩ := bind_eq_ok.mp hchain
          exact (column_matches hself.1 hfirst).operations hself.2 hoperations
      | literal _ operations literalType value =>
          obtain ⟨first, hfirst, hoperations⟩ := bind_eq_ok.mp hchain
          exact (literal_matches hfirst).operations hself hoperations
      | combination _ operations combination children =>
          obtain ⟨inputs, hinputs, hchain⟩ := bind_eq_ok.mp hchain
          obtain ⟨first, hfirst, hoperations⟩ := bind_eq_ok.mp hchain
          exact (combine_matches (hpart hbelow hinputs) hfirst).operations hself hoperations
      | sql => exact hself.elim

theorem partChain_matches {part : Part} (hnamed : ∀ node ∈ nodesOf [part], Named node) (h : partChain columns part = .ok chain) :
    Matches chain (reading columns part) := by
  have hone : partChains columns [part] = .ok [chain] := bind_eq_ok.mpr ⟨chain, h, rfl⟩
  cases partChains_match hnamed hone with
  | cons hmatches _ => exact hmatches

end Trees

/-- A part builds exactly when its inspection has no issue, and to what the inspection shows; and the SQL of a tree without raw
SQL is parsed into the structure of the tree. -/
theorem build_inspected (columns : List ColumnInfo) (part : Part) :
    (∀ chain, partChain columns part = .ok chain ↔
      (inspectBuildPart columns part).issue = none ∧ (inspectBuildPart columns part).chain = chain) ∧
    ((∀ node ∈ nodesOf [part], Named node) → ∀ sql, buildExpression (.visual [part]) columns = .ok sql →
      ∃ k, ∀ n ≥ k, parse n sql = some (reading columns part).expression) := by
  refine ⟨inspectBuildPart_agrees columns part, fun hnamed sql hbuilt => ?_⟩
  obtain ⟨chain, hchain, rfl⟩ := map_eq_ok.mp hbuilt
  exact (partChain_matches hnamed hchain).expresses.parse

section Examples

def numbers : List ColumnInfo := [⟨"x", .mk none .int⟩, ⟨"", .mk none .int⟩]

/-- The sum of a column and a number, rounded. -/
def rounded : Part :=
  .combination "b" [{ kind := .round, arguments := fun name => if name = .digits then some "0" else none, summary := none }]
    (some ⟨.add, ""⟩) [.column "a" [] "x", .literal "c" [] .number "-1.5"]

theorem rounded_parsed : buildExpression (.visual [rounded]) numbers = .ok "(round((\"x\") + (-1.5), 0))".toList ∧
    ∃ k, ∀ n ≥ k, parse n "(round((\"x\") + (-1.5), 0))".toList = some (.call "round".toList false
      [.binary .add (.column ['x']) (.sign true (.number "1.5".toList)), .number ['0']] false) := by
  have hbuilt : buildExpression (.visual [rounded]) numbers = .ok "(round((\"x\") + (-1.5), 0))".toList := rfl
  have hnamed : ∀ node ∈ nodesOf [rounded], Named node := by
    intro node hnode
    simp only [rounded, nodesOf, nodesBelow, List.append_nil, List.mem_cons, List.not_mem_nil, or_false, List.nil_append] at hnode
    rcases hnode with rfl | rfl | rfl
    · intro operation hoperation
      cases List.mem_singleton.mp hoperation
      intro hsummary
      cases hsummary
    · exact ⟨by decide, List.forall_mem_nil _⟩
    · exact List.forall_mem_nil _
  exact ⟨hbuilt, (build_inspected numbers rounded).2 hnamed _ hbuilt⟩

/-- The count of a column that is read from a source. -/
def counted (source : List String) : Part :=
  .column "a" [{ kind := .count, arguments := fun _ => none, summary := some (.scalar source) }] "x"

/-- The part is built into a text that is no expression. -/
def Unparsed (part : Part) : Prop :=
  ∃ sql, buildExpression (.visual [part]) numbers = .ok sql ∧ ¬∃ e k, ∀ n ≥ k, parse n sql = some e

/-- Without a name there is nothing to parse. -/
theorem nameless_unparsed : Unparsed (.column "a" [] "") ∧ Unparsed (counted [""]) ∧ Unparsed (counted []) := by
  have hunlexed {sql : List Char} (h : ∀ m, lex (m + 30) sql = none) : ¬∃ e k, ∀ n ≥ k, parse n sql = some e := by
    rintro ⟨e, k, hk⟩
    have hparse := hk (k + 30) (by omega)
    rw [parse, h] at hparse
    cases hparse
  refine ⟨?_, ?_, ?_⟩
  · exact ⟨_, rfl, hunlexed fun _ => rfl⟩
  · exact ⟨"((SELECT count(\"x\") FROM \"\"))".toList, rfl, hunlexed fun _ => rfl⟩
  · refine ⟨"((SELECT count(\"x\") FROM ))".toList, rfl, ?_⟩
    rintro ⟨e, k, hk⟩
    have hparse := hk (k + 30) (by omega)
    have hlex : lex (k + 30) "((SELECT count(\"x\") FROM ))".toList = some [.symbol '(', .symbol '(', .word "SELECT".toList,
        .word "count".toList, .symbol '(', .identifier ['x'], .symbol ')', .word "FROM".toList, .symbol ')', .symbol ')'] := rfl
    have hnone : parseExpression (k + 30) 0 [.symbol '(', .symbol '(', .word "SELECT".toList, .word "count".toList, .symbol '(',
        .identifier ['x'], .symbol ')', .word "FROM".toList, .symbol ')', .symbol ')'] = none := rfl
    rw [parse, hlex, Option.bind_some, hnone] at hparse
    cases hparse

end Examples

end Wordflow.Build
