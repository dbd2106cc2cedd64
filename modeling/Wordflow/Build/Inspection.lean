import Wordflow.Build.Expression

namespace Wordflow.Build

inductive IssueKind
  | incomplete
  | invalid
  deriving DecidableEq

structure BuildIssue where
  label : String
  reason : String
  kind : IssueKind

/-- What an inspection returns. -/
structure Inspected where
  chain : BuildChain
  issue : Option BuildIssue

section Steps

/-- One operation of a part that may already have an issue, and its place among them. -/
def inspectOperation (result : Inspected) (index : Nat) (operation : BuildOperation) : Inspected where
  issue :=
    match applyBuildOperation result.chain operation with
    | .ok _ => result.issue
    | .error message => result.issue <|> some {
        label := "Check operation"
        reason := "Step " ++ toString (index + 1) ++ " (" ++ (operationDefinition operation.kind).label ++ "): " ++ message
        kind := .invalid }
  chain :=
    match renderBuildOperation result.chain operation with
    | .ok chain => chain
    | .error _ => { result.chain with
        sql := ("<" ++ operation.kind.name ++ ">(").toList ++ (result.chain.sql ++ ", /* complete parameters */)".toList) }

def inspectOperations (result : Inspected) : Nat → List BuildOperation → Inspected
  | _, [] => result
  | index, operation :: rest => inspectOperations (inspectOperation result index operation) (index + 1) rest

end Steps

section Sources

/-- The SQL that stands for a part until it is complete. -/
def draftSql : Part → List Char
  | .column _ _ column => identifier column
  | .sql _ _ expression => if trim expression.toList = [] then "/* add SQL expression */".toList else rawSql expression
  | .literal _ _ .text value => literal value
  | .literal _ _ .null _ => "NULL".toList
  | .literal _ _ .number value => if value = "" then "/* add number value */".toList else value.toList
  | .literal _ _ .boolean value => if value = "" then "/* add boolean value */".toList else value.toList
  | .combination .. => []

/-- A part that is no combination, before its operations, with what an error makes of it. -/
def inspectSource (columns : List ColumnInfo) (part : Part) (label : String) (kind : IssueKind) : Inspected :=
  match partChain columns part with
  | .ok chain => { chain, issue := none }
  | .error reason => { chain := { sql := draftSql part, type := .unknown, summarized := false }, issue := some { label, reason, kind } }

/-- The first issue of the inputs, as the combination reports it. -/
def inputIssue (children : List Inspected) : Option BuildIssue :=
  (children.findSome? Inspected.issue).map fun issue =>
    { label := if issue.kind = .invalid then "Check input" else "Incomplete input", reason := issue.reason, kind := issue.kind }

def combinationIssue (children : List Inspected) (combination : Option Combination) : Option BuildIssue :=
  if combination = none then
    some { label := "Choose a function", reason := "Choose how to combine these inputs.", kind := .incomplete }
  else if children.isEmpty then
    some { label := "Needs input", reason := "Add a column, value or function.", kind := .incomplete }
  else inputIssue children

def inspectCombination (children : List Inspected) (combination : Option Combination) : Inspected :=
  let issue := combinationIssue children combination
  match combine (children.map Inspected.chain) combination with
  | .ok chain => { chain, issue }
  | .error reason => {
      chain := { sql := combineSql (children.map fun child => child.chain.sql) combination, type := .unknown, summarized := false }
      issue := issue <|> some { label := "Check inputs", reason, kind := .invalid } }

mutual

def inspectBuildPart (columns : List ColumnInfo) : Part → Inspected
  | .combination _ operations combination children =>
      inspectOperations (inspectCombination (inspectBuildParts columns children) combination) 0 operations
  | .column id operations column =>
      inspectOperations (inspectSource columns (.column id [] column) "Column unavailable" .invalid) 0 operations
  | .sql id operations expression =>
      inspectOperations (inspectSource columns (.sql id [] expression) "Needs input" .incomplete) 0 operations
  | .literal id operations literalType value =>
      inspectOperations (inspectSource columns (.literal id [] literalType value) "Needs input" .incomplete) 0 operations

def inspectBuildParts (columns : List ColumnInfo) : List Part → List Inspected
  | [] => []
  | part :: rest => inspectBuildPart columns part :: inspectBuildParts columns rest

end

end Sources

section Agreement

variable {columns : List ColumnInfo} {chain : BuildChain}

/-- An inspection that says what building says. -/
def Inspected.Agrees (result : Inspected) (built : Except String BuildChain) : Prop :=
  ∀ chain, built = .ok chain ↔ result.issue = none ∧ result.chain = chain

theorem Inspected.agrees_ok (chain : BuildChain) : Inspected.Agrees ⟨chain, none⟩ (.ok chain) := by
  intro other
  simp

theorem Inspected.agrees_error {result : Inspected} (h : result.issue ≠ none) (message : String) :
    result.Agrees (.error message) := by
  intro chain
  simp [h]

/-- Building applies an operation exactly where the inspection finds no issue with it. -/
theorem apply_render {operation : BuildOperation} {built : BuildChain} (h : applyBuildOperation chain operation = .ok built) :
    renderBuildOperation chain operation = .ok built := by
  unfold applyBuildOperation at h
  dsimp only at h
  split at h
  · cases h
  · split at h
    · cases h
    · cases hcheck : ((operationDefinition operation.kind).parameters chain.type).forM (checkParameter operation.arguments) with
      | error message => rw [hcheck] at h; cases h
      | ok _ => rw [hcheck] at h; exact h

theorem inspectOperations_issue {result : Inspected} (h : result.issue ≠ none) (index : Nat) (operations : List BuildOperation) :
    (inspectOperations result index operations).issue ≠ none := by
  induction operations generalizing result index with
  | nil => exact h
  | cons operation rest ih =>
      apply ih
      rw [inspectOperation]
      cases applyBuildOperation result.chain operation with
      | ok _ => exact h
      | error _ =>
          obtain ⟨issue, hissue⟩ := Option.ne_none_iff_exists'.mp h
          rw [hissue]
          exact nofun

theorem inspectOperations_agrees (step : Nat → String) (chain : BuildChain) (index : Nat) (operations : List BuildOperation) :
    (inspectOperations ⟨chain, none⟩ index operations).Agrees (applyOperations step chain index operations) := by
  induction operations generalizing chain index with
  | nil => exact Inspected.agrees_ok chain
  | cons operation rest ih =>
      rw [inspectOperations, applyOperations]
      cases happly : applyBuildOperation chain operation with
      | ok built =>
          have hone : inspectOperation ⟨chain, none⟩ index operation = ⟨built, none⟩ := by
            rw [inspectOperation, happly, apply_render happly]
          rw [hone]
          exact ih built (index + 1)
      | error message =>
          refine Inspected.agrees_error (inspectOperations_issue ?_ _ _) _
          rw [inspectOperation, happly]
          exact nofun

/-- The operations of a part, once what they start from agrees. -/
theorem Inspected.Agrees.operations {result : Inspected} {built : Except String BuildChain} (h : result.Agrees built)
    (operations : List BuildOperation) : (inspectOperations result 0 operations).Agrees
      (built >>= fun chain => applyOperations partStep chain 0 operations) := by
  cases built with
  | ok chain =>
      obtain ⟨hissue, hchain⟩ := (h chain).mp rfl
      obtain ⟨_, _⟩ := result
      subst hissue hchain
      exact inspectOperations_agrees partStep _ 0 operations
  | error message =>
      refine agrees_error (inspectOperations_issue (fun hnone => ?_) _ _) message
      have hok := (h result.chain).mpr ⟨hnone, rfl⟩
      cases hok

/-- The parts of a forest, each inspected as it is built. -/
def AllAgree (results : List Inspected) (built : Except String (List BuildChain)) : Prop :=
  ∀ chains, built = .ok chains ↔ (∀ result ∈ results, result.issue = none) ∧ results.map Inspected.chain = chains

theorem AllAgree.cons {result : Inspected} {results : List Inspected} {built : Except String BuildChain}
    {others : Except String (List BuildChain)} (h : result.Agrees built) (hrest : AllAgree results others) :
    AllAgree (result :: results) (do let chain ← built; let chains ← others; return chain :: chains) := by
  intro chains
  rw [List.forall_mem_cons, List.map_cons]
  cases built with
  | error message =>
      constructor
      · exact nofun
      · rintro ⟨⟨hissue, -⟩, -⟩
        have hok := (h result.chain).mpr ⟨hissue, rfl⟩
        cases hok
  | ok chain =>
      obtain ⟨hissue, rfl⟩ := (h chain).mp rfl
      cases others with
      | error message =>
          constructor
          · exact nofun
          · rintro ⟨⟨-, hissues⟩, -⟩
            have hok := (hrest _).mpr ⟨hissues, rfl⟩
            cases hok
      | ok more =>
          obtain ⟨hissues, rfl⟩ := (hrest more).mp rfl
          constructor
          · rintro ⟨⟩
            exact ⟨⟨hissue, hissues⟩, rfl⟩
          · rintro ⟨-, rfl⟩
            rfl

theorem inputIssue_none (children : List Inspected) : inputIssue children = none ↔ ∀ child ∈ children, child.issue = none := by
  rw [inputIssue, Option.map_eq_none_iff, List.findSome?_eq_none_iff]

theorem combine_some {chains : List BuildChain} {combination : Option Combination} (h : combine chains combination = .ok chain) :
    combination ≠ none ∧ chains ≠ [] := by
  unfold combine at h
  split at h
  · cases h
  · split at h
    · cases h
    · rename_i hne
      exact ⟨nofun, hne⟩

/-- A combination whose inputs agree. -/
theorem AllAgree.combination {children : List Inspected} {built : Except String (List BuildChain)} (h : AllAgree children built)
    (combination : Option Combination) :
    (inspectCombination children combination).Agrees (built >>= fun chains => combine chains combination) := by
  intro chain
  constructor
  · intro hbuilt
    cases built with
    | error message => cases hbuilt
    | ok chains =>
        obtain ⟨hissues, rfl⟩ := (h chains).mp rfl
        change combine (children.map Inspected.chain) combination = .ok chain at hbuilt
        obtain ⟨hchosen, hne⟩ := combine_some hbuilt
        have hchildren : children.isEmpty = false := by
          cases children with
          | nil => exact absurd rfl hne
          | cons => rfl
        rw [inspectCombination, hbuilt]
        refine ⟨?_, rfl⟩
        rw [combinationIssue, if_neg hchosen, hchildren, if_neg Bool.false_ne_true, inputIssue_none]
        exact hissues
  · rintro ⟨hissue, hchain⟩
    rw [inspectCombination] at hissue hchain
    cases hcombine : combine (children.map Inspected.chain) combination with
    | error reason =>
        rw [hcombine] at hissue
        cases hfirst : combinationIssue children combination with
        | none => simp [hfirst] at hissue
        | some issue => simp [hfirst] at hissue
    | ok combined =>
        rw [hcombine] at hissue hchain
        obtain ⟨hchosen, hne⟩ := combine_some hcombine
        have hchildren : children.isEmpty = false := by
          cases children with
          | nil => exact absurd rfl hne
          | cons => rfl
        rw [combinationIssue, if_neg hchosen, hchildren, if_neg Bool.false_ne_true, inputIssue_none] at hissue
        rw [(h _).mpr ⟨hissue, rfl⟩, ← hchain]
        exact hcombine

theorem inspectSource_agrees (columns : List ColumnInfo) (part : Part) (label : String) (kind : IssueKind) :
    (inspectSource columns part label kind).Agrees (partChain columns part) := by
  rw [inspectSource]
  cases partChain columns part with
  | ok chain => exact Inspected.agrees_ok chain
  | error reason => exact Inspected.agrees_error (Option.some_ne_none _) reason

/-- A part whose inputs agree. -/
theorem AllAgree.part {part : Part} (h : AllAgree (inspectBuildParts columns part.children) (partChains columns part.children)) :
    (inspectBuildPart columns part).Agrees (partChain columns part) := by
  cases part with
  | combination id operations combination children =>
      have hagrees := (h.combination combination).operations operations
      rw [bind_assoc] at hagrees
      exact hagrees
  | column id operations column =>
      have hsource := inspectSource_agrees columns (.column id [] column) "Column unavailable" .invalid
      have hagrees := hsource.operations operations
      rw [partChain, bind_assoc] at hagrees
      exact hagrees
  | sql id operations expression =>
      have hsource := inspectSource_agrees columns (.sql id [] expression) "Needs input" .incomplete
      have hagrees := hsource.operations operations
      rw [partChain, bind_assoc] at hagrees
      exact hagrees
  | literal id operations literalType value =>
      have hsource := inspectSource_agrees columns (.literal id [] literalType value) "Needs input" .incomplete
      have hagrees := hsource.operations operations
      rw [partChain, bind_assoc] at hagrees
      exact hagrees

theorem inspectBuildParts_agree (columns : List ColumnInfo) (parts : List Part) :
    AllAgree (inspectBuildParts columns parts) (partChains columns parts) := by
  induction parts using BuilderToken.forest_induction with
  | nil =>
      intro chains
      simp [inspectBuildParts, partChains]
  | cons part rest hpart hrest => exact .cons hpart.part hrest

/-- What is inspected is what is built. -/
theorem inspectBuildPart_agrees (columns : List ColumnInfo) (part : Part) :
    (inspectBuildPart columns part).Agrees (partChain columns part) :=
  (inspectBuildParts_agree columns part.children).part

end Agreement

end Wordflow.Build
