import Wordflow.Analyses.Store
import Wordflow.Frequency.Statistics

namespace Wordflow.Frequency

open Library Number Analyses Objects

structure FrequencyCorpus where
  artifactId : Uuid
  totalTokens : Nat
  vocabularySize : Nat
  deriving DecidableEq

/-- The values that the text of the View is made with. -/
structure ComparisonSql where
  reference : String
  study : String
  n0 : Nat
  n1 : Nat
  grand : Nat
  deriving DecidableEq

def comparisonSql (reference study : FrequencyCorpus) : Except Error ComparisonSql :=
  let n0 := reference.totalTokens
  let n1 := study.totalTokens
  if ¬((n0 = 0) ↔ (n1 = 0)) then .error ⟨"analysis_failed", "both corpora must have a positive total frequency"⟩
  else if ¬n0 + n1 < 2 ^ 64 then .error ⟨"analysis_failed", "combined corpus total exceeds u64"⟩
  else .ok ⟨artifactTable reference.artifactId, artifactTable study.artifactId, n0, n1, max (n0 + n1) 1⟩

section Rows

/-- A row of `counts`. -/
structure Counted (τ : Type) where
  token : τ
  freqCorpus0 : Nat
  freqCorpus1 : Nat

/-- A row of `floating`, which has every column of `counts`. -/
structure Floating (τ K : Type) extends Counted τ where
  f0 : Number K
  f1 : Number K
  corpus0Total : Nat
  corpus1Total : Nat
  grand : Number K

structure Expected (τ K : Type) extends Floating τ K where
  expected0 : Number K
  expected1 : Number K
  p0 : Number K
  p1 : Number K

structure Measures (τ K : Type) extends Expected τ K where
  logLikelihoodLlv : Number K

structure Statistics (τ K : Type) where
  token : τ
  freqCorpus0 : Nat
  freqCorpus1 : Nat
  expected0 : Number K
  expected1 : Number K
  corpus0Total : Nat
  corpus1Total : Nat
  logLikelihoodLlv : Number K
  bayesFactorBic : Number K
  effectSizeEll : Number K
  significance : String
  percentCorpus0 : Number K
  percentCorpus1 : Number K
  percentDiff : Number K
  relativeRisk : Number K
  logRatio : Number K
  oddsRatio : Number K

inductive Overuse
  | reference
  | study
  | equal
  deriving DecidableEq, Repr

/-- The corpora by the names they have where they are exchanged. -/
def Overuse.renamed : Overuse → Overuse
  | .reference => .study
  | .study => .reference
  | .equal => .equal

/-- A row of `frequency_statistics.sql`. -/
structure FrequencyStatistics (τ K : Type) extends Statistics τ K where
  overuse : Overuse
  signedLl : Number K

/-- A row of `frequency_study_statistics.sql`, where a column can be NULL. -/
structure StudyStatistics (τ K : Type) where
  token : τ
  logLikelihoodLlv : Number K
  bayesFactorBic : Number K
  effectSizeEll : Number K
  significance : String
  relativeRisk : Number K
  logRatio : Number K
  oddsRatio : Number K
  signedLl : Number K
  freqCorpus0 : Nat
  freqCorpus1 : Nat
  expected0 : Number K
  expected1 : Number K
  corpus0Total : Nat
  corpus1Total : Nat
  percentCorpus0 : Number K
  percentCorpus1 : Number K
  overuse : Overuse
  percentDiff : Option (Number K)

end Rows

section Query

inductive SqlFailure
  | logarithm
  | overflow
  | missing
  deriving DecidableEq, Repr

variable {τ K : Type}

def coalesce (a : Option (τ × Nat)) : Nat := (a.map Prod.snd).getD 0

def counts [DecidableEq τ] (a b : List (τ × Nat)) : List (Counted τ) :=
  ((FullJoin.fullJoin a b).filterMap fun row =>
    (row.1 <|> row.2).map fun e => ⟨e.1, coalesce row.1, coalesce row.2⟩).filter
      fun row => row.freqCorpus0 > 0 ∨ row.freqCorpus1 > 0

variable [Field K] [LinearOrder K] (ln log2 : K → K)

def floating (sql : ComparisonSql) (row : Counted τ) : Floating τ K where
  toCounted := row
  f0 := float row.freqCorpus0
  f1 := float row.freqCorpus1
  corpus0Total := sql.n0
  corpus1Total := sql.n1
  grand := float sql.grand

def expected (row : Floating τ K) : Expected τ K where
  toFloating := row
  expected0 := (row.f0 + row.f1) * float row.corpus0Total / row.grand
  expected1 := (row.f0 + row.f1) * float row.corpus1Total / row.grand
  p0 := row.f0 / float row.corpus0Total
  p1 := row.f1 / float row.corpus1Total

/-- A logarithm of the database is an error at zero or below. -/
def logarithm (f : K → K) : Number K → Except SqlFailure (Number K)
  | .real x => if 0 < x then .ok (.real (f x)) else .error .logarithm
  | .undefined => .ok .undefined

/-- Only the branch that is taken is computed. -/
def surprise (count : Nat) (f expected : Number K) : Except SqlFailure (Number K) :=
  if count > 0 then (logarithm ln (f / max expected (decimal 1 10))).map fun l => f * l else .ok (float 0)

def measures (row : Expected τ K) : Except SqlFailure (Measures τ K) := do
  let first ← surprise ln row.freqCorpus0 row.f0 row.expected0
  let second ← surprise ln row.freqCorpus1 row.f1 row.expected1
  return { toExpected := row, logLikelihoodLlv := float 2 * (first + second) }

def subtract (n c : Nat) : Except SqlFailure Nat := if c ≤ n then .ok (n - c) else .error .overflow

def statistics (row : Measures τ K) : Except SqlFailure (Statistics τ K) := do
  let grandLn ← logarithm ln row.grand
  let leastLn ← logarithm ln (max (min row.expected0 row.expected1) (decimal 1 10))
  let ratio ← logarithm log2
    (((if row.freqCorpus0 = 0 then decimal 5 1 else row.f0) / float row.corpus0Total) /
      ((if row.freqCorpus1 = 0 then decimal 5 1 else row.f1) / float row.corpus1Total))
  let rest0 ← subtract row.corpus0Total row.freqCorpus0
  let rest1 ← subtract row.corpus1Total row.freqCorpus1
  return {
    token := row.token
    freqCorpus0 := row.freqCorpus0
    freqCorpus1 := row.freqCorpus1
    expected0 := row.expected0
    expected1 := row.expected1
    corpus0Total := row.corpus0Total
    corpus1Total := row.corpus1Total
    logLikelihoodLlv := row.logLikelihoodLlv
    bayesFactorBic := row.logLikelihoodLlv - grandLn
    effectSizeEll := row.logLikelihoodLlv / (row.grand * leastLn)
    significance := significance row.logLikelihoodLlv
    percentCorpus0 := row.p0 * float 100
    percentCorpus1 := row.p1 * float 100
    percentDiff := (row.p0 - row.p1) * float 100 / if row.freqCorpus1 = 0 then decimal 1 18 else row.p1
    relativeRisk := row.p0 / row.p1
    logRatio := ratio
    oddsRatio := (row.f0 / float rest0) / (row.f1 / float rest1) }

def above (x y : Number K) : Bool := holds (fun a b => decide (b < a)) x y

def sign : Number K → Number K := Number.map fun x => if 0 < x then 1 else if x < 0 then -1 else 0

/-- The outermost SELECT of `frequency_statistics.sql`. -/
def frequencyStatistics (row : Statistics τ K) : FrequencyStatistics τ K where
  toStatistics := row
  overuse :=
    if above row.percentCorpus0 row.percentCorpus1 then .reference
    else if above row.percentCorpus1 row.percentCorpus0 then .study
    else .equal
  signedLl := sign (row.percentCorpus0 - row.percentCorpus1) * Number.map abs row.logLikelihoodLlv

/-- The SELECT of `frequency_study_statistics.sql`. What an expression names is the column of its
source, also where an alias has the same name. -/
def studyStatistics (row : FrequencyStatistics τ K) : StudyStatistics τ K where
  token := row.token
  logLikelihoodLlv := row.logLikelihoodLlv
  bayesFactorBic := row.bayesFactorBic
  effectSizeEll := row.effectSizeEll
  significance := row.significance
  relativeRisk := row.relativeRisk
  logRatio := row.logRatio
  oddsRatio := row.oddsRatio
  signedLl := row.signedLl
  freqCorpus0 := row.freqCorpus1
  freqCorpus1 := row.freqCorpus0
  expected0 := row.expected1
  expected1 := row.expected0
  corpus0Total := row.corpus1Total
  corpus1Total := row.corpus0Total
  percentCorpus0 := row.percentCorpus1
  percentCorpus1 := row.percentCorpus0
  overuse := row.overuse.renamed
  percentDiff := if row.freqCorpus1 = 0 then none else some row.percentDiff

def studyRow (sql : ComparisonSql) (row : Counted τ) : Except SqlFailure (StudyStatistics τ K) := do
  let row ← measures ln (expected (floating sql row))
  let row ← statistics ln log2 row
  return studyStatistics (frequencyStatistics row)

end Query

section Results

variable {τ K : Type}

/-- The relations of results: what tables hold and how Views are defined. -/
structure Results (τ : Type) where
  db : Database
  tables : String → Option (List (τ × Nat))
  views : String → Option ComparisonSql

def countedCorpus (artifactId : Uuid) (count : Counts τ) : Except Error FrequencyCorpus :=
  match checkedSum (count.entries.map Prod.snd) with
  | some total => .ok ⟨artifactId, total, count.entries.length⟩
  | none => .error (.invalid "Token count exceeds u64")

/-- How `store_comparison` changes the database. -/
def storeComparison (id : Uuid) (reference study : FrequencyCorpus) : List Effect :=
  match comparisonSql study reference with
  | .ok _ => [.create id .view, .registerTable id "comparison"]
  | .error error => [.fail error]

def storeCorpus (index : Nat) (corpus : FrequencyCorpus) : List Effect :=
  [.create corpus.artifactId .baseTable, .registerTable corpus.artifactId ("corpus-" ++ toString index)]

def Results.store (results : Results τ) (db : Database) (referenceId studyId id : Uuid) (reference study : Counts τ)
    (sql : ComparisonSql) : Results τ where
  db := db
  tables := Function.update (Function.update results.tables (artifactTable referenceId) (some reference.entries))
    (artifactTable studyId) (some study.entries)
  views := Function.update results.views (artifactTable id) (some sql)

/-- The result of two corpora is published with their tables and the View that compares them. -/
def publishFrequency (results : Results τ) (accepted : AcceptedAnalysis) (referenceId studyId id : Uuid)
    (reference study : Counts τ) (payload : Json) : Except Error (Results τ) := do
  let first ← countedCorpus referenceId reference
  let second ← countedCorpus studyId study
  let db ← publishAnalysisVersion results.db accepted 1
    (storeCorpus 0 first ++ storeCorpus 1 second ++ storeComparison id first second) payload
  let sql ← comparisonSql second first
  return results.store db referenceId studyId id reference study sql

/-- A transaction that fails is rolled back. -/
def Results.after (results : Results τ) (published : Except Error (Results τ)) : Results τ := published.toOption.getD results

/-- What a View of a comparison shows. -/
def Results.read [DecidableEq τ] [Field K] [LinearOrder K] (results : Results τ) (ln log2 : K → K) (id : Uuid) :
    Except SqlFailure (List (StudyStatistics τ K)) :=
  match results.views (artifactTable id) with
  | none => .error .missing
  | some sql => match results.tables sql.reference, results.tables sql.study with
    | some a, some b => (counts a b).mapM (studyRow ln log2 sql)
    | _, _ => .error .missing

end Results

end Wordflow.Frequency
