import Mathlib.Data.Finset.Sort
import Wordflow.Library.FullJoin
import Wordflow.Library.Logarithm

namespace Wordflow.Frequency

open Library Number

/-- The base of the decimals. -/
instance tenAtLeastTwo : Nat.AtLeastTwo 10 := inferInstance

/-- Counts by token, each token once and in any order. -/
structure Counts (τ : Type) where
  entries : List (τ × Nat)
  nodup : (entries.map Prod.fst).Nodup

/-- The sum of counts that fits in 64 bits. -/
def checkedSum (values : List Nat) : Option Nat :=
  values.foldlM (fun sum n => if sum + n < 2 ^ 64 then some (sum + n) else none) 0

namespace Counts

variable {τ : Type} (counts : Counts τ)

def tokens : List τ := counts.entries.map Prod.fst

def total : Nat := (counts.entries.map Prod.snd).sum

/-- How often a token occurs: never if it has no entry. -/
def frequency [DecidableEq τ] (token : τ) : Nat := (FullJoin.lookup counts.entries token).getD 0

end Counts

structure FrequencyStats (τ K : Type) where
  token : τ
  freqCorpus0 : Nat
  freqCorpus1 : Nat
  expected0 : Number K
  expected1 : Number K
  corpus0Total : Nat
  corpus1Total : Nat
  logLikelihoodLlv : Number K
  bayesFactorBic : Number K
  effectSizeEll : Number K
  significance : String
  percentCorpus0 : Number K
  percentCorpus1 : Number K
  percentDiff : Number K
  relativeRisk : Number K
  logRatio : Number K
  oddsRatio : Number K

inductive Failure
  | message (text : String)
  | panic
  deriving DecidableEq, Repr

section Stats

variable {τ K : Type} [Field K] [LinearOrder K] (ln log2 : K → K)

/-- A logarithm in the code has no value at zero or below. -/
def positive (f : K → K) : Number K → Number K
  | .real x => if 0 < x then .real (f x) else .undefined
  | .undefined => .undefined

def checkedSub (n c : Nat) : Except Failure Nat := if c ≤ n then .ok (n - c) else .error .panic

def decimal (digits : Nat) (places : Nat) : Number K := .real (digits / 10 ^ places)

def float (n : Nat) : Number K := .real n

def atLeast (x y : Number K) : Bool := holds (fun a b => decide (b ≤ a)) x y

def significance (ll : Number K) : String :=
  if atLeast ll (decimal 1513 2) then "****"
  else if atLeast ll (decimal 1083 2) then "***"
  else if atLeast ll (decimal 663 2) then "**"
  else if atLeast ll (decimal 384 2) then "*"
  else ""

/-- One pass of the loop over the tokens. -/
def tokenStats (n0 n1 grand : Nat) (token : τ) (c0 c1 : Nat) : Except Failure (FrequencyStats τ K) := do
  let grand : Number K := float grand
  let f0 : Number K := float c0
  let f1 : Number K := float c1
  let e0 := (f0 + f1) * float n0 / grand
  let e1 := (f0 + f1) * float n1 / grand
  let ll := float 2 *
    ((if c0 > 0 then f0 * positive ln (f0 / max e0 (decimal 1 10)) else float 0) +
      if c1 > 0 then f1 * positive ln (f1 / max e1 (decimal 1 10)) else float 0)
  let p0 := f0 / float n0
  let p1 := f1 / float n1
  let rest0 ← checkedSub n0 c0
  let rest1 ← checkedSub n1 c1
  return {
    token := token
    freqCorpus0 := c0
    freqCorpus1 := c1
    expected0 := e0
    expected1 := e1
    corpus0Total := n0
    corpus1Total := n1
    logLikelihoodLlv := ll
    bayesFactorBic := ll - positive ln grand
    effectSizeEll := ll / (grand * positive ln (max (min e0 e1) (decimal 1 10)))
    significance := significance ll
    percentCorpus0 := p0 * float 100
    percentCorpus1 := p1 * float 100
    percentDiff := (p0 - p1) * float 100 / if c1 = 0 then decimal 1 18 else p1
    relativeRisk := p0 / p1
    logRatio := positive log2 (((if c0 = 0 then decimal 5 1 else f0) / float n0) / ((if c1 = 0 then decimal 5 1 else f1) / float n1))
    oddsRatio := (f0 / float rest0) / (f1 / float rest1) }

def corpusTotal (counts : Counts τ) : Except Failure Nat :=
  match checkedSum (counts.entries.map Prod.snd) with
  | some n => .ok n
  | none => .error (.message "corpus total exceeds u64")

variable [LinearOrder τ]

def vocabulary (a b : Counts τ) : List τ := (a.tokens ++ b.tokens).toFinset.sort

/-- The tokens that occur, with their counts. -/
def occurring (a b : Counts τ) : List (τ × Nat × Nat) :=
  ((vocabulary a b).map fun token => (token, a.frequency token, b.frequency token)).filter fun e => ¬(e.2.1 = 0 ∧ e.2.2 = 0)

/-- Compare counts in the order of the tokens. -/
def frequencyStats (a b : Counts τ) : Except Failure (List (FrequencyStats τ K)) := do
  let n0 ← corpusTotal a
  let n1 ← corpusTotal b
  if n0 = 0 ∧ n1 = 0 then .ok []
  else if ¬(n0 > 0 ∧ n1 > 0) then .error (.message "both corpora must have a positive total frequency")
  else if ¬n0 + n1 < 2 ^ 64 then .error (.message "combined corpus total exceeds u64")
  else (occurring a b).mapM fun e => tokenStats ln log2 n0 n1 (n0 + n1) e.1 e.2.1 e.2.2

end Stats

end Wordflow.Frequency
