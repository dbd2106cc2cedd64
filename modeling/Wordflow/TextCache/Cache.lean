import Mathlib.Logic.Function.Basic
import Wordflow.Library.Run

namespace Wordflow.TextCache

abbrev Id := Nat

/-- What a cache file holds: the columns of a table that name its scope and the
content hash are its primary key. -/
inductive File (Scope Value : Type)
  | absent
  | outdated
  | current (rows : Scope → String → Option Value)

variable {Scope Value : Type}

def File.rows : File Scope Value → Scope → String → Option Value
  | .current rows => rows
  | _ => fun _ _ => none

/-- A file whose schema is not current is replaced. -/
def openCache (file : File Scope Value) : File Scope Value := .current file.rows

section Table

variable [DecidableEq Scope]

def fetchCached (file : File Scope Value) (scope : Scope) (hashes : List String) : String → Option Value :=
  fun hash => if hash ∈ hashes then file.rows scope hash else none

/-- `INSERT OR IGNORE` of one row. -/
def insertOrIgnore (rows : Scope → String → Option Value) (scope : Scope) (entry : String × Value) :
    Scope → String → Option Value :=
  fun s hash => if s = scope ∧ hash = entry.1 then some ((rows s hash).getD entry.2) else rows s hash

def persistNew (file : File Scope Value) (scope : Scope) (entries : List (String × Value)) : File Scope Value :=
  .current (entries.foldl (fun rows entry => insertOrIgnore rows scope entry) file.rows)

end Table

section Flow

def uniqueMissesFrom (cached : String → Option Value) : List String → List (String × String) → List (String × String)
  | _, [] => []
  | seen, (hash, text) :: rest =>
      if (cached hash).isNone ∧ hash ∉ seen then (hash, text) :: uniqueMissesFrom cached (hash :: seen) rest
      else uniqueMissesFrom cached seen rest

/-- The misses with their hashes, in the order of the texts. -/
def uniqueMisses (texts hashes : List String) (cached : String → Option Value) : List (String × String) :=
  uniqueMissesFrom cached [] (hashes.zip texts)

/-- Where a call stands between the sections it takes a lock for. -/
inductive Phase (Value : Type)
  | waiting
  | leased
  | missing (cached : String → Option Value) (misses : List (String × String))
  | computed (cached : String → Option Value) (entries : List (String × Value))
  | collecting (cached : String → Option Value)
  | finished (result : Except String (List Value))

/-- The file lease is held from its acquisition to the end of the call. -/
def Phase.holdsLease : Phase Value → Bool
  | .waiting | .finished _ => false
  | _ => true

def Phase.isFinished : Phase Value → Bool
  | .finished _ => true
  | _ => false

variable [DecidableEq Scope] (hashText : String → String)

/-- The first locked section, and the search for misses. -/
def fetch (file : File Scope Value) (scope : Scope) (texts : List String) : File Scope Value × Phase Value :=
  if texts = [] then (file, .finished (.ok []))
  else
    let hashes := texts.map hashText
    let cached := fetchCached (openCache file) scope hashes
    let misses := uniqueMisses texts hashes cached
    (openCache file, if misses = [] then .collecting cached else .missing cached misses)

def encoded (cached : String → Option Value) (misses : List (String × String)) (outcome : Except String (List Value)) :
    Phase Value :=
  match outcome with
  | .error e => .finished (.error e)
  | .ok values =>
      if values.length ≠ misses.length then
        .finished (.error ("cache miss encoder returned " ++ toString values.length ++ " values for " ++
          toString misses.length ++ " texts"))
      else .computed cached ((misses.map Prod.fst).zip values)

def insertAll (cached : String → Option Value) (entries : List (String × Value)) : String → Option Value :=
  entries.foldl (fun cached entry => Function.update cached entry.1 (some entry.2)) cached

/-- Expand to the order of the input. -/
def collect (cached : String → Option Value) (texts : List String) : Except String (List Value) :=
  (texts.map hashText).mapM fun hash =>
    match cached hash with
    | some value => .ok value
    | none => .error ("cache missing computed hash " ++ hash)

end Flow

structure Call (Scope Value : Type) where
  id : Id
  process : Id
  scope : Scope
  texts : List String
  phase : Phase Value

/-- A run of `clear` past its first lock: of the lease within its process, or
also of the lease file. -/
structure Maintenance where
  id : Id
  process : Id
  exclusive : Bool
  deriving DecidableEq

structure Cache (Scope Value : Type) where
  file : File Scope Value
  calls : List (Call Scope Value)
  maintenances : List Maintenance

inductive Event (Scope Value : Type)
  | getOrInsert (id process : Id) (scope : Scope) (texts : List String)
  | lease (id : Id)
  | fetch (id : Id)
  | encode (id : Id) (passed : List String) (outcome : Except String (List Value))
  | persist (id : Id)
  | collect (id : Id)
  | fault (id : Id) (opened : Bool) (message : String)
  | clear (id process : Id)
  | lockExclusive (id : Id)
  | remove (id : Id)
  | release (id : Id)

section Step

variable [DecidableEq Scope] [DecidableEq Value] (hashText : String → String) (f : Scope → String → Value)

def findCall (s : Cache Scope Value) (id : Id) : Option (Call Scope Value) := s.calls.find? fun c => c.id = id

def setPhase (s : Cache Scope Value) (id : Id) (phase : Phase Value) : Cache Scope Value :=
  { s with calls := s.calls.map fun c => if c.id = id then { c with phase := phase } else c }

/-- A call holds the lease of its process until it ends. -/
def processBusy (s : Cache Scope Value) (process : Id) : Bool :=
  (s.calls.any fun c => c.process = process && !c.phase.isFinished) || s.maintenances.any fun m => m.process = process

def fileBusy (s : Cache Scope Value) : Bool :=
  (s.calls.any fun c => c.phase.holdsLease) || s.maintenances.any Maintenance.exclusive

/-- An encoder that answers with one value a text answers with the right ones. -/
def answers (scope : Scope) (passed : List String) (outcome : Except String (List Value)) : Bool :=
  match outcome with
  | .error _ => true
  | .ok values => values.length ≠ passed.length || values = passed.map (f scope)

/-- One locked section of a call or of `clear`, the encoder, or a failure of a
locked section, which may have opened the file. A shared lock waits for its
turn; an exclusive one that is refused ends `clear`. -/
def step (s : Cache Scope Value) : Event Scope Value → Option (Cache Scope Value)
  | .getOrInsert id process scope texts =>
      if (findCall s id).isNone ∧ (s.maintenances.any fun m => m.process = process) = false then
        some { s with calls := s.calls ++ [⟨id, process, scope, texts, .waiting⟩] }
      else none
  | .lease id =>
      match findCall s id with
      | some ⟨_, _, _, _, .waiting⟩ =>
          if s.maintenances.any Maintenance.exclusive then none else some (setPhase s id .leased)
      | _ => none
  | .fetch id =>
      match findCall s id with
      | some ⟨_, _, scope, texts, .leased⟩ =>
          let (file, phase) := fetch hashText s.file scope texts
          some (setPhase { s with file := file } id phase)
      | _ => none
  | .encode id passed outcome =>
      match findCall s id with
      | some ⟨_, _, scope, _, .missing cached misses⟩ =>
          if passed = misses.map Prod.snd ∧ answers f scope passed outcome then
            some (setPhase s id (encoded cached misses outcome))
          else none
      | _ => none
  | .persist id =>
      match findCall s id with
      | some ⟨_, _, scope, _, .computed cached entries⟩ =>
          some (setPhase { s with file := persistNew (openCache s.file) scope entries } id
            (.collecting (insertAll cached entries)))
      | _ => none
  | .collect id =>
      match findCall s id with
      | some ⟨_, _, _, texts, .collecting cached⟩ =>
          some (setPhase s id (.finished (collect hashText cached texts)))
      | _ => none
  | .fault id opened message =>
      match findCall s id with
      | some c =>
          if c.phase.isFinished then none
          else
            some (setPhase { s with file := if opened ∧ c.phase.holdsLease then openCache s.file else s.file } id
              (.finished (.error message)))
      | none => none
  | .clear id process =>
      if s.maintenances.any (fun m => m.id = id) then none
      else if processBusy s process then some s
      else some { s with maintenances := s.maintenances ++ [⟨id, process, false⟩] }
  | .lockExclusive id =>
      if s.maintenances.any (fun m => m.id = id && !m.exclusive) then
        if fileBusy s then some { s with maintenances := s.maintenances.filter fun m => m.id ≠ id }
        else
          some { s with maintenances := s.maintenances.map fun m => if m.id = id then { m with exclusive := true } else m }
      else none
  | .remove id =>
      if s.maintenances.any (fun m => m.id = id && m.exclusive) then some { s with file := .absent } else none
  | .release id => some { s with maintenances := s.maintenances.filter fun m => m.id ≠ id }

end Step

end Wordflow.TextCache
