import Mathlib.Data.Nat.Basic
import Mathlib.Data.String.Basic
import Wordflow.Library.OrderedMap
import Wordflow.Library.Run
import Wordflow.Library.Text
import Wordflow.Objects

namespace Wordflow.Gateway

open Library.OrderedMap Library.Text Objects

/-- What the sign-in needs of its configuration, with the digest it stores in
place of a secret. -/
structure Auth (Digest : Type) where
  providers : List String
  origin : String
  hash : String → Digest

/-- The headers that are read, each cookie header as its text. -/
structure Headers where
  cookies : List String
  origin : Option String
  csrf : Option String
  deriving DecidableEq

structure Query where
  state : String
  code : Option String
  deriving DecidableEq

structure Claims where
  issuer : String
  subject : String
  name : Option String
  deriving DecidableEq

/-- A pending sign-in, numbered for the log. -/
structure Login (Digest : Type) where
  serial : Nat
  provider : String
  nonce : String
  verifier : String
  binding : Digest
  expires : Nat
  deriving DecidableEq

structure Account where
  id : String
  name : Option String
  browserCredentials : Bool
  deriving DecidableEq

structure AccountRow where
  id : String
  issuer : String
  subject : String
  name : Option String
  deriving DecidableEq

structure SessionRow (Digest : Type) where
  csrfHash : Digest
  accountId : String
  expires : Nat
  deriving DecidableEq

/-- A request that waits: for the provider, or for the database with the time it
has read. -/
inductive Call (Digest : Type)
  | exchanging (login : Login Digest) (code : String)
  | storing (serial : Nat) (claims : Claims) (session csrf : String) (time : Nat)
  | checking (headers : Headers) (time : Nat)
  | mutating (headers : Headers) (time : Nat) (logout : Bool)
  | revoking (headers : Headers)
  | announcing (headers : Headers)
  deriving DecidableEq

inductive Entry (Digest : Type)
  | issued (state : String) (login : Login Digest)
  | consumed (serial : Nat) (provider : String) (query : Query) (headers : Headers) (instant : Nat)
  | granted (serial : Nat) (claims : Claims) (account : String) (token : Digest)
  | authenticated (id : Nat) (account : Account)
  | accepted (id : Nat)
  | loggedOut (id : Nat)
  | refused (id : Nat) (error : Error)
  deriving DecidableEq

/-- `instant` is the monotonic clock in nanoseconds, `now` the clock of the
system in seconds. `log` is what happened, the latest first; no step reads it. -/
structure State (Digest : Type) [LinearOrder Digest] where
  instant : Nat
  now : Nat
  transactions : Map String (Login Digest)
  accounts : List AccountRow
  sessions : Map Digest (SessionRow Digest)
  sessionsChanged : Nat
  calls : Map Nat (Call Digest)
  issued : Nat
  log : List (Entry Digest)

def denied : Error := ⟨"authentication_required", "Sign in to continue"⟩

def loginFailed : Error := ⟨"login_failed", "Sign-in could not be verified. Start a new sign-in."⟩

def loginBusy : Error := ⟨"login_busy", "Try signing in again shortly"⟩

def databaseError : Error := ⟨"authentication_store_failed", "Authentication storage failed"⟩

def originNotAllowed : Error := ⟨"origin_not_allowed", "Origin is not allowed"⟩

def csrfRejected : Error := ⟨"csrf_rejected", "Reload this page before retrying"⟩

def sessionSeconds : Nat := 24 * 60 * 60

def loginNanoseconds : Nat := 600 * 1000000000

def pendingLimit : Nat := 1024

def splitOnce (cs : List Char) : Option (List Char × List Char) :=
  match cs.span (· ≠ '=') with
  | (key, _ :: value) => some (key, value)
  | _ => none

/-- The first cookie of this name. -/
def cookie (headers : Headers) (name : String) : Option String :=
  (headers.cookies.flatMap fun v => v.toList.splitOn ';').findSome? fun v =>
    match splitOnce (trimEnd (trimStart v)) with
    | some (key, value) => if key = name.toList then some (String.ofList value) else none
    | none => none

def sessionCookie : String := "wordflow_session"

def loginCookie (state : String) : String := "wordflow_login_" ++ state

section Requests

variable {Digest : Type} [LinearOrder Digest] (auth : Auth Digest) (s : State Digest)

/-- The session that the cookie of a request names. -/
def presented (headers : Headers) : Option Digest := (cookie headers sessionCookie).map auth.hash

/-- `Auth::session` with the time it has read: the account and the seconds left. -/
def session (headers : Headers) (time : Nat) : Except Error (Account × Nat) :=
  match presented auth headers with
  | none => .error denied
  | some token =>
      match (s.sessions.get? token).filter fun row => time < row.expires with
      | none => .error denied
      | some row =>
          match s.accounts.find? fun account => account.id = row.accountId with
          | none => .error denied
          | some account => .ok (⟨account.id, account.name, true⟩, row.expires - time)

def mutation (headers : Headers) (time : Nat) : Except Error Unit :=
  if headers.origin ≠ some auth.origin then .error originNotAllowed
  else
    match presented auth headers, headers.csrf with
    | none, _ => .error denied
    | some _, none => .error csrfRejected
    | some token, some csrf =>
        match (s.sessions.get? token).filter fun row => time < row.expires with
        | none => .error csrfRejected
        | some row => if row.csrfHash = auth.hash csrf then .ok () else .error csrfRejected

def write (entry : Entry Digest) : State Digest := { s with log := entry :: s.log }

/-- A call returns an error. -/
def refuse (id : Nat) (error : Error) : State Digest :=
  write { s with calls := s.calls.remove id } (.refused id error)

def setCall (id : Nat) (call : Call Digest) : State Digest := { s with calls := s.calls.insert id call }

/-- The random values of a sign-in come with the event that makes it. -/
def login (id : Nat) (provider state nonce verifier binding : String) : State Digest :=
  if provider ∉ auth.providers then refuse s id loginFailed
  else
    let s := { s with transactions := s.transactions.filter fun _ login => s.instant < login.expires }
    if s.transactions.size ≥ pendingLimit then refuse s id loginBusy
    else
      let login : Login Digest :=
        ⟨s.issued, provider, nonce, verifier, auth.hash binding, s.instant + loginNanoseconds⟩
      write { s with
        transactions := s.transactions.insert state login
        issued := s.issued + 1 } (.issued state login)

/-- The part of `callback` before it contacts the provider. -/
def callback (id : Nat) (provider : String) (query : Query) (headers : Headers) : State Digest :=
  match s.transactions.get? query.state with
  | none => refuse s id loginFailed
  | some login =>
      let s := write { s with transactions := s.transactions.remove query.state }
        (.consumed login.serial provider query headers s.instant)
      if login.provider ≠ provider ∨ login.expires ≤ s.instant ∨
          (cookie headers (loginCookie query.state)).map auth.hash ≠ some login.binding then
        refuse s id loginFailed
      else if provider ∉ auth.providers then refuse s id loginFailed
      else
        match query.code with
        | none => refuse s id loginFailed
        | some code => setCall s id (.exchanging login code)

/-- The account of a verified identity, under a fresh id where there is none. -/
def provision (claims : Claims) (uuid : String) : Except Error (String × List AccountRow) :=
  match s.accounts.find? fun row => row.issuer = claims.issuer ∧ row.subject = claims.subject with
  | some found =>
      .ok (found.id, s.accounts.map fun row =>
        if row.issuer = claims.issuer ∧ row.subject = claims.subject then { row with name := claims.name }
        else row)
  | none =>
      if s.accounts.any fun row => row.id = uuid then .error databaseError
      else .ok (uuid, s.accounts ++ [⟨uuid, claims.issuer, claims.subject, claims.name⟩])

/-- The transaction of `callback`. -/
def store (claims : Claims) (session csrf uuid : String) (time : Nat) :
    Except Error (String × List AccountRow × Map Digest (SessionRow Digest)) := do
  let (id, accounts) ← provision s claims uuid
  let sessions := s.sessions.filter fun _ row => time < row.expires
  if sessions.contains (auth.hash session) then .error databaseError
  else .ok (id, accounts, sessions.insert (auth.hash session) ⟨auth.hash csrf, id, time + sessionSeconds⟩)

end Requests

/-- `session`, `mutation` and `logout` are requests that arrive and read the time;
`work` is the database at work for one, `failed` a provider or a database that fails. -/
inductive Event
  | tick (instant now : Nat)
  | login (id : Nat) (provider state nonce verifier binding : String)
  | callback (id : Nat) (provider : String) (query : Query) (headers : Headers)
  | exchanged (id : Nat) (claims : Claims) (session csrf : String)
  | session (id : Nat) (headers : Headers)
  | mutation (id : Nat) (headers : Headers)
  | logout (id : Nat) (headers : Headers)
  | work (id : Nat) (uuid : String)
  | announce (id : Nat)
  | failed (id : Nat)
  deriving DecidableEq

section Step

variable {Digest : Type} [LinearOrder Digest] (auth : Auth Digest) (s : State Digest)

def finish (id : Nat) (entry : Entry Digest) : State Digest := write { s with calls := s.calls.remove id } entry

def work (id : Nat) (uuid : String) : Call Digest → Option (State Digest)
  | .storing serial claims session csrf time =>
      match store auth s claims session csrf uuid time with
      | .error error => some (refuse s id error)
      | .ok (account, accounts, sessions) =>
          some (finish { s with accounts := accounts, sessions := sessions } id
            (.granted serial claims account (auth.hash session)))
  | .checking headers time =>
      match session auth s headers time with
      | .error error => some (refuse s id error)
      | .ok (account, _) => some (finish s id (.authenticated id account))
  | .mutating headers time logout =>
      match mutation auth s headers time with
      | .error error => some (refuse s id error)
      | .ok () => if logout then some (setCall s id (.revoking headers)) else some (finish s id (.accepted id))
  | .revoking headers =>
      match presented auth headers with
      | none => some (refuse s id denied)
      | some token => some (setCall { s with sessions := s.sessions.remove token } id (.announcing headers))
  | _ => none

def arrive (id : Nat) (call : Call Digest) : Option (State Digest) :=
  if (s.calls.get? id).isNone then some (setCall s id call) else none

def step (s : State Digest) : Event → Option (State Digest)
  | .tick instant now => if s.instant ≤ instant then some { s with instant := instant, now := now } else none
  | .login id provider state nonce verifier binding =>
      if (s.calls.get? id).isNone then some (login auth s id provider state nonce verifier binding) else none
  | .callback id provider query headers =>
      if (s.calls.get? id).isNone then some (callback auth s id provider query headers) else none
  | .exchanged id claims session csrf =>
      match s.calls.get? id with
      | some (.exchanging login _) => some (setCall s id (.storing login.serial claims session csrf s.now))
      | _ => none
  | .session id headers => arrive s id (.checking headers s.now)
  | .mutation id headers => arrive s id (.mutating headers s.now false)
  | .logout id headers => arrive s id (.mutating headers s.now true)
  | .work id uuid => (s.calls.get? id).bind (work auth s id uuid)
  | .announce id =>
      match s.calls.get? id with
      | some (.announcing _) =>
          some (finish { s with sessionsChanged := s.sessionsChanged + 1 } id (.loggedOut id))
      | _ => none
  | .failed id =>
      match s.calls.get? id with
      | some (.exchanging ..) => some (refuse s id loginFailed)
      | some (.announcing _) | none => none
      | some _ => some (refuse s id databaseError)

end Step

end Wordflow.Gateway
