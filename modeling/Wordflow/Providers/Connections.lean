import Mathlib.Data.List.DropRight
import Wordflow.Library.Attempt
import Wordflow.Library.OrderedMap
import Wordflow.Library.Slices
import Wordflow.Library.Text

namespace Wordflow.Providers

open Library Library.Attempt

structure Error where
  code : String
  message : String
  deriving DecidableEq

def Error.invalid (message : String) : Error := ⟨"invalid_request", message⟩

inductive Provider
  | openai
  | openrouter
  | anthropic
  | google
  | custom
  | apple
  deriving DecidableEq

inductive CredentialMode
  | none
  | session
  | remembered
  | browser
  deriving DecidableEq

structure Connection (Id : Type) where
  id : Id
  revision : Id
  name : String
  provider : Provider
  endpoint : Option String
  credentialMode : CredentialMode
  annotationConcurrency : Option Nat
  deriving DecidableEq

structure ConnectionInfo (Id : Type) where
  connection : Connection Id
  hasCredential : Bool
  credentialError : Option Error
  builtIn : Bool
  deriving DecidableEq

inductive CredentialUpdate
  | keep
  | session (key : String)
  | remember (key : String)
  | browser
  | remove
  deriving DecidableEq

structure CreateConnection where
  name : String
  provider : Provider
  endpoint : Option String
  credential : CredentialUpdate

structure UpdateConnection where
  name : String
  credential : CredentialUpdate

/-- What an endpoint is parsed into. -/
structure Url where
  scheme : String
  host : Option String
  username : String
  password : Option String
  query : Option String
  fragment : Option String

structure Host (Id : Type) where
  browserOwned : Bool
  requestKey : Option (Id × String)
  parseUrl : String → Option Url
  /-- The connection that is built in, and whether it is there. -/
  apple : Connection Id
  availability : Except Error Unit

/-- The connections in memory, their file, the keys of the session and the secret store. -/
structure Stores (Id : Type) [LinearOrder Id] where
  connections : OrderedMap.Map Id (Connection Id)
  file : Option (List (Connection Id))
  sessions : OrderedMap.Map Id String
  secrets : OrderedMap.Map Id String
  deriving DecidableEq

/-- The calls of an operation that fail: a key that is read, the change of a key, the file, the change back, and the key
that the reply tells about. -/
structure Faults where
  read : Option Error
  change : Option Error
  persist : Option Error
  restore : Option Error
  report : Option Error

section Source

variable {Id : Type} [LinearOrder Id] (host : Host Id) (fault : Option Error)

def getSecret (id : Id) : Attempt Error (Stores Id) (Option String) :=
  match fault with
  | some error => throw error
  | none => do return (← get).secrets.get? id

def setSecret (id : Id) (key : String) : Attempt Error (Stores Id) Unit :=
  match fault with
  | some error => throw error
  | none => modify fun s => { s with secrets := s.secrets.insert id key }

def removeSecret (id : Id) : Attempt Error (Stores Id) Unit :=
  match fault with
  | some error => throw error
  | none => modify fun s => { s with secrets := s.secrets.remove id }

def persist (rows : OrderedMap.Map Id (Connection Id)) : Attempt Error (Stores Id) Unit :=
  match fault with
  | some error => throw error
  | none => modify fun s => { s with file := some (rows.entries.map Prod.snd) }

def connection (id : Id) : Attempt Error (Stores Id) (Connection Id) := do
  match (← get).connections.get? id with
  | some row => return row
  | none => throw ⟨"provider_not_found", "The selected provider connection no longer exists"⟩

def credential (row : Connection Id) : Attempt Error (Stores Id) (Option String) :=
  match row.credentialMode with
  | .none | .browser => return none
  | .session => do return (← get).sessions.get? row.id
  | .remembered => getSecret fault row.id

def defaultConcurrency : Provider → Nat
  | .apple => 1
  | .custom => 2
  | _ => 10

def info (row : Connection Id) : Attempt Error (Stores Id) (ConnectionInfo Id) := do
  let credential ← result (credential fault row)
  return {
    connection := { row with
      annotationConcurrency := some (row.annotationConcurrency.getD (defaultConcurrency row.provider)) }
    hasCredential := match credential with
      | .ok (some _) => true
      | _ => false
    credentialError := match credential with
      | .ok _ => none
      | .error error => some error
    builtIn := false }

def validateName (name : String) : Attempt Error (Stores Id) Unit :=
  require (Text.trim name ≠ "") (.invalid "Enter a provider connection name")

def validateEndpoint (provider : Provider) (endpoint : Option String) : Attempt Error (Stores Id) Unit :=
  if provider ≠ .custom then
    require (endpoint = none) (.invalid "Only Custom connections accept an endpoint")
  else
    match endpoint with
    | none => throw (.invalid "Enter a Custom API endpoint")
    | some endpoint =>
        match host.parseUrl endpoint with
        | none => throw (.invalid "Enter a valid Custom API endpoint")
        | some url => require ((url.scheme = "http" ∨ url.scheme = "https") ∧ url.host ≠ none ∧ url.username = "" ∧
            url.password = none ∧ url.query = none ∧ url.fragment = none)
            (.invalid "Custom endpoints must be HTTP(S) URLs without embedded credentials, query strings or fragments")

/-- Only the listed characters are tried, not all there are. -/
instance decidableAvoids (chars key : List Char) : Decidable (∀ c ∈ chars, c ∉ key) := List.decidableBAll _ chars

def validateKey (key : String) : Attempt Error (Stores Id) Unit :=
  require (Text.trim key ≠ "" ∧ extent key.toList ≤ 8192 ∧ ∀ c ∈ ['\r', '\n', '\x00'], c ∉ key.toList)
    (.invalid "Enter a nonblank API key, or choose Remove")

def changeCredential (row : Connection Id) (update : CredentialUpdate) : Attempt Error (Stores Id) (Connection Id) :=
  match update with
  | .keep => return row
  | .browser => do
      require (host.browserOwned = true) (.invalid "Browser credentials require multi-user mode")
      return { row with credentialMode := .browser }
  | .remember key => do
      require (host.browserOwned = false) (.invalid "This host stores provider keys in the authenticated browser only")
      validateKey key
      setSecret fault row.id key
      modify fun s => { s with sessions := s.sessions.remove row.id }
      return { row with credentialMode := .remembered }
  | .session key => do
      require (host.browserOwned = false) (.invalid "This host stores provider keys in the authenticated browser only")
      validateKey key
      whenever (row.credentialMode = .remembered) (removeSecret fault row.id)
      modify fun s => { s with sessions := s.sessions.insert row.id key }
      return { row with credentialMode := .session }
  | .remove => do
      whenever (row.credentialMode = .remembered) (removeSecret fault row.id)
      modify fun s => { s with sessions := s.sessions.remove row.id }
      return { row with credentialMode := .none }

def restoreSecret (old new : Connection Id) (key : Option String) : Attempt Error (Stores Id) Unit :=
  if old.credentialMode = .remembered then
    match key with
    | some key => setSecret fault old.id key
    | none => removeSecret fault old.id
  else whenever (new.credentialMode = .remembered) (removeSecret fault old.id)

def restoreSession (old : Connection Id) (key : Option String) : Attempt Error (Stores Id) Unit := do
  modify fun s => { s with sessions := s.sessions.remove old.id }
  match old.credentialMode, key with
  | .session, some key => modify fun s => { s with sessions := s.sessions.insert old.id key }
  | _, _ => return ()

def restoreCredential (old new : Connection Id) (key : Option String) : Attempt Error (Stores Id) Unit := do
  restoreSecret fault old new key
  restoreSession old key

def trimEndSlashes (endpoint : String) : String := String.ofList (endpoint.toList.rdropWhile fun c => c = '/')

variable (faults : Faults)

def create (id revision : Id) (request : CreateConnection) : Attempt Error (Stores Id) (ConnectionInfo Id) := do
  require (request.provider ≠ .apple) (.invalid "Use the built-in Apple Foundation Models connection")
  validateName request.name
  validateEndpoint host request.provider request.endpoint
  let row ← changeCredential host faults.change
    { id := id
      revision := revision
      name := Text.trim request.name
      provider := request.provider
      endpoint := request.endpoint.map trimEndSlashes
      credentialMode := .none
      annotationConcurrency := none } request.credential
  let next := (← get).connections.insert row.id row
  tryCatch (persist faults.persist next) fun error => do
    modify fun s => { s with sessions := s.sessions.remove row.id }
    whenever (row.credentialMode = .remembered) (tryCatch (removeSecret faults.restore row.id) fun _ => pure ())
    throw error
  modify fun s => { s with connections := next }
  info faults.report row

/-- The key before an update that changes it. -/
def previousKey (original : Connection Id) (update : CredentialUpdate) : Attempt Error (Stores Id) (Option (Option String)) :=
  match update with
  | .keep => return none
  | _ => some <$> credential fault original

def undoUpdate (original row : Connection Id) (previous : Option (Option String)) : Attempt Error (Stores Id) Unit :=
  match previous with
  | some previous => restoreCredential fault original row previous
  | none => return ()

def update (id revision : Id) (request : UpdateConnection) : Attempt Error (Stores Id) (ConnectionInfo Id) := do
  validateName request.name
  let original ← connection id
  let previous ← previousKey faults.read original request.credential
  let row ← changeCredential host faults.change { original with name := Text.trim request.name, revision := revision }
    request.credential
  let next := (← get).connections.insert id row
  tryCatch (persist faults.persist next) fun error => do
    undoUpdate faults.restore original row previous
    throw error
  modify fun s => { s with connections := next }
  info faults.report row

def annotationConcurrency (id : Id) (concurrency : Nat) : Attempt Error (Stores Id) (ConnectionInfo Id) := do
  let row ← connection id
  require (1 ≤ concurrency ∧ concurrency ≤ 32) (.invalid "Choose concurrency 1–32")
  let row := { row with annotationConcurrency := some concurrency }
  let next := (← get).connections.insert id row
  persist faults.persist next
  modify fun s => { s with connections := next }
  info faults.report row

def remove (id : Id) : Attempt Error (Stores Id) Unit := do
  let row ← connection id
  let previous ← credential faults.read row
  whenever (row.credentialMode = .remembered) (removeSecret faults.change id)
  let next := (← get).connections.remove id
  tryCatch (persist faults.persist next) fun error => do
    restoreCredential faults.restore row row previous
    throw error
  modify fun s => { s with connections := next }
  modify fun s => { s with sessions := s.sessions.remove id }

def resolve (id : Id) : Attempt Error (Stores Id) (Connection Id × Option String) :=
  if id = host.apple.id then
    match host.availability with
    | .error error => throw error
    | .ok () => return (host.apple, none)
  else do
    let row ← connection id
    let key ← (if host.browserOwned then pure ((host.requestKey.filter fun k => k.1 = id).map Prod.snd)
      else credential fault row)
    require (row.provider = .custom ∨ key ≠ none)
      ⟨"provider_credential_required", "This provider connection needs an API key"⟩
    return (row, key)

end Source

end Wordflow.Providers
