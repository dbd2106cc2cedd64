import Wordflow.Gateway.Auth

namespace Wordflow.Gateway

open Library.OrderedMap

/-- Where a proxied response is: subscribed, in `session` with the time it read,
waiting for the worker, or a stream that is idle, in a re-check with the time it
read, or back at the top of its loop. -/
inductive Phase
  | subscribed
  | reading (time : Nat)
  | requested
  | idle
  | checking (time : Nat)
  | looping
  | refused
  | ended
  deriving DecidableEq

/-- One proxied response. `time` and `remaining` are what `session` read and
returned, `built` is when the stream was made, and `pending` has arrived and is
not delivered. `upstream`, `revoked` and `announced` say what has happened. -/
structure Response (Chunk : Type) where
  headers : Headers
  phase : Phase
  seen : Nat
  time : Nat
  remaining : Nat
  built : Nat
  pending : List Chunk
  closed : Bool
  delivered : List Chunk
  upstream : List Chunk
  revoked : Bool
  announced : Bool
  deriving DecidableEq

def second : Nat := 1000000000

section Response

variable {Digest Chunk : Type} [LinearOrder Digest] (auth : Auth Digest) (s : State Digest) (r : Response Chunk)

def Response.deadline : Nat := r.built + r.remaining * second

/-- When the session ends on the clock of the system. -/
def Response.expires : Nat := r.time + r.remaining

def subscribe (headers : Headers) : Response Chunk :=
  ⟨headers, .subscribed, s.sessionsChanged, 0, 0, 0, [], false, [], [], false, false⟩

def authenticate (time : Nat) : Response Chunk :=
  match session auth s r.headers time with
  | .error _ => { r with phase := .refused }
  | .ok (_, remaining) => { r with phase := .requested, time := time, remaining := remaining }

/-- One round of `session_stream`: the top of the loop, and the branches of
`select!` in their order. `later` is the clock once a chunk has been taken. -/
def poll (later : Nat) : Response Chunk :=
  if r.deadline ≤ s.instant then { r with phase := .ended }
  else if r.seen ≠ s.sessionsChanged then { r with phase := .checking s.now, seen := s.sessionsChanged }
  else
    match r.pending with
    | chunk :: rest =>
        if r.deadline ≤ later then { r with phase := .ended, pending := rest }
        else { r with phase := .idle, pending := rest, delivered := r.delivered ++ [chunk] }
    | [] => if r.closed then { r with phase := .ended } else { r with phase := .idle }

def recheck (time : Nat) : Response Chunk :=
  match session auth s r.headers time with
  | .error _ => { r with phase := .ended }
  | .ok _ => { r with phase := .looping }

/-- The step revokes the session that these headers present. -/
def revokes (headers : Headers) : Event → Bool
  | .work id _ =>
      match s.calls.get? id with
      | some (.revoking shown) => presented auth shown = presented auth headers
      | _ => false
  | _ => false

/-- The step announces that session as revoked. -/
def announces (headers : Headers) : Event → Bool
  | .announce id =>
      match s.calls.get? id with
      | some (.announcing shown) => presented auth shown = presented auth headers
      | _ => false
  | _ => false

/-- What a step of the gateway is to this response. -/
def observe (e : Event) : Response Chunk :=
  { r with
    revoked := r.revoked || revokes auth s r.headers e
    announced := r.announced || announces auth s r.headers e }

end Response

structure System (Digest Chunk : Type) [LinearOrder Digest] where
  gateway : State Digest
  response : Option (Response Chunk)

/-- `chunk` and `close` are the worker's; `poll` asks the stream for its next item. -/
inductive Action (Chunk : Type)
  | gateway (e : Event)
  | subscribe (headers : Headers)
  | read
  | authenticate
  | fail
  | respond
  | chunk (c : Chunk)
  | close
  | poll (later : Nat)
  | recheck

variable {Digest Chunk : Type} [LinearOrder Digest] (auth : Auth Digest)

def respond (s : State Digest) (r : Response Chunk) : Action Chunk → Option (Response Chunk)
  | .read => if r.phase = .subscribed then some { r with phase := .reading s.now } else none
  | .authenticate =>
      match r.phase with
      | .reading time => some (authenticate auth s r time)
      | _ => none
  | .fail => if r.phase = .requested then some { r with phase := .refused } else none
  | .respond => if r.phase = .requested then some { r with phase := .idle, built := s.instant } else none
  | .chunk c =>
      if r.closed then none else some { r with pending := r.pending ++ [c], upstream := r.upstream ++ [c] }
  | .close => some { r with closed := true }
  | .poll later =>
      if (r.phase = .idle ∨ r.phase = .looping) ∧ s.instant ≤ later then some (poll s r later) else none
  | .recheck =>
      match r.phase with
      | .checking time => some (recheck auth s r time)
      | _ => none
  | _ => none

def proceed (x : System Digest Chunk) : Action Chunk → Option (System Digest Chunk)
  | .gateway e => (step auth x.gateway e).map fun t => ⟨t, x.response.map fun r => observe auth x.gateway r e⟩
  | .subscribe headers =>
      if x.response.isNone then some ⟨x.gateway, some (subscribe x.gateway headers)⟩ else none
  | a => x.response.bind fun r => (respond auth x.gateway r a).map fun r => ⟨x.gateway, some r⟩

end Wordflow.Gateway
