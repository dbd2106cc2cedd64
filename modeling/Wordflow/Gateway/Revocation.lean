import Mathlib.Data.List.Infix
import Wordflow.Gateway.Login
import Wordflow.Gateway.Stream

namespace Wordflow.Gateway

open Library Library.OrderedMap Library.Run Objects

section Secrets

variable {Digest : Type} [LinearOrder Digest] {auth : Auth Digest} {s t : State Digest}

/-- A session was granted under this digest. -/
def Known (log : List (Entry Digest)) (token : Digest) : Prop :=
  ∃ n claims account, .granted n claims account token ∈ log

/-- The random values of a sign-in are new. -/
def Fresh (auth : Auth Digest) (s : State Digest) : Event → Prop
  | .exchanged _ _ session _ => ¬ Known s.log (auth.hash session) ∧
      ∀ id n claims other csrf time, s.calls.get? id = some (.storing n claims other csrf time) →
        auth.hash other ≠ auth.hash session
  | _ => True

/-- The clock of the system is not set back. -/
def Forward (s : State Digest) : Event → Prop
  | .tick _ now => s.now ≤ now
  | _ => True

/-- A session to come is under a digest of its own, and one that is revoked or
announced as revoked is known, the latter gone. -/
def Call.Good (auth : Auth Digest) (s : State Digest) : Call Digest → Prop
  | .storing _ _ session _ time => ¬ Known s.log (auth.hash session) ∧ time ≤ s.now
  | .revoking headers => ∃ token, presented auth headers = some token ∧ Known s.log token
  | .announcing headers =>
      ∃ token, presented auth headers = some token ∧ Known s.log token ∧ s.sessions.get? token = none
  | _ => True

/-- The digest of the session that a call is about to grant. -/
def Call.minted (auth : Auth Digest) : Call Digest → Option Digest
  | .storing _ _ session _ _ => some (auth.hash session)
  | _ => none

structure Secrets (auth : Auth Digest) (s : State Digest) : Prop where
  good : ∀ id call, s.calls.get? id = some call → call.Good auth s
  alone : ∀ id id' call call' token, s.calls.get? id = some call → s.calls.get? id' = some call' →
    call.minted auth = some token → call'.minted auth = some token → id = id'

theorem Call.Good.mono {call : Call Digest} (h : call.Good auth s) (hlog : ∀ token, Known s.log token → Known t.log token)
    (hfresh : ∀ token, call.minted auth = some token → Known t.log token → Known s.log token) (hnow : s.now ≤ t.now)
    (hgone : ∀ token, Known s.log token → s.sessions.get? token = none → t.sessions.get? token = none) :
    call.Good auth t := by
  cases call with
  | storing n claims session csrf time => exact ⟨fun hk => h.1 (hfresh _ rfl hk), h.2.trans hnow⟩
  | revoking headers =>
      obtain ⟨token, hshown, hknown⟩ := h
      exact ⟨token, hshown, hlog token hknown⟩
  | announcing headers =>
      obtain ⟨token, hshown, hknown, hnone⟩ := h
      exact ⟨token, hshown, hlog token hknown, hgone token hknown hnone⟩
  | exchanging | checking | mutating => trivial

/-- A step that keeps its calls, grants nothing and restores nothing. -/
theorem Secrets.frame (hs : Secrets auth s) (hlog : ∀ token, Known t.log token ↔ Known s.log token)
    (hnow : s.now ≤ t.now) (hcalls : ∀ id call, t.calls.get? id = some call → s.calls.get? id = some call)
    (hgone : ∀ token, s.sessions.get? token = none → t.sessions.get? token = none) : Secrets auth t where
  good id call h := (hs.good id call (hcalls id call h)).mono (fun token => (hlog token).mpr)
    (fun token _ => (hlog token).mp) hnow (fun token _ => hgone token)
  alone id id' call call' token h h' := hs.alone id id' call call' token (hcalls id call h) (hcalls id' call' h')

theorem known_write {entry : Entry Digest} (hentry : grantedSerial entry = none) (token : Digest) :
    Known (write s entry).log token ↔ Known s.log token := by
  constructor
  · rintro ⟨n, claims, account, h⟩
    rcases List.mem_cons.mp h with rfl | h
    · simp [grantedSerial] at hentry
    · exact ⟨n, claims, account, h⟩
  · rintro ⟨n, claims, account, h⟩
    exact ⟨n, claims, account, List.mem_cons_of_mem _ h⟩

theorem Secrets.write {entry : Entry Digest} (hs : Secrets auth s) (hentry : grantedSerial entry = none) :
    Secrets auth (write s entry) :=
  hs.frame (t := Gateway.write s entry) (known_write hentry) le_rfl (fun _ _ h => h) (fun _ h => h)

theorem Secrets.removeCall (hs : Secrets auth s) (id : Nat) : Secrets auth { s with calls := s.calls.remove id } :=
  hs.frame (t := { s with calls := s.calls.remove id }) (fun _ => Iff.rfl) le_rfl
    (fun _ _ h => (Map.get?_remove.mp h).1) (fun _ h => h)

theorem Secrets.refuse (hs : Secrets auth s) (id : Nat) (error : Error) : Secrets auth (refuse s id error) :=
  (hs.removeCall id).write rfl

theorem Secrets.finish {entry : Entry Digest} (hs : Secrets auth s) (id : Nat) (hentry : grantedSerial entry = none) :
    Secrets auth (finish s id entry) := (hs.removeCall id).write hentry

/-- A call is set that is good, and that mints no digest another call does. -/
theorem Secrets.setCall {call : Call Digest} (hs : Secrets auth s) (id : Nat) (hcall : call.Good auth s)
    (halone : ∀ id' call' token, call.minted auth = some token → s.calls.get? id' = some call' →
      call'.minted auth ≠ some token) : Secrets auth (setCall s id call) := by
  refine ⟨fun id' call' h => ?_, fun id' id'' call' call'' token h h' hm hm' => ?_⟩
  · simp only [Gateway.setCall, Map.get?_insert] at h
    split at h
    · obtain rfl := Option.some.inj h
      exact hcall.mono (fun _ h => h) (fun _ _ h => h) le_rfl (fun _ _ h => h)
    · exact (hs.good id' call' h).mono (fun _ h => h) (fun _ _ h => h) le_rfl (fun _ _ h => h)
  · simp only [Gateway.setCall, Map.get?_insert] at h h'
    split at h <;> split at h'
    · rename_i heq heq'
      exact heq.trans heq'.symm
    · obtain rfl := Option.some.inj h
      exact absurd hm' (halone id'' call'' token hm h')
    · obtain rfl := Option.some.inj h'
      exact absurd hm (halone id' call' token hm' h)
    · exact hs.alone id' id'' call' call'' token h h' hm hm'

theorem Secrets.login (hs : Secrets auth s) (id : Nat) (provider state nonce verifier binding : String) :
    Secrets auth (login auth s id provider state nonce verifier binding) := by
  unfold Gateway.login
  split
  · exact hs.refuse id _
  · have hkept : ∀ transactions issued, Secrets auth { s with
        transactions := transactions
        issued := issued } := fun transactions issued =>
      hs.frame (fun _ => Iff.rfl) le_rfl (fun _ _ h => h) (fun _ h => h)
    dsimp only
    split
    · exact (hkept _ _).refuse id _
    · exact (hkept _ _).write rfl

theorem Secrets.callback (hs : Secrets auth s) (id : Nat) (provider : String) (query : Query) (headers : Headers) :
    Secrets auth (callback auth s id provider query headers) := by
  unfold Gateway.callback
  split
  · exact hs.refuse id _
  · rename_i login hlogin
    have hconsumed : Secrets auth (Gateway.write { s with transactions := s.transactions.remove query.state }
        (.consumed login.serial provider query headers s.instant)) :=
      hs.frame (known_write rfl) le_rfl (fun _ _ h => h) (fun _ h => h)
    dsimp only
    split
    · exact hconsumed.refuse id _
    · split
      · exact hconsumed.refuse id _
      · split
        · exact hconsumed.refuse id _
        · exact hconsumed.setCall id trivial (by simp [Call.minted])

/-- The session granted to one call is not the one another is about to get. -/
theorem Secrets.grant (hs : Secrets auth s) {id serial time : Nat} {claims : Claims}
    {session csrf uuid account : String} {accounts : List AccountRow} {sessions : Map Digest (SessionRow Digest)}
    (hcall : s.calls.get? id = some (.storing serial claims session csrf time))
    (h : store auth s claims session csrf uuid time = .ok (account, accounts, sessions)) :
    Secrets auth (Gateway.finish { s with
      accounts := accounts
      sessions := sessions } id (.granted serial claims account (auth.hash session))) := by
  obtain ⟨-, rfl, -⟩ := store_cases h
  refine ⟨fun id' call hid => ?_, fun id' id'' call call' token hid hid' =>
    hs.alone id' id'' call call' token (Map.get?_remove.mp hid).1 (Map.get?_remove.mp hid').1⟩
  obtain ⟨hget, hne⟩ := Map.get?_remove.mp hid
  refine (hs.good id' call hget).mono ?_ ?_ le_rfl ?_
  · rintro token ⟨n, claims', account', hmem⟩
    exact ⟨n, claims', account', List.mem_cons_of_mem _ hmem⟩
  · rintro token hminted ⟨n, claims', account', hmem⟩
    rcases List.mem_cons.mp hmem with heq | hmem
    · injection heq with _ _ _ htoken
      exact absurd (hs.alone id' id call _ token hget hcall hminted (by rw [htoken]; rfl)) hne
    · exact ⟨n, claims', account', hmem⟩
  · intro token hknown hnone
    have hother : token ≠ auth.hash session := by
      rintro rfl
      exact (hs.good id _ hcall).1 hknown
    simp only [Gateway.finish, Gateway.write, Map.get?_insert_of_ne hother]
    rw [Option.eq_none_iff_forall_ne_some]
    intro row hrow
    rw [(Map.get?_filter _ |>.mp hrow).1] at hnone
    contradiction

theorem Secrets.work (hi : Invariant auth s) (hs : Secrets auth s) {id : Nat} {uuid : String} {call : Call Digest}
    (hcall : s.calls.get? id = some call) (h : work auth s id uuid call = some t) : Secrets auth t := by
  cases call with
  | storing serial claims session csrf time =>
      simp only [Gateway.work] at h
      split at h
      · obtain rfl := Option.some.inj h
        exact hs.refuse id _
      · rename_i account accounts sessions hstore
        obtain rfl := Option.some.inj h
        exact hs.grant hcall hstore
  | checking headers time =>
      simp only [Gateway.work] at h
      split at h
      · obtain rfl := Option.some.inj h
        exact hs.refuse id _
      · obtain rfl := Option.some.inj h
        exact hs.finish id rfl
  | mutating headers time logout =>
      simp only [Gateway.work] at h
      split at h
      · obtain rfl := Option.some.inj h
        exact hs.refuse id _
      · rename_i hok
        split at h
        · obtain rfl := Option.some.inj h
          obtain ⟨-, token, csrf, row, hshown, -, hrow, -⟩ := mutation_iff.mp hok
          obtain ⟨n, claims, hgranted⟩ := hi.stored.sessions token row hrow
          exact hs.setCall id ⟨token, hshown, n, claims, _, hgranted⟩ (by simp [Call.minted])
        · obtain rfl := Option.some.inj h
          exact hs.finish id rfl
  | revoking headers =>
      simp only [Gateway.work] at h
      split at h
      · obtain rfl := Option.some.inj h
        exact hs.refuse id _
      · rename_i token hshown
        obtain rfl := Option.some.inj h
        obtain ⟨token', hshown', hknown⟩ := hs.good id _ hcall
        obtain rfl : token = token' := Option.some.inj (hshown.symm.trans hshown')
        have hremoved : Secrets auth { s with sessions := s.sessions.remove token } := by
          refine hs.frame (fun _ => Iff.rfl) le_rfl (fun _ _ h => h) (fun other hnone => ?_)
          rw [Option.eq_none_iff_forall_ne_some]
          intro row hrow
          rw [(Map.get?_remove.mp hrow).1] at hnone
          contradiction
        exact hremoved.setCall id ⟨token, hshown, hknown, Map.get?_remove_self⟩ (by simp [Call.minted])
  | exchanging | announcing => contradiction

theorem Secrets.arrive (hs : Secrets auth s) {id : Nat} {call : Call Digest} (hgood : call.Good auth s)
    (hcall : call.minted auth = none) (h : arrive s id call = some t) : Secrets auth t := by
  simp only [Gateway.arrive, Option.ite_none_right_eq_some] at h
  obtain ⟨-, h⟩ := h
  obtain rfl := Option.some.inj h
  exact hs.setCall id hgood (by simp [hcall])

theorem Secrets.step (hi : Invariant auth s) (hs : Secrets auth s) {e : Event} (hfresh : Fresh auth s e)
    (hforward : Forward s e) (h : step auth s e = some t) : Secrets auth t := by
  cases e with
  | tick instant now =>
      simp only [Gateway.step, Option.ite_none_right_eq_some] at h
      obtain ⟨-, h⟩ := h
      obtain rfl := Option.some.inj h
      exact hs.frame (fun _ => Iff.rfl) hforward (fun _ _ h => h) (fun _ h => h)
  | login id provider state nonce verifier binding =>
      simp only [Gateway.step, Option.ite_none_right_eq_some] at h
      obtain ⟨-, h⟩ := h
      obtain rfl := Option.some.inj h
      exact hs.login ..
  | callback id provider query headers =>
      simp only [Gateway.step, Option.ite_none_right_eq_some] at h
      obtain ⟨-, h⟩ := h
      obtain rfl := Option.some.inj h
      exact hs.callback ..
  | exchanged id claims session csrf =>
      simp only [Gateway.step] at h
      split at h
      · obtain rfl := Option.some.inj h
        refine hs.setCall id ⟨hfresh.1, le_rfl⟩ fun id' call' token hminted hcall hminted' => ?_
        obtain rfl := Option.some.inj hminted
        cases call' with
        | storing n claims' other csrf' time =>
            exact hfresh.2 id' n claims' other csrf' time hcall (Option.some.inj hminted')
        | exchanging | checking | mutating | revoking | announcing => contradiction
      · contradiction
  | session id headers | mutation id headers | logout id headers => exact hs.arrive (by trivial) rfl h
  | work id uuid =>
      obtain ⟨call, hcall, h⟩ := Option.bind_eq_some_iff.mp h
      exact hs.work hi hcall h
  | announce id =>
      simp only [Gateway.step] at h
      split at h
      · obtain rfl := Option.some.inj h
        have hmoved : Secrets auth { s with sessionsChanged := s.sessionsChanged + 1 } :=
          hs.frame (fun _ => Iff.rfl) le_rfl (fun _ _ h => h) (fun _ h => h)
        exact hmoved.finish id rfl
      · contradiction
  | failed id =>
      simp only [Gateway.step] at h
      split at h
      · obtain rfl := Option.some.inj h
        exact hs.refuse id _
      · contradiction
      · contradiction
      · obtain rfl := Option.some.inj h
        exact hs.refuse id _

theorem login_log (id : Nat) (provider state nonce verifier binding : String) :
    s.log <:+ (login auth s id provider state nonce verifier binding).log := by
  unfold login
  split
  · exact List.suffix_cons _ _
  · dsimp only
    split <;> exact List.suffix_cons _ _

theorem callback_log (id : Nat) (provider : String) (query : Query) (headers : Headers) :
    s.log <:+ (callback auth s id provider query headers).log := by
  unfold callback
  split
  · exact List.suffix_cons _ _
  · have htwice : ∀ (entry entry' : Entry Digest), s.log <:+ entry :: entry' :: s.log := fun entry entry' =>
      (List.suffix_cons _ _).trans (List.suffix_cons _ _)
    dsimp only
    split
    · exact htwice _ _
    · split
      · exact htwice _ _
      · split
        · exact htwice _ _
        · exact List.suffix_cons _ _

theorem work_log {id : Nat} {uuid : String} {call : Call Digest} (h : work auth s id uuid call = some t) :
    s.log <:+ t.log := by
  cases call with
  | storing | checking | revoking =>
      simp only [work] at h
      split at h <;> obtain rfl := Option.some.inj h <;> first | exact List.suffix_cons _ _ | exact List.suffix_rfl
  | mutating =>
      simp only [work] at h
      split at h
      · obtain rfl := Option.some.inj h
        exact List.suffix_cons _ _
      · split at h <;> obtain rfl := Option.some.inj h
        · exact List.suffix_rfl
        · exact List.suffix_cons _ _
  | exchanging | announcing => contradiction

theorem step_log {e : Event} (h : step auth s e = some t) : s.log <:+ t.log := by
  cases e with
  | tick instant now =>
      simp only [step, Option.ite_none_right_eq_some] at h
      obtain ⟨-, h⟩ := h
      obtain rfl := Option.some.inj h
      exact List.suffix_rfl
  | login id provider state nonce verifier binding =>
      simp only [step, Option.ite_none_right_eq_some] at h
      obtain ⟨-, h⟩ := h
      obtain rfl := Option.some.inj h
      exact login_log ..
  | callback id provider query headers =>
      simp only [step, Option.ite_none_right_eq_some] at h
      obtain ⟨-, h⟩ := h
      obtain rfl := Option.some.inj h
      exact callback_log ..
  | exchanged id claims session csrf =>
      simp only [step] at h
      split at h
      · obtain rfl := Option.some.inj h
        exact List.suffix_rfl
      · contradiction
  | session | mutation | logout =>
      simp only [step, arrive, Option.ite_none_right_eq_some] at h
      obtain ⟨-, h⟩ := h
      obtain rfl := Option.some.inj h
      exact List.suffix_rfl
  | work id uuid =>
      obtain ⟨call, -, h⟩ := Option.bind_eq_some_iff.mp h
      exact work_log h
  | announce id =>
      simp only [step] at h
      split at h
      · obtain rfl := Option.some.inj h
        exact List.suffix_cons _ _
      · contradiction
  | failed id =>
      simp only [step] at h
      split at h
      · obtain rfl := Option.some.inj h
        exact List.suffix_cons _ _
      · contradiction
      · contradiction
      · obtain rfl := Option.some.inj h
        exact List.suffix_cons _ _

theorem known_step {e : Event} {token : Digest} (h : Known s.log token) (hstep : step auth s e = some t) :
    Known t.log token := by
  obtain ⟨n, claims, account, hmem⟩ := h
  exact ⟨n, claims, account, (step_log hstep).subset hmem⟩

/-- A session that is known is never written again. -/
theorem sessions_kept (hs : Secrets auth s) {e : Event} {token : Digest} (hknown : Known s.log token)
    (h : step auth s e = some t) {row : SessionRow Digest} (hrow : t.sessions.get? token = some row) :
    s.sessions.get? token = some row := by
  by_cases hwork : ∃ id uuid, e = .work id uuid
  · obtain ⟨id, uuid, rfl⟩ := hwork
    obtain ⟨call, hcall, h⟩ := Option.bind_eq_some_iff.mp h
    cases call with
    | storing serial claims session csrf time =>
        simp only [work] at h
        split at h
        · obtain rfl := Option.some.inj h
          exact hrow
        · rename_i account accounts sessions hstore
          obtain rfl := Option.some.inj h
          obtain ⟨-, rfl, -⟩ := store_cases hstore
          have hother : token ≠ auth.hash session := by
            rintro rfl
            exact (hs.good id _ hcall).1 hknown
          simp only [finish, write, Map.get?_insert_of_ne hother] at hrow
          exact (Map.get?_filter _ |>.mp hrow).1
    | checking headers time =>
        simp only [work] at h
        split at h <;> obtain rfl := Option.some.inj h <;> exact hrow
    | mutating headers time logout =>
        simp only [work] at h
        split at h
        · obtain rfl := Option.some.inj h
          exact hrow
        · split at h <;> obtain rfl := Option.some.inj h <;> exact hrow
    | revoking headers =>
        simp only [work] at h
        split at h <;> obtain rfl := Option.some.inj h
        · exact hrow
        · exact (Map.get?_remove.mp hrow).1
    | exchanging | announcing => contradiction
  · rwa [step_sessions h fun id uuid he => hwork ⟨id, uuid, he⟩] at hrow

end Secrets

section Response

variable {Digest Chunk : Type} [LinearOrder Digest] {auth : Auth Digest} {s t : State Digest} {r : Response Chunk}

/-- `session` has let the request in. -/
def Phase.entered : Phase → Prop
  | .requested | .idle | .checking _ | .looping => True
  | _ => False

/-- The session of a response: known, with its own deadline, and gone only by a
logout that presents it or once it has expired. -/
def Tracked (auth : Auth Digest) (s : State Digest) (r : Response Chunk) : Prop :=
  ∃ token, presented auth r.headers = some token ∧ Known s.log token ∧
    (∀ row, s.sessions.get? token = some row → row.expires = r.expires) ∧
    (s.sessions.get? token = none → r.revoked ∨ r.expires ≤ s.now)

/-- The session is announced as revoked: it is gone for good, and the stream has
not looked since or is in a re-check. -/
def Noticed (auth : Auth Digest) (s : State Digest) (r : Response Chunk) : Prop :=
  (∃ token, presented auth r.headers = some token ∧ Known s.log token ∧ s.sessions.get? token = none) ∧
  ((∀ time, r.phase ≠ .checking time) → r.phase ≠ .ended → r.seen < s.sessionsChanged)

structure Watching (auth : Auth Digest) (s : State Digest) (r : Response Chunk) : Prop where
  seen : r.seen ≤ s.sessionsChanged
  past : ∀ time, r.phase = .reading time ∨ r.phase = .checking time → time ≤ s.now
  tracked : r.phase.entered → Tracked auth s r
  noticed : r.announced → Noticed auth s r
  conserved : r.phase ≠ .ended → r.delivered ++ r.pending = r.upstream
  prefix_upstream : r.delivered <+: r.upstream

theorem session_ok {headers : Headers} {time : Nat} {account : Account} {remaining : Nat}
    (h : session auth s headers time = .ok (account, remaining)) :
    ∃ token row, presented auth headers = some token ∧ s.sessions.get? token = some row ∧ time < row.expires ∧
      row.expires = time + remaining := by
  simp only [session] at h
  split at h
  · contradiction
  · rename_i token htoken
    split at h
    · contradiction
    · rename_i row hrow
      split at h
      · contradiction
      · obtain ⟨hget, hexpires⟩ : s.sessions.get? token = some row ∧ time < row.expires := by
          simpa [Option.filter_eq_some_iff] using hrow
        obtain ⟨-, rfl⟩ := Prod.mk.inj (Except.ok.inj h)
        exact ⟨token, row, htoken, hget, hexpires, by omega⟩

theorem session_error (hi : Invariant auth s) {headers : Headers} {time : Nat} {error : Error} {token : Digest}
    (h : session auth s headers time = .error error) (htoken : presented auth headers = some token)
    {row : SessionRow Digest} (hrow : s.sessions.get? token = some row) : row.expires ≤ time := by
  by_contra hlt
  obtain ⟨answer, hok⟩ := (hi.stored.authenticates_iff headers time).mpr ⟨token, row, htoken, hrow, not_le.mp hlt⟩
  simp [h] at hok

theorem work_clock {id : Nat} {uuid : String} {call : Call Digest} (h : work auth s id uuid call = some t) :
    t.now = s.now ∧ t.sessionsChanged = s.sessionsChanged := by
  cases call with
  | storing | checking | revoking =>
      simp only [work] at h
      split at h <;> obtain rfl := Option.some.inj h <;> exact ⟨rfl, rfl⟩
  | mutating =>
      simp only [work] at h
      split at h
      · obtain rfl := Option.some.inj h
        exact ⟨rfl, rfl⟩
      · split at h <;> obtain rfl := Option.some.inj h <;> exact ⟨rfl, rfl⟩
  | exchanging | announcing => contradiction

theorem login_clock (id : Nat) (provider state nonce verifier binding : String) :
    (login auth s id provider state nonce verifier binding).now = s.now ∧
      (login auth s id provider state nonce verifier binding).sessionsChanged = s.sessionsChanged := by
  unfold login
  split
  · exact ⟨rfl, rfl⟩
  · dsimp only
    split <;> exact ⟨rfl, rfl⟩

theorem callback_clock (id : Nat) (provider : String) (query : Query) (headers : Headers) :
    (callback auth s id provider query headers).now = s.now ∧
      (callback auth s id provider query headers).sessionsChanged = s.sessionsChanged := by
  unfold callback
  split
  · exact ⟨rfl, rfl⟩
  · dsimp only
    split
    · exact ⟨rfl, rfl⟩
    · split
      · exact ⟨rfl, rfl⟩
      · split <;> exact ⟨rfl, rfl⟩

/-- The clock goes forward, and so does the revision of the sessions. -/
theorem step_clock {e : Event} (hforward : Forward s e) (h : step auth s e = some t) :
    s.now ≤ t.now ∧ s.sessionsChanged ≤ t.sessionsChanged := by
  cases e with
  | tick instant now =>
      simp only [step, Option.ite_none_right_eq_some] at h
      obtain ⟨-, h⟩ := h
      obtain rfl := Option.some.inj h
      exact ⟨hforward, le_rfl⟩
  | login id provider state nonce verifier binding =>
      simp only [step, Option.ite_none_right_eq_some] at h
      obtain ⟨-, h⟩ := h
      obtain rfl := Option.some.inj h
      exact (login_clock ..).imp Eq.ge Eq.ge
  | callback id provider query headers =>
      simp only [step, Option.ite_none_right_eq_some] at h
      obtain ⟨-, h⟩ := h
      obtain rfl := Option.some.inj h
      exact (callback_clock ..).imp Eq.ge Eq.ge
  | session | mutation | logout =>
      simp only [step, arrive, Option.ite_none_right_eq_some] at h
      obtain ⟨-, h⟩ := h
      obtain rfl := Option.some.inj h
      exact ⟨le_rfl, le_rfl⟩
  | work id uuid =>
      obtain ⟨call, -, h⟩ := Option.bind_eq_some_iff.mp h
      exact (work_clock h).imp Eq.ge Eq.ge
  | exchanged id claims session csrf =>
      simp only [step] at h
      split at h
      · obtain rfl := Option.some.inj h
        exact ⟨le_rfl, le_rfl⟩
      · contradiction
  | announce id =>
      simp only [step] at h
      split at h
      · obtain rfl := Option.some.inj h
        exact ⟨le_rfl, Nat.le_succ _⟩
      · contradiction
  | failed id =>
      simp only [step] at h
      split at h
      · obtain rfl := Option.some.inj h
        exact ⟨le_rfl, le_rfl⟩
      · contradiction
      · contradiction
      · obtain rfl := Option.some.inj h
        exact ⟨le_rfl, le_rfl⟩

/-- A session goes only by a step that revokes it, or once it has expired. -/
theorem gone_cases (hs : Secrets auth s) {e : Event} {headers : Headers} {token : Digest} {row : SessionRow Digest}
    (htoken : presented auth headers = some token) (h : step auth s e = some t)
    (hrow : s.sessions.get? token = some row) (hnone : t.sessions.get? token = none) :
    revokes auth s headers e ∨ row.expires ≤ s.now := by
  by_cases hwork : ∃ id uuid, e = .work id uuid
  · obtain ⟨id, uuid, rfl⟩ := hwork
    obtain ⟨call, hcall, h⟩ := Option.bind_eq_some_iff.mp h
    rcases work_sessions h hrow with hkept | ⟨shown, rfl, hshown⟩ | ⟨n, claims, session, csrf, time, rfl, hexpired⟩
    · rw [hkept] at hnone
      contradiction
    · left
      simp [revokes, hcall, hshown, htoken]
    · exact .inr (hexpired.trans (hs.good id _ hcall).2)
  · rw [step_sessions h fun id uuid he => hwork ⟨id, uuid, he⟩, hrow] at hnone
    contradiction

theorem announces_cases (hs : Secrets auth s) {e : Event} {headers : Headers} (h : step auth s e = some t)
    (hann : announces auth s headers e) :
    (∃ token, presented auth headers = some token ∧ Known s.log token ∧ s.sessions.get? token = none) ∧
      t.sessionsChanged = s.sessionsChanged + 1 := by
  cases e with
  | announce id =>
      simp only [announces] at hann
      split at hann
      · rename_i shown hcall
        obtain ⟨token, hshown, hknown, hnone⟩ := hs.good id _ hcall
        simp only [step, hcall] at h
        obtain rfl := Option.some.inj h
        refine ⟨⟨token, ?_, hknown, hnone⟩, rfl⟩
        rw [← hshown]
        exact (of_decide_eq_true hann).symm
      · contradiction
  | tick | login | callback | exchanged | session | mutation | logout | work | failed => contradiction

theorem Watching.gateway (hs : Secrets auth s) (hw : Watching auth s r) {e : Event} (hforward : Forward s e)
    (h : step auth s e = some t) : Watching auth t (observe auth s r e) := by
  obtain ⟨hnow, hchanged⟩ := step_clock hforward h
  refine ⟨hw.seen.trans hchanged, fun time htime => (hw.past time htime).trans hnow, fun hentered => ?_, fun hann => ?_,
    hw.conserved, hw.prefix_upstream⟩
  · obtain ⟨token, htoken, hknown, hexpires, hgone⟩ := hw.tracked hentered
    refine ⟨token, htoken, known_step hknown h, fun row hrow => hexpires row (sessions_kept hs hknown h hrow),
      fun hnone => ?_⟩
    cases hrow : s.sessions.get? token with
    | none =>
        rcases hgone hrow with hrevoked | hexpired
        · exact .inl (by simp [observe, hrevoked])
        · exact .inr (hexpired.trans hnow)
    | some row =>
        rcases gone_cases hs htoken h hrow hnone with hrevokes | hexpired
        · exact .inl (by simp [observe, hrevokes])
        · exact .inr ((hexpires row hrow ▸ hexpired).trans hnow)
  · have hlost : ∀ token, Known s.log token → s.sessions.get? token = none → t.sessions.get? token = none := by
      intro token hknown hnone
      rw [Option.eq_none_iff_forall_ne_some]
      intro row hrow
      rw [sessions_kept hs hknown h hrow] at hnone
      contradiction
    rcases Bool.or_eq_true_iff.mp hann with hann | hann
    · obtain ⟨⟨token, htoken, hknown, hnone⟩, hseen⟩ := hw.noticed hann
      exact ⟨⟨token, htoken, known_step hknown h, hlost token hknown hnone⟩,
        fun hphase hopen => (hseen hphase hopen).trans_le hchanged⟩
    · obtain ⟨⟨token, htoken, hknown, hnone⟩, hstep⟩ := announces_cases hs h hann
      refine ⟨⟨token, htoken, known_step hknown h, hlost token hknown hnone⟩, fun _ _ => ?_⟩
      rw [hstep]
      exact Nat.lt_succ_of_le hw.seen

theorem Watching.subscribe (headers : Headers) : Watching auth s (subscribe s headers : Response Chunk) where
  seen := le_rfl
  past time h := by simp [Gateway.subscribe] at h
  tracked h := absurd h not_false
  noticed h := by simp [Gateway.subscribe] at h
  conserved _ := rfl
  prefix_upstream := List.prefix_rfl

/-- A request that `session` lets in is tracked from then on. -/
theorem Watching.authenticate (hi : Invariant auth s) (hw : Watching auth s r) {time : Nat}
    (hphase : r.phase = .reading time) : Watching auth s (authenticate auth s r time) := by
  have hopen : r.phase ≠ .ended := by simp [hphase]
  have hnoticed : r.announced → Noticed auth s r := hw.noticed
  unfold Gateway.authenticate
  split
  · refine ⟨hw.seen, fun time h => by simp at h, fun h => absurd h not_false, fun hann => ?_,
      fun _ => hw.conserved hopen, hw.prefix_upstream⟩
    exact ⟨(hnoticed hann).1, fun _ _ => (hnoticed hann).2 (by simp [hphase]) hopen⟩
  · rename_i account remaining hok
    obtain ⟨token, row, htoken, hrow, -, hexpires⟩ := session_ok hok
    obtain ⟨n, claims, hgranted⟩ := hi.stored.sessions token row hrow
    refine ⟨hw.seen, fun time h => by simp at h, fun _ => ?_, fun hann => ?_, fun _ => hw.conserved hopen,
      hw.prefix_upstream⟩
    · refine ⟨token, htoken, ⟨n, claims, _, hgranted⟩, fun other hother => ?_, fun hnone => ?_⟩
      · obtain rfl := Option.some.inj (hrow.symm.trans hother)
        exact hexpires
      · rw [hrow] at hnone
        contradiction
    · exact ⟨(hnoticed hann).1, fun _ _ => (hnoticed hann).2 (by simp [hphase]) hopen⟩

theorem Watching.poll (hw : Watching auth s r) {later : Nat} (hphase : r.phase = .idle ∨ r.phase = .looping) :
    Watching auth s (poll s r later) := by
  have hopen : r.phase ≠ .ended := by rcases hphase with h | h <;> simp [h]
  have hentered : r.phase.entered := by rcases hphase with h | h <;> rw [h] <;> trivial
  have hseen : r.announced → r.seen < s.sessionsChanged := fun hann =>
    (hw.noticed hann).2 (by rcases hphase with h | h <;> simp [h]) hopen
  have hended : ∀ pending, Watching auth s { r with
      phase := .ended
      pending := pending } := fun pending =>
    ⟨hw.seen, fun time h => by simp at h, fun h => absurd h not_false,
      fun hann => ⟨(hw.noticed hann).1, fun _ h => absurd rfl h⟩, fun h => absurd rfl h, hw.prefix_upstream⟩
  unfold Gateway.poll
  split
  · exact hended r.pending
  · split
    · refine ⟨le_rfl, ?_, fun _ => hw.tracked hentered, fun hann => ⟨(hw.noticed hann).1, fun h _ => absurd rfl (h s.now)⟩,
        fun _ => hw.conserved hopen, hw.prefix_upstream⟩
      rintro time (h | h)
      · simp at h
      · exact (Phase.checking.inj h) ▸ le_rfl
    · rename_i hsame
      have hquiet : r.announced = false := by
        by_contra hann
        exact hsame (hseen (by simpa using hann)).ne
      split
      · rename_i chunk rest hpending
        have hall := hw.conserved hopen
        rw [hpending] at hall
        split
        · exact hended rest
        · refine ⟨hw.seen, fun time h => by simp at h, fun _ => hw.tracked hentered, fun hann => ?_, fun _ => ?_, ?_⟩
          · rw [hquiet] at hann
            contradiction
          · simpa using hall
          · exact ⟨rest, by simpa using hall⟩
      · split
        · exact hended r.pending
        · refine ⟨hw.seen, fun time h => by simp at h, fun _ => hw.tracked hentered, fun hann => ?_,
            fun _ => hw.conserved hopen, hw.prefix_upstream⟩
          rw [hquiet] at hann
          contradiction

/-- A re-check that lets the stream go on has found the session. -/
theorem Watching.recheck (hw : Watching auth s r) {time : Nat} (hphase : r.phase = .checking time) :
    Watching auth s (recheck auth s r time) := by
  have hopen : r.phase ≠ .ended := by simp [hphase]
  unfold Gateway.recheck
  split
  · exact ⟨hw.seen, fun time h => by simp at h, fun h => absurd h not_false,
      fun hann => ⟨(hw.noticed hann).1, fun _ h => absurd rfl h⟩, fun h => absurd rfl h, hw.prefix_upstream⟩
  · rename_i answer hok
    refine ⟨hw.seen, fun time h => by simp at h, fun _ => hw.tracked (by rw [hphase]; trivial), fun hann => ?_,
      fun _ => hw.conserved hopen, hw.prefix_upstream⟩
    obtain ⟨⟨token, htoken, -, hnone⟩, -⟩ := hw.noticed hann
    obtain ⟨account, remaining⟩ := answer
    obtain ⟨token', row, htoken', hrow, -⟩ := session_ok hok
    obtain rfl := Option.some.inj (htoken.symm.trans htoken')
    rw [hrow] at hnone
    contradiction

theorem Watching.respond (hi : Invariant auth s) (hw : Watching auth s r) {a : Action Chunk} {r' : Response Chunk}
    (h : respond auth s r a = some r') : Watching auth s r' := by
  cases a with
  | gateway | subscribe => contradiction
  | read =>
      simp only [Gateway.respond, Option.ite_none_right_eq_some] at h
      obtain ⟨hphase, h⟩ := h
      obtain rfl := Option.some.inj h
      have hopen : r.phase ≠ .ended := by simp [hphase]
      refine ⟨hw.seen, ?_, fun h => absurd h not_false, fun hann => ⟨(hw.noticed hann).1, fun _ _ =>
        (hw.noticed hann).2 (by simp [hphase]) hopen⟩, fun _ => hw.conserved hopen, hw.prefix_upstream⟩
      rintro time (h | h)
      · exact (Phase.reading.inj h) ▸ le_rfl
      · simp at h
  | authenticate =>
      simp only [Gateway.respond] at h
      split at h
      · rename_i hphase
        obtain rfl := Option.some.inj h
        exact hw.authenticate hi hphase
      · contradiction
  | fail =>
      simp only [Gateway.respond, Option.ite_none_right_eq_some] at h
      obtain ⟨hphase, h⟩ := h
      obtain rfl := Option.some.inj h
      have hopen : r.phase ≠ .ended := by simp [hphase]
      exact ⟨hw.seen, fun time h => by simp at h, fun h => absurd h not_false, fun hann => ⟨(hw.noticed hann).1,
        fun _ _ => (hw.noticed hann).2 (by simp [hphase]) hopen⟩, fun _ => hw.conserved hopen, hw.prefix_upstream⟩
  | respond =>
      simp only [Gateway.respond, Option.ite_none_right_eq_some] at h
      obtain ⟨hphase, h⟩ := h
      obtain rfl := Option.some.inj h
      have hopen : r.phase ≠ .ended := by simp [hphase]
      exact ⟨hw.seen, fun time h => by simp at h, fun _ => hw.tracked (by rw [hphase]; trivial),
        fun hann => ⟨(hw.noticed hann).1, fun _ _ => (hw.noticed hann).2 (by simp [hphase]) hopen⟩,
        fun _ => hw.conserved hopen, hw.prefix_upstream⟩
  | chunk c =>
      simp only [Gateway.respond] at h
      split at h
      · contradiction
      · obtain rfl := Option.some.inj h
        refine ⟨hw.seen, hw.past, hw.tracked, hw.noticed, fun hopen => ?_, ?_⟩
        · rw [← List.append_assoc, hw.conserved hopen]
        · exact hw.prefix_upstream.trans (List.prefix_append _ _)
  | close =>
      obtain rfl := Option.some.inj h
      exact ⟨hw.seen, hw.past, hw.tracked, hw.noticed, hw.conserved, hw.prefix_upstream⟩
  | poll later =>
      simp only [Gateway.respond, Option.ite_none_right_eq_some] at h
      obtain ⟨⟨hphase, -⟩, h⟩ := h
      obtain rfl := Option.some.inj h
      exact hw.poll hphase
  | recheck =>
      simp only [Gateway.respond] at h
      split at h
      · rename_i hphase
        obtain rfl := Option.some.inj h
        exact hw.recheck hphase
      · contradiction

end Response

section Runs

variable {Digest Chunk : Type} [LinearOrder Digest] {auth : Auth Digest} {x y : System Digest Chunk}

def Unrepeated (auth : Auth Digest) (x : System Digest Chunk) : Action Chunk → Prop
  | .gateway e => Fresh auth x.gateway e
  | _ => True

/-- The clock of the system is not set back, and a poll finds the session over on
it exactly when `remaining` seconds have passed since the stream was built. -/
def Timely (x : System Digest Chunk) : Action Chunk → Prop
  | .gateway e => Forward x.gateway e
  | .poll _ => ∀ r, x.response = some r →
      (r.expires ≤ x.gateway.now ↔ r.built + r.remaining * second ≤ x.gateway.instant)
  | _ => True

def Action.own : Action Chunk → Prop
  | .poll _ | .recheck => True
  | _ => False

/-- One step: what it may deliver, and what may end the stream. -/
def Right (auth : Auth Digest) (x : System Digest Chunk) (a : Action Chunk) : Prop :=
  ∀ y r r', proceed auth x a = some y → x.response = some r → y.response = some r' →
    (r'.delivered ≠ r.delivered → a.own ∧ r.announced = false ∧ x.gateway.now < r.expires) ∧
    (r.phase ≠ .ended → r'.phase = .ended → r.closed ∧ r.delivered = r.upstream ∨ r.revoked ∨
      r.expires ≤ x.gateway.now ∨ ∃ later, a = .poll later ∧ r.deadline ≤ later)

/-- A response in a state: its chunks are those of the worker, and once its
session is announced as revoked it ends by its own steps, without a chunk more. -/
structure Streamed (auth : Auth Digest) (x : System Digest Chunk) (r : Response Chunk) : Prop where
  delivered : r.delivered <+: r.upstream
  conserved : r.phase ≠ .ended → r.delivered ++ r.pending = r.upstream
  severed : r.announced → r.phase = .idle ∨ r.phase = .looping ∨ (∃ time, r.phase = .checking time) →
    ∃ own y r', (∀ a ∈ own, Action.own a) ∧ exec (proceed auth) x own = some y ∧ y.response = some r' ∧
      r'.phase = .ended ∧ r'.delivered = r.delivered

structure Sound (auth : Auth Digest) (x : System Digest Chunk) : Prop where
  gateway : Invariant auth x.gateway
  secrets : Secrets auth x.gateway
  response : ∀ r, x.response = some r → Watching auth x.gateway r

theorem Sound.proceed (hx : Sound auth x) {a : Action Chunk} (hfresh : Unrepeated auth x a) (htimely : Timely x a)
    (h : proceed auth x a = some y) : Sound auth y := by
  cases a with
  | gateway e =>
      simp only [Gateway.proceed, Option.map_eq_some_iff] at h
      obtain ⟨t, hstep, rfl⟩ := h
      refine ⟨hx.gateway.step hstep, hx.secrets.step hx.gateway hfresh htimely hstep, fun r hr => ?_⟩
      obtain ⟨old, hold, rfl⟩ := Option.map_eq_some_iff.mp hr
      exact (hx.response old hold).gateway hx.secrets htimely hstep
  | subscribe headers =>
      simp only [Gateway.proceed, Option.ite_none_right_eq_some] at h
      obtain ⟨-, h⟩ := h
      obtain rfl := Option.some.inj h
      refine ⟨hx.gateway, hx.secrets, fun r hr => ?_⟩
      obtain rfl := Option.some.inj hr
      exact Watching.subscribe headers
  | read | authenticate | fail | respond | chunk | close | poll | recheck =>
      simp only [Gateway.proceed, Option.bind_eq_some_iff, Option.map_eq_some_iff] at h
      obtain ⟨r, hr, r', hrespond, rfl⟩ := h
      refine ⟨hx.gateway, hx.secrets, fun r'' hr'' => ?_⟩
      obtain rfl := Option.some.inj hr''
      exact (hx.response r hr).respond hx.gateway hrespond

/-- A stream whose session is announced as revoked has something left to look at. -/
theorem Watching.unseen {s : State Digest} {r : Response Chunk} (hw : Watching auth s r) (hann : r.announced)
    (hphase : r.phase = .idle ∨ r.phase = .looping) : r.seen ≠ s.sessionsChanged :=
  ((hw.noticed hann).2 (by rcases hphase with h | h <;> simp [h]) (by rcases hphase with h | h <;> simp [h])).ne

theorem poll_right {s : State Digest} {r : Response Chunk} (hw : Watching auth s r) {later : Nat}
    (hphase : r.phase = .idle ∨ r.phase = .looping)
    (htimely : r.expires ≤ s.now ↔ r.built + r.remaining * second ≤ s.instant) :
    ((poll s r later).delivered ≠ r.delivered → r.announced = false ∧ s.now < r.expires) ∧
    ((poll s r later).phase = .ended → r.closed ∧ r.delivered = r.upstream ∨ r.expires ≤ s.now ∨ r.deadline ≤ later) := by
  have hopen : r.phase ≠ .ended := by rcases hphase with h | h <;> simp [h]
  unfold poll
  split
  · rename_i hdeadline
    exact ⟨fun h => absurd rfl h, fun _ => .inr (.inl (htimely.mpr hdeadline))⟩
  · rename_i hdeadline
    split
    · exact ⟨fun h => absurd rfl h, fun h => by simp at h⟩
    · rename_i hseen
      split
      · split
        · rename_i hlate
          exact ⟨fun h => absurd rfl h, fun _ => .inr (.inr hlate)⟩
        · refine ⟨fun _ => ⟨?_, ?_⟩, fun h => by simp at h⟩
          · by_contra hann
            exact hseen (hw.unseen (by simpa using hann) hphase)
          · exact not_le.mp fun hexpired => hdeadline (htimely.mp hexpired)
      · rename_i hpending
        have hall := hw.conserved hopen
        rw [hpending, List.append_nil] at hall
        split
        · rename_i hclosed
          exact ⟨fun h => absurd rfl h, fun _ => .inl ⟨hclosed, hall⟩⟩
        · exact ⟨fun h => absurd rfl h, fun h => by simp at h⟩

theorem recheck_right {s : State Digest} {r : Response Chunk} (hi : Invariant auth s) (hw : Watching auth s r)
    {time : Nat} (hphase : r.phase = .checking time) :
    (recheck auth s r time).delivered = r.delivered ∧
    ((recheck auth s r time).phase = .ended → r.revoked ∨ r.expires ≤ s.now) := by
  unfold recheck
  split
  · rename_i error herror
    refine ⟨rfl, fun _ => ?_⟩
    obtain ⟨token, htoken, -, hexpires, hgone⟩ := hw.tracked (by rw [hphase]; trivial)
    cases hrow : s.sessions.get? token with
    | none => exact hgone hrow
    | some row =>
        have hexpired := session_error hi herror htoken hrow
        exact .inr (hexpires row hrow ▸ hexpired.trans (hw.past time (.inr hphase)))
  · exact ⟨rfl, fun h => by simp at h⟩

/-- The steps of a response that are not its stream's own neither deliver nor end. -/
theorem respond_quiet {s : State Digest} {r r' : Response Chunk} {a : Action Chunk} (ha : ¬ a.own)
    (h : respond auth s r a = some r') : r'.delivered = r.delivered ∧ (r'.phase = .ended → r.phase = .ended) := by
  cases a with
  | gateway | subscribe => contradiction
  | poll | recheck => exact absurd trivial ha
  | read | fail | respond =>
      simp only [Gateway.respond, Option.ite_none_right_eq_some] at h
      obtain ⟨-, h⟩ := h
      obtain rfl := Option.some.inj h
      exact ⟨rfl, fun h => by simp at h⟩
  | authenticate =>
      simp only [Gateway.respond] at h
      split at h
      · obtain rfl := Option.some.inj h
        unfold authenticate
        split <;> exact ⟨rfl, fun h => by simp at h⟩
      · contradiction
  | chunk c =>
      simp only [Gateway.respond] at h
      split at h
      · contradiction
      · obtain rfl := Option.some.inj h
        exact ⟨rfl, id⟩
  | close =>
      obtain rfl := Option.some.inj h
      exact ⟨rfl, id⟩

theorem Sound.right (hx : Sound auth x) {a : Action Chunk} (htimely : Timely x a) : Right auth x a := by
  intro y r r' h hr hr'
  have hw := hx.response r hr
  cases a with
  | gateway e =>
      simp only [Gateway.proceed, Option.map_eq_some_iff] at h
      obtain ⟨t, -, rfl⟩ := h
      simp only [hr, Option.map_some, Option.some.injEq] at hr'
      subst hr'
      exact ⟨fun h => absurd rfl h, fun hopen hended => absurd hended hopen⟩
  | subscribe headers => simp [Gateway.proceed, hr] at h
  | read | authenticate | fail | respond | chunk | close =>
      simp only [Gateway.proceed, hr, Option.bind_some, Option.map_eq_some_iff] at h
      obtain ⟨new, hrespond, rfl⟩ := h
      obtain rfl := Option.some.inj hr'
      obtain ⟨hsame, hopen⟩ := respond_quiet (by simp [Action.own]) hrespond
      exact ⟨fun h => absurd hsame h, fun hne hended => absurd (hopen hended) hne⟩
  | poll later =>
      simp only [Gateway.proceed, hr, Option.bind_some, Option.map_eq_some_iff, Gateway.respond,
        Option.ite_none_right_eq_some] at h
      obtain ⟨new, ⟨⟨hphase, -⟩, hnew⟩, rfl⟩ := h
      obtain rfl := Option.some.inj hr'
      obtain rfl := Option.some.inj hnew
      obtain ⟨hdelivers, hends⟩ := poll_right hw hphase (htimely r hr)
      refine ⟨fun h => ⟨trivial, hdelivers h⟩, fun _ hended => ?_⟩
      rcases hends hended with hdone | hexpired | hlate
      · exact .inl hdone
      · exact .inr (.inr (.inl hexpired))
      · exact .inr (.inr (.inr ⟨later, rfl, hlate⟩))
  | recheck =>
      simp only [Gateway.proceed, hr, Option.bind_some, Option.map_eq_some_iff, Gateway.respond] at h
      obtain ⟨new, hnew, rfl⟩ := h
      obtain rfl := Option.some.inj hr'
      split at hnew
      · rename_i hphase
        obtain rfl := Option.some.inj hnew
        obtain ⟨hsame, hends⟩ := recheck_right hx.gateway hw hphase
        exact ⟨fun h => absurd hsame h, fun _ hended => .inr ((hends hended).imp_right .inl)⟩
      · contradiction

/-- The re-check of a session that is announced as revoked ends the stream. -/
theorem recheck_severs {s : State Digest} {r : Response Chunk} (hw : Watching auth s r) (hann : r.announced)
    (time : Nat) : recheck auth s r time = { r with phase := .ended } := by
  obtain ⟨⟨token, htoken, -, hnone⟩, -⟩ := hw.noticed hann
  have herror : session auth s r.headers time = .error denied := by
    simp [session, htoken, hnone]
  rw [recheck, herror]

theorem poll_overdue {s : State Digest} {r : Response Chunk} {later : Nat} (h : r.deadline ≤ s.instant) :
    poll s r later = { r with phase := .ended } := by
  rw [poll, if_pos h]

theorem poll_changed {s : State Digest} {r : Response Chunk} {later : Nat} (h : ¬ r.deadline ≤ s.instant)
    (hseen : r.seen ≠ s.sessionsChanged) : poll s r later = { r with
      phase := .checking s.now
      seen := s.sessionsChanged } := by
  rw [poll, if_neg h, if_pos hseen]

theorem proceed_poll {r : Response Chunk} (hr : x.response = some r) (hphase : r.phase = .idle ∨ r.phase = .looping) :
    proceed auth x (.poll x.gateway.instant) = some ⟨x.gateway, some (poll x.gateway r x.gateway.instant)⟩ := by
  simp only [Gateway.proceed, hr, Option.bind_some, respond, hphase, le_refl, and_self, if_true, Option.map_some]

theorem proceed_recheck {r : Response Chunk} {time : Nat} (hw : Watching auth x.gateway r) (hr : x.response = some r)
    (hann : r.announced) (hphase : r.phase = .checking time) :
    proceed auth x .recheck = some ⟨x.gateway, some { r with phase := .ended }⟩ := by
  simp only [Gateway.proceed, hr, Option.bind_some, respond, hphase, recheck_severs hw hann, Option.map_some]

theorem severed_of_announced (hx : Sound auth x) {r : Response Chunk} (hr : x.response = some r) (hann : r.announced)
    (hphase : r.phase = .idle ∨ r.phase = .looping ∨ ∃ time, r.phase = .checking time) :
    ∃ own y r', (∀ a ∈ own, Action.own a) ∧ exec (proceed auth) x own = some y ∧ y.response = some r' ∧
      r'.phase = .ended ∧ r'.delivered = r.delivered := by
  have hw := hx.response r hr
  by_cases hpolled : r.phase = .idle ∨ r.phase = .looping
  · have hpoll : proceed auth x _ = _ := proceed_poll hr hpolled
    have hwatching : Watching auth x.gateway (poll x.gateway r x.gateway.instant) := hw.poll hpolled
    by_cases hdeadline : r.deadline ≤ x.gateway.instant
    · rw [poll_overdue hdeadline] at hpoll
      refine ⟨[.poll x.gateway.instant], _, _, fun a ha => ?_, exec_cons.mpr ⟨_, hpoll, exec_nil _⟩, rfl, rfl, rfl⟩
      rw [List.mem_singleton.mp ha]
      trivial
    · rw [poll_changed hdeadline (hw.unseen hann hpolled)] at hpoll hwatching
      refine ⟨[.poll x.gateway.instant, .recheck], _, _, fun a ha => ?_, exec_cons.mpr ⟨_, hpoll, exec_cons.mpr
        ⟨_, proceed_recheck hwatching rfl hann rfl, exec_nil _⟩⟩, rfl, rfl, rfl⟩
      rcases List.mem_cons.mp ha with rfl | ha
      · trivial
      · rw [List.mem_singleton.mp ha]
        trivial
  · obtain ⟨time, htime⟩ : ∃ time, r.phase = .checking time := by tauto
    refine ⟨[.recheck], _, _, fun a ha => ?_,
      exec_cons.mpr ⟨_, proceed_recheck hw hr hann htime, exec_nil _⟩, rfl, rfl, rfl⟩
    rw [List.mem_singleton.mp ha]
    trivial

theorem Sound.streamed (hx : Sound auth x) {r : Response Chunk} (hr : x.response = some r) : Streamed auth x r where
  delivered := (hx.response r hr).prefix_upstream
  conserved := (hx.response r hr).conserved
  severed := severed_of_announced hx hr

def opened (Digest Chunk : Type) [LinearOrder Digest] : System Digest Chunk := ⟨start Digest, none⟩

theorem sound_opened : Sound auth (opened Digest Chunk) where
  gateway := invariant_start
  secrets := ⟨fun _ _ h => by simp [opened, start] at h, fun _ _ _ _ _ h => by simp [opened, start] at h⟩
  response _ h := by simp [opened] at h

/-- In a run whose steps are timely, every step of the response is right, and the
response is a true stream of the worker's. -/
theorem logged_out_receives_nothing {es : List (Action Chunk)}
    (h : exec (proceed auth) (opened Digest Chunk) es = some x)
    (hfresh : Along (proceed auth) (Unrepeated auth) (opened Digest Chunk) es)
    (htimely : Along (proceed auth) Timely (opened Digest Chunk) es) :
    Along (proceed auth) (Right auth) (opened Digest Chunk) es ∧ ∀ r, x.response = some r → Streamed auth x r := by
  have hboth := hfresh.and htimely
  constructor
  · exact Along.of_invariant (I := Sound auth) (fun hs hP hstep => hs.proceed hP.1 hP.2 hstep)
      (fun hs hP => hs.right hP.2) sound_opened hboth
  · intro r hr
    exact (exec_invariant_along (I := Sound auth) (fun hs hP hstep => hs.proceed hP.1 hP.2 hstep) sound_opened h
      hboth).streamed hr

end Runs

namespace Server

def enter : List (Action String) :=
  [.gateway (.login 0 "cilogon" "s1" "n1" "v1" "b1"), .gateway (.tick 1000000000 1),
    .gateway (.callback 1 "cilogon" ⟨"s1", some "code"⟩ browser), .gateway (.exchanged 1 claims "secret" "token"),
    .gateway (.work 1 "account"), .subscribe signedIn, .read, .authenticate]

/-- A stream that delivers an event and is ended by a logout. -/
def loggedOut : List (Action String) :=
  enter ++ [.respond, .chunk "one", .poll 1000000000, .gateway (.logout 2 signedIn), .gateway (.work 2 ""),
    .gateway (.work 2 ""), .chunk "two", .gateway (.announce 2), .poll 1000000000, .recheck]

/-- No session is granted or about to be when a sign-in draws its random values. -/
def first (x : System String String) : Action String → Bool
  | .gateway (.exchanged ..) =>
      (granted x.gateway.log).isEmpty && x.gateway.calls.entries.all fun e => !(e.2 matches .storing ..)
  | _ => true

theorem unrepeated_of_first {x : System String String} {a : Action String} (h : first x a = true) :
    Unrepeated auth x a := by
  cases a with
  | gateway e =>
      cases e with
      | exchanged id claims session csrf =>
          simp only [first, Bool.and_eq_true, List.isEmpty_iff, List.all_eq_true] at h
          refine ⟨?_, fun id n claims other csrf time hcall => ?_⟩
          · rintro ⟨n, claims, account, hmem⟩
            have hgranted : n ∈ granted x.gateway.log := List.mem_filterMap.mpr ⟨_, hmem, rfl⟩
            simp [h.1] at hgranted
          · have hentry := h.2 _ ((get?_eq_some x.gateway.calls.sorted).mp hcall)
            simp at hentry
      | tick | login | callback | session | mutation | logout | work | announce | failed => trivial
  | subscribe | read | authenticate | fail | respond | chunk | close | poll | recheck => trivial

def timely (x : System String String) : Action String → Bool
  | .gateway (.tick _ now) => x.gateway.now ≤ now
  | .poll _ => x.response.all fun r =>
      decide (r.expires ≤ x.gateway.now) == decide (r.built + r.remaining * second ≤ x.gateway.instant)
  | _ => true

theorem timely_of {x : System String String} {a : Action String} (h : timely x a = true) : Timely x a := by
  cases a with
  | gateway e =>
      cases e with
      | tick instant now => simpa [timely, Timely, Forward] using h
      | exchanged | login | callback | session | mutation | logout | work | announce | failed => trivial
  | poll later =>
      intro r hr
      simp only [timely, hr, Option.all_some, beq_iff_eq, decide_eq_decide] at h
      exact h
  | subscribe | read | authenticate | fail | respond | chunk | close | recheck => trivial

theorem loggedOut_streams : ∃ x r, exec (proceed auth) (opened String String) loggedOut = some x ∧ x.response = some r ∧
    r.delivered = ["one"] ∧ r.upstream = ["one", "two"] ∧ r.phase = .ended ∧
    Along (proceed auth) (Right auth) (opened String String) loggedOut ∧ Streamed auth x r := by
  have hrun : (exec (proceed auth) (opened String String) loggedOut).bind (fun x => x.response.map fun r =>
      (r.delivered, r.upstream, r.phase)) = some (["one"], ["one", "two"], .ended) := by decide +kernel
  obtain ⟨x, hx, hresponse⟩ := Option.bind_eq_some_iff.mp hrun
  obtain ⟨r, hr, hvalues⟩ := Option.map_eq_some_iff.mp hresponse
  simp only [Prod.mk.injEq] at hvalues
  have hmain := logged_out_receives_nothing hx
    (along_of_check (fun _ _ => unrepeated_of_first) (by decide +kernel))
    (along_of_check (fun _ _ => timely_of) (by decide +kernel))
  exact ⟨x, r, hx, hr, hvalues.1, hvalues.2.1, hvalues.2.2, hmain.1, hmain.2 r hr⟩

/-- The worker takes two seconds to answer, and the stream outlives its session. -/
def overdue : List (Action String) :=
  enter ++ [.gateway (.tick 3000000000 3), .respond, .gateway (.tick 86402000000000 86402), .chunk "late"]

theorem overdue_delivers : ¬ ∀ (es : List (Action String)) (x : System String String),
    exec (proceed auth) (opened String String) es = some x →
    Along (proceed auth) (Unrepeated auth) (opened String String) es →
    Along (proceed auth) (Right auth) (opened String String) es ∧ ∀ r, x.response = some r → Streamed auth x r := by
  intro h
  have hrun : (exec (proceed auth) (opened String String) overdue).bind (fun x => (proceed auth x (.poll 86402000000000)).bind
      fun y => x.response.bind fun r => y.response.map fun r' => (x.gateway.now, r.expires, r.delivered, r'.delivered)) =
      some (86402, 86401, [], ["late"]) := by decide +kernel
  obtain ⟨x, hx, hnext⟩ := Option.bind_eq_some_iff.mp hrun
  obtain ⟨y, hy, hresponse⟩ := Option.bind_eq_some_iff.mp hnext
  obtain ⟨r, hr, hlater⟩ := Option.bind_eq_some_iff.mp hresponse
  obtain ⟨r', hr', hvalues⟩ := Option.map_eq_some_iff.mp hlater
  simp only [Prod.mk.injEq] at hvalues
  obtain ⟨hnow, hexpires, hbefore, hafter⟩ := hvalues
  have hright := (h _ y (exec_concat.mpr ⟨x, hx, hy⟩)
    (along_of_check (fun _ _ => unrepeated_of_first) (by decide +kernel))).1.at_last hx
  obtain ⟨-, -, hlt⟩ := (hright y r r' hy hr hr').1 (by simp [hbefore, hafter])
  omega

end Server

end Wordflow.Gateway
