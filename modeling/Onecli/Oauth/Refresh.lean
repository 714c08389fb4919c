import Onecli.Foundation.Runs
import Onecli.Gateway.Text

/-!
# Spending a refresh token

`proxy/src/refresh.rs` with the queries of `db/src/lib.rs` that it runs, for one connection. A call
queues on a stripe of its gateway, takes the advisory lock of the connection inside a transaction,
reads the row again and may hand the transaction to a task of its own that asks the provider. The
lock is held by the transaction, so what is done under it is the state of the transaction that
holds it. Requests may be cancelled, waits may run out, and the user may reconnect or disconnect
the account, at any time.

A ciphertext is the nonce of its encryption together with what it decrypts to.
-/

namespace Onecli.Oauth

open Gateway (Str)

/-- An access token or a refresh token. -/
abbrev Token := Str

/-- What a refresh reads and writes of the decrypted credentials. -/
structure Credential where
  accessToken : Option Token
  expiresAt : Option ℤ
  refreshToken : Option Token
  deriving DecidableEq

/-- A ciphertext. -/
structure Stored where
  nonce : ℕ
  credential : Credential
  deriving DecidableEq

/-- A row of `app_connections`. -/
structure Row where
  credentials : Option Stored
  /-- `status = 'connected'`. -/
  connected : Bool
  /-- `reauth_required_at IS NOT NULL`. -/
  reauthRequired : Bool

/-- `find_connected_app_credentials`. -/
def findConnectedAppCredentials (row : Option Row) : Option (Stored × Bool) := do
  let row ← row
  let credentials ← row.credentials
  if row.connected then some (credentials, row.reauthRequired) else none

/-- `replace_app_connection_credentials`. -/
def replaceAppConnectionCredentials (row : Option Row) (expected encrypted : Stored) : Option Row :=
  row.map fun row =>
    if row.credentials = some expected then
      { row with credentials := some encrypted, reauthRequired := false }
    else row

/-- `mark_app_connection_reauth_required`, and whether it did. -/
def markAppConnectionReauthRequired (row : Option Row) (expected : Stored) : Option Row × Bool :=
  match row with
  | none => (none, false)
  | some row =>
    if row.credentials = some expected then (some { row with reauthRequired := true }, true)
    else (some row, false)

/-- `usable_token`. -/
def usableToken (creds : Credential) (now : ℤ) (rejected : Option Token) :
    Option (Token × Option ℤ) := do
  let token ← creds.accessToken
  if rejected = some token then none
  else if creds.expiresAt.any (· < now) then none
  else some (token, creds.expiresAt)

/-- `RefreshOutcome`. -/
inductive RefreshOutcome where
  | token (accessToken : Token) (expiresAt : Option ℤ)
  | revoked
  | needsReconnect
  | unavailable

/-- What `apps::refresh_access_token` makes of the provider's answer. -/
inductive Answer where
  | minted (accessToken : Token) (expiresAt : ℤ) (rotated : Option Token)
  | credentialRevoked
  | failed
  deriving DecidableEq

/-- The credential that a minted answer makes of the one it was asked with. -/
def Credential.next (creds : Credential) (accessToken : Token) (expiresAt : ℤ)
    (rotated : Option Token) : Credential :=
  ⟨some accessToken, some expiresAt, rotated.or creds.refreshToken⟩

/-- What a call does with the row that it read again. -/
inductive Decision where
  | finish (outcome : RefreshOutcome)
  | spend (stored : Stored)

/-- The part of `refresh_oauth_token` after the lock and before the spend. `readable` is whether the
stored credentials decrypt. -/
def reread (row : Option Row) (readable : Bool) (now : ℤ) (rejected : Option Token) : Decision :=
  match findConnectedAppCredentials row with
  | none => .finish .revoked
  | some (stored, reauthRequired) =>
    if readable = false then .finish .unavailable
    else match usableToken stored.credential now rejected with
      | some (accessToken, expiresAt) => .finish (.token accessToken expiresAt)
      | none =>
        if reauthRequired then .finish .needsReconnect
        else if stored.credential.refreshToken.isNone then .finish .unavailable
        else .spend stored

/-- `persist`: nothing is written where encrypting fails. -/
def persist (row : Option Row) (expected : Stored) (encrypted : Option Stored) : Option Row :=
  match encrypted with
  | none => row
  | some encrypted => replaceAppConnectionCredentials row expected encrypted

/-- The end of the spending task: what becomes of the row, and the outcome. `nonce` is that of the
encryption, when it succeeds. -/
def settle (row : Option Row) (stored : Stored) (answer : Answer) (nonce : Option ℕ) :
    Option Row × RefreshOutcome :=
  match answer with
  | .minted accessToken expiresAt rotated =>
    let next := stored.credential.next accessToken expiresAt rotated
    (persist row stored (nonce.map fun nonce => ⟨nonce, next⟩), .token accessToken (some expiresAt))
  | .credentialRevoked =>
    let (row, marked) := markAppConnectionReauthRequired row stored
    (row, if marked then .needsReconnect else .unavailable)
  | .failed => (row, .unavailable)

/-- What the transaction that holds the lock has come to. From `spawned` on the task has it. -/
inductive Stage where
  | locked
  /-- The OAuth client is looked up. -/
  | resolving (stored : Stored)
  | spawned (stored : Stored)
  | asked (stored : Stored)
  | answered (stored : Stored) (answer : Answer)

/-- The transaction that holds the lock. -/
structure Transaction where
  call : ℕ
  stage : Stage

/-- What the request of a call has come to. -/
inductive Request where
  | queued
  /-- It has the stripe and waits for the lock. -/
  | waiting
  | running
  | returned (outcome : RefreshOutcome)
  | cancelled

/-- A call of `refresh_oauth_token`. -/
structure Call where
  gateway : ℕ
  /-- The access token that the provider refused, when that drives the call. -/
  rejected : Option Token
  request : Request
  /-- The row that the call read again. -/
  reread : Option (Option Row)

/-- A write of the credentials, and the ciphertext it was computed from when a refresh wrote it. -/
structure Write where
  value : Stored
  basis : Option Stored

/-- The connection, the calls for it on every gateway, and what has happened so far. -/
structure State where
  row : Option Row
  lock : Option Transaction
  /-- The call that has the stripe of the connection, by gateway. -/
  stripes : ℕ → Option ℕ
  calls : ℕ → Option Call
  /-- The refresh tokens that the provider has issued. -/
  issued : List Token
  /-- The refresh tokens that the provider has answered with a replacement. -/
  rotated : List Token
  /-- The credentials whose refresh token the provider has refused. -/
  refused : List Stored
  /-- The access tokens that the provider has minted, with what it was asked with. -/
  minted : List (Stored × Token)
  /-- What was stored, newest first. -/
  writes : List Write

/-- A connection is made. -/
def State.init (creds : Credential) : State where
  row := some ⟨some ⟨0, creds⟩, true, false⟩
  lock := none
  stripes := fun _ => none
  calls := fun _ => none
  issued := creds.refreshToken.toList
  rotated := []
  refused := []
  minted := []
  writes := [⟨⟨0, creds⟩, none⟩]

/-- What happens next. -/
inductive Event where
  | call (id gateway : ℕ) (rejected : Option Token)
  | takeStripe (id : ℕ)
  /-- A wait for the stripe, for a database connection or for the lock runs out. -/
  | giveUp (id : ℕ)
  | takeLock (id : ℕ)
  | reread (readable : Bool) (now : ℤ)
  | spawn
  | ask
  | answer (answer : Answer)
  /-- The task stores what the answer comes to and commits. -/
  | commit (encrypts : Bool)
  | cancel (id : ℕ)
  /-- The user reconnects the account. -/
  | reconnect (creds : Credential)
  /-- The connection is not connected any more. -/
  | disconnect
  | delete

namespace State

/-- A call is set. -/
def setCall (s : State) (id : ℕ) (call : Call) : State := { s with calls := Function.update s.calls id (some call) }

/-- A call that has the stripe ends. -/
def endCall (s : State) (id : ℕ) (call : Call) (request : Request) : State :=
  { s.setCall id { call with request := request } with
    stripes := Function.update s.stripes call.gateway none }

/-- A call joins the queue of its gateway. -/
def callOf (s : State) (id gateway : ℕ) (rejected : Option Token) : Option State :=
  match s.calls id with
  | none => some (s.setCall id ⟨gateway, rejected, .queued, none⟩)
  | some _ => none

/-- A call takes the stripe. -/
def takeStripe (s : State) (id : ℕ) : Option State :=
  match s.calls id with
  | some call =>
    match call.request, s.stripes call.gateway with
    | .queued, none => some { s.setCall id { call with request := .waiting } with
        stripes := Function.update s.stripes call.gateway (some id) }
    | _, _ => none
  | none => none

/-- A call waits no longer. -/
def giveUp (s : State) (id : ℕ) : Option State :=
  match s.calls id with
  | some call =>
    match call.request with
    | .queued => some (s.setCall id { call with request := .returned .unavailable })
    | .waiting => some (s.endCall id call (.returned .unavailable))
    | _ => none
  | none => none

/-- A call takes the lock. -/
def takeLock (s : State) (id : ℕ) : Option State :=
  match s.calls id with
  | some call =>
    match call.request, s.lock with
    | .waiting, none => some { s.setCall id { call with request := .running } with lock := some ⟨id, .locked⟩ }
    | _, _ => none
  | none => none

/-- The call with the lock reads the row again. -/
def rereadRow (s : State) (readable : Bool) (now : ℤ) : Option State :=
  match s.lock with
  | some ⟨id, .locked⟩ =>
    match s.calls id with
    | some call =>
      match call.request with
      | .running =>
        let call := { call with reread := some s.row }
        match Oauth.reread s.row readable now call.rejected with
        | .finish outcome => some { s.endCall id call (.returned outcome) with lock := none }
        | .spend stored => some { s.setCall id call with lock := some ⟨id, .resolving stored⟩ }
      | _ => none
    | none => none
  | _ => none

/-- The transaction is handed to the spending task. -/
def spawn (s : State) : Option State :=
  match s.lock with
  | some ⟨id, .resolving stored⟩ => some { s with lock := some ⟨id, .spawned stored⟩ }
  | _ => none

/-- The task asks the provider. -/
def ask (s : State) : Option State :=
  match s.lock with
  | some ⟨id, .spawned stored⟩ => some { s with lock := some ⟨id, .asked stored⟩ }
  | _ => none

/-- What an answer leaves behind at the provider. A provider that rotates refresh tokens issues
each value once. -/
def provide (rotates : Bool) (s : State) (stored : Stored) (answer : Answer) : Option State :=
  match answer with
  | .minted accessToken _ rotated =>
    let s := { s with minted := (stored, accessToken) :: s.minted }
    match rotated with
    | none => some s
    | some token =>
      if some token = stored.credential.refreshToken then some s
      else if rotates = true ∧ token ∉ s.issued then
        some { s with
          issued := token :: s.issued
          rotated := stored.credential.refreshToken.toList ++ s.rotated }
      else none
  | .credentialRevoked => some { s with refused := stored :: s.refused }
  | .failed => some s

/-- The provider answers, or the task fails before it asks. -/
def answer (rotates : Bool) (s : State) (answer : Answer) : Option State :=
  match s.lock with
  | some ⟨id, .asked stored⟩ =>
    (s.provide rotates stored answer).map fun s => { s with lock := some ⟨id, .answered stored answer⟩ }
  | some ⟨id, .spawned stored⟩ =>
    if answer = .failed then some { s with lock := some ⟨id, .answered stored answer⟩ } else none
  | _ => none

/-- The task ends: it stores what the answer comes to, commits, and tells the request if that is
still there. Each encryption has a nonce of its own. -/
def commit (s : State) (encrypts : Bool) : Option State :=
  match s.lock with
  | some ⟨id, .answered stored answer⟩ =>
    let nonce := if encrypts then some s.writes.length else none
    let (row, outcome) := settle s.row stored answer nonce
    let stored' := row.bind Row.credentials
    let s' := { s with
      row := row
      lock := none
      writes := if stored' = s.row.bind Row.credentials then s.writes
        else (stored'.map fun value => Write.mk value (some stored)).toList ++ s.writes }
    match s.calls id with
    | some call =>
      match call.request with
      | .running => some (s'.endCall id call (.returned outcome))
      | _ => some s'
    | none => some s'
  | _ => none

/-- A request is cancelled. A transaction that it still has is dropped; a task goes on. -/
def cancel (s : State) (id : ℕ) : Option State :=
  match s.calls id with
  | some call =>
    match call.request with
    | .queued => some (s.setCall id { call with request := .cancelled })
    | .waiting => some (s.endCall id call .cancelled)
    | .running =>
      let lock := match s.lock with
        | some ⟨holder, .locked⟩ => if holder = id then none else s.lock
        | some ⟨holder, .resolving _⟩ => if holder = id then none else s.lock
        | _ => s.lock
      some { s.endCall id call .cancelled with lock := lock }
    | _ => none
  | none => none

/-- `reconnectConnection`: the credential that the user's consent just made is stored, under no
lock. -/
def reconnect (rotates : Bool) (s : State) (creds : Credential) : Option State :=
  match s.row with
  | none => none
  | some _ =>
    if rotates = true ∧ creds.refreshToken.any (s.issued.contains ·) then none
    else
      let value : Stored := ⟨s.writes.length, creds⟩
      some { s with
        row := some ⟨some value, true, false⟩
        issued := creds.refreshToken.toList ++ s.issued
        writes := ⟨value, none⟩ :: s.writes }

/-- One step. -/
def step (rotates : Bool) (s : State) : Event → Option State
  | .call id gateway rejected => s.callOf id gateway rejected
  | .takeStripe id => s.takeStripe id
  | .giveUp id => s.giveUp id
  | .takeLock id => s.takeLock id
  | .reread readable now => s.rereadRow readable now
  | .spawn => s.spawn
  | .ask => s.ask
  | .answer answer => s.answer rotates answer
  | .commit encrypts => s.commit encrypts
  | .cancel id => s.cancel id
  | .reconnect creds => s.reconnect rotates creds
  | .disconnect => some { s with row := s.row.map fun row => { row with connected := false } }
  | .delete => some { s with row := none }

end State

end Onecli.Oauth
