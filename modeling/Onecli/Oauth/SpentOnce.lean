import Onecli.Oauth.Refresh

/-!
# A refresh token is spent once

What holds of a connection after any calls, cancellations, reconnects and disconnects: what was
stored forms a chain in which every refresh replaced the value it was computed from; a row is
flagged only with the credential that the provider refused; and a call returns no token of a row
that was not connected when the call read it again. As long as the credentials that a task obtains
can be encrypted, no refresh token that the provider has replaced is sent to it again.
-/

namespace Onecli.Oauth

open Function (update update_of_ne update_self)
open List Option Runs

/-- Every value that a refresh stored replaced the value that the refresh was computed from. -/
def Chained : List Write → Prop
  | [] => True
  | write :: rest => (∀ basis, write.basis = some basis → rest.head?.map Write.value = some basis) ∧ Chained rest

/-- The credential that a transaction works with. -/
def Stage.stored : Stage → Option Stored
  | .locked => none
  | .resolving stored => some stored
  | .spawned stored => some stored
  | .asked stored => some stored
  | .answered stored _ => some stored

/-- The refresh token that replaces the one that was asked with. -/
def Stage.replacement : Stage → Option Token
  | .answered stored (.minted _ _ (some token)) =>
    if some token = stored.credential.refreshToken then none else some token
  | _ => none

namespace State

/-- What holds whether or not credentials can be encrypted. -/
structure Kept (s : State) : Prop where
  /-- The stored credential is never overwritten by a refresh computed from an older one. -/
  chained : Chained s.writes
  newest : ∀ row value, s.row = some row → row.credentials = some value → s.writes.head?.map Write.value = some value
  /-- A row is flagged only while it holds the credential that the provider refused. -/
  flagged : ∀ row, s.row = some row → row.reauthRequired = true → ∃ stored ∈ s.refused, row.credentials = some stored
  /-- A token comes from a row that was connected when the call read it again. -/
  connected : ∀ id call token expiresAt, s.calls id = some call → call.request = .returned (.token token expiresAt) →
    ∃ row stored, call.reread = some (some row) ∧ row.connected = true ∧ row.credentials = some stored ∧
      (stored.credential.accessToken = some token ∨ (stored, token) ∈ s.minted)

/-- The transaction that holds the lock works with a credential that its call read from a connected
row, and that a row with the same refresh token of a rotating provider still holds. -/
structure Working (rotates : Bool) (s : State) (id : ℕ) (stored : Stored) : Prop where
  read : ∃ call row, s.calls id = some call ∧ call.reread = some (some row) ∧ row.connected = true ∧
    row.credentials = some stored
  token : ∃ token ∈ s.issued, stored.credential.refreshToken = some token ∧
    (rotates = true → ∀ row value, s.row = some row → row.credentials = some value →
      value = stored ∨ value.credential.refreshToken ≠ some token)

/-- What always holds of a connection. -/
structure Inv (rotates : Bool) (s : State) : Prop where
  kept : s.Kept
  issued : ∀ token ∈ s.rotated, token ∈ s.issued
  never : rotates = false → s.rotated = []
  stored : ∀ row value token, s.row = some row → row.credentials = some value →
    value.credential.refreshToken = some token → token ∈ s.issued
  holder : ∀ tx, s.lock = some tx → ∃ call, s.calls tx.call = some call
  working : ∀ tx value, s.lock = some tx → tx.stage.stored = some value → Working rotates s tx.call value
  refused : ∀ id value, s.lock = some ⟨id, .answered value .credentialRevoked⟩ → value ∈ s.refused
  minted : ∀ id value token expiresAt rotated,
    s.lock = some ⟨id, .answered value (.minted token expiresAt rotated)⟩ →
      (value, token) ∈ s.minted ∧ ∀ next, rotated = some next → next ∈ s.issued

/-- What holds as long as credentials can be encrypted: a refresh token that the provider has
replaced is stored only while the transaction that is about to replace it has the lock. -/
structure Unspent (s : State) : Prop where
  working : ∀ tx value token, s.lock = some tx → tx.stage.stored = some value →
    tx.stage.replacement = none → value.credential.refreshToken = some token → token ∉ s.rotated
  replacing : ∀ tx token, s.lock = some tx → tx.stage.replacement = some token → token ∉ s.rotated
  stored : ∀ row value token, s.row = some row → row.credentials = some value →
    value.credential.refreshToken = some token → token ∈ s.rotated →
    ∃ tx, s.lock = some tx ∧ tx.stage.stored = some value ∧ tx.stage.replacement ≠ none

/-- A step of the requests: nothing is stored, asked or answered, and no token is returned. -/
structure Moves (s s' : State) : Prop where
  row : s'.row = s.row
  issued : s'.issued = s.issued
  rotated : s'.rotated = s.rotated
  refused : s'.refused = s.refused
  minted : s'.minted = s.minted
  writes : s'.writes = s.writes
  lock : s'.lock = s.lock ∨ (s.lock = none ∧ ∃ id call, s'.lock = some ⟨id, .locked⟩ ∧ s'.calls id = some call) ∨
    (s'.lock = none ∧ ∀ tx, s.lock = some tx → tx.stage.replacement = none)
  rereads : ∀ id call, s.calls id = some call → ∃ call', s'.calls id = some call' ∧ call'.reread = call.reread
  returns : ∀ id call, s'.calls id = some call → s.calls id = some call ∨
    ∀ token expiresAt, call.request ≠ .returned (.token token expiresAt)

section Requests

variable {s s' : State}

variable {id : ℕ}

theorem calls_update {calls : ℕ → Option Call} {call new : Call} (hcall : calls id = some call)
    (hreread : new.reread = call.reread)
    (hret : ∀ token expiresAt, new.request ≠ .returned (.token token expiresAt)) :
    (∀ k old, calls k = some old → ∃ call', update calls id (some new) k = some call' ∧ call'.reread = old.reread) ∧
    ∀ k call', update calls id (some new) k = some call' → calls k = some call' ∨
      ∀ token expiresAt, call'.request ≠ .returned (.token token expiresAt) := by
  refine ⟨fun k old hold => ?_, fun k call' hnew => ?_⟩
  · by_cases hk : k = id
    · subst hk
      cases hcall.symm.trans hold
      exact ⟨new, update_self _ _ _, hreread⟩
    · exact ⟨old, (update_of_ne hk _ _).trans hold, rfl⟩
  · obtain ⟨-, hsame⟩ | ⟨-, hold⟩ := update_cases hnew
    · cases hsame
      exact .inr hret
    · exact .inl hold

/-- A call that moves. -/
theorem Moves.of_update {call new : Call} {stripes : ℕ → Option ℕ} {lock : Option Transaction}
    (hcall : s.calls id = some call) (hreread : new.reread = call.reread)
    (hret : ∀ token expiresAt, new.request ≠ .returned (.token token expiresAt))
    (hlock : lock = s.lock ∨ (s.lock = none ∧ lock = some ⟨id, .locked⟩) ∨ (lock = none ∧ ∀ tx, s.lock = some tx → tx.stage.replacement = none)) :
    Moves s { s with
      calls := update s.calls id (some new), stripes := stripes, lock := lock } := by
  obtain ⟨hrereads, hkept⟩ := calls_update hcall hreread hret
  refine ⟨rfl, rfl, rfl, rfl, rfl, rfl, ?_, hrereads, hkept⟩
  rcases hlock with hsame | ⟨hnone, hlocked⟩ | hdropped
  · exact .inl hsame
  · exact .inr (.inl ⟨hnone, id, new, hlocked, update_self _ _ _⟩)
  · exact .inr (.inr hdropped)

theorem callOf_moves {id gateway : ℕ} {rejected : Option Token}
    (h : s.callOf id gateway rejected = some s') : Moves s s' := by
  unfold callOf at h
  split at h
  · next hnone =>
    cases h
    refine ⟨rfl, rfl, rfl, rfl, rfl, rfl, .inl rfl, fun k call hcall => ⟨call, ?_, rfl⟩, fun k call hcall => ?_⟩
    · have hk : k ≠ id := by
        rintro rfl
        cases hnone.symm.trans hcall
      exact (update_of_ne hk _ _).trans hcall
    · obtain ⟨-, hnew⟩ | ⟨-, hold⟩ := update_cases hcall
      · cases hnew
        exact .inr nofun
      · exact .inl hold
  · cases h

theorem takeStripe_moves (h : s.takeStripe id = some s') : Moves s s' := by
  unfold takeStripe at h
  split at h
  · next call hcall =>
    split at h
    · cases h
      exact .of_update hcall rfl nofun (.inl rfl)
    · cases h
  · cases h

theorem giveUp_moves (h : s.giveUp id = some s') : Moves s s' := by
  have hret (token : Token) (expiresAt : Option ℤ) :
      Request.returned .unavailable ≠ .returned (.token token expiresAt) := by
    intro hsame
    cases hsame
  unfold giveUp at h
  split at h
  · next call hcall =>
    split at h
    · cases h
      exact .of_update hcall rfl hret (.inl rfl)
    · cases h
      exact .of_update hcall rfl hret (.inl rfl)
    · cases h
  · cases h

theorem takeLock_moves (h : s.takeLock id = some s') : Moves s s' := by
  unfold takeLock at h
  split at h
  · next call hcall =>
    split at h
    · next hfree =>
      cases h
      exact .of_update hcall rfl nofun (.inr (.inl ⟨hfree, rfl⟩))
    · cases h
  · cases h

theorem cancel_moves (h : s.cancel id = some s') : Moves s s' := by
  unfold cancel at h
  split at h
  · next call hcall =>
    split at h
    · cases h
      exact .of_update hcall rfl nofun (.inl rfl)
    · cases h
      exact .of_update hcall rfl nofun (.inl rfl)
    · cases h
      refine .of_update hcall rfl nofun ?_
      split
      · next holder hlock =>
        split
        · refine .inr (.inr ⟨rfl, fun tx htx => ?_⟩)
          cases hlock.symm.trans htx
          rfl
        · exact .inl rfl
      · next holder stored hlock =>
        split
        · refine .inr (.inr ⟨rfl, fun tx htx => ?_⟩)
          cases hlock.symm.trans htx
          rfl
        · exact .inl rfl
      · exact .inl rfl
    · cases h
  · cases h

variable {rotates : Bool}

theorem Inv.moves (h : s.Inv rotates) (hmoves : Moves s s') : s'.Inv rotates := by
  obtain ⟨hrow, hissued, hrotated, hrefused, hminted, hwrites, hlock, hrereads, hret⟩ := hmoves
  -- a transaction with a credential was there before
  have hbefore {tx : Transaction} {value : Stored} (htx : s'.lock = some tx)
      (hstored : tx.stage.stored = some value) : s.lock = some tx := by
    rcases hlock with hsame | ⟨_, id, call, hlocked, _⟩ | ⟨hnone, _⟩
    · exact hsame.symm.trans htx
    · cases hlocked.symm.trans htx
      cases hstored
    · cases hnone.symm.trans htx
  refine ⟨⟨?_, ?_, ?_, ?_⟩, ?_, ?_, ?_, ?_, ?_, ?_, ?_⟩
  · rw [hwrites]
    exact h.kept.chained
  · rw [hrow, hwrites]
    exact h.kept.newest
  · rw [hrow, hrefused]
    exact h.kept.flagged
  · intro id call token expiresAt hcall hreq
    rw [hminted]
    rcases hret id call hcall with hold | hnone
    · exact h.kept.connected id call token expiresAt hold hreq
    · exact absurd hreq (hnone token expiresAt)
  · rw [hrotated, hissued]
    exact h.issued
  · rw [hrotated]
    exact h.never
  · rw [hrow, hissued]
    exact h.stored
  · intro tx htx
    rcases hlock with hsame | ⟨_, id, call, hlocked, hcall⟩ | ⟨hnone, _⟩
    · obtain ⟨call, hcall⟩ := h.holder tx (hsame.symm.trans htx)
      obtain ⟨call', hcall', _⟩ := hrereads tx.call call hcall
      exact ⟨call', hcall'⟩
    · cases hlocked.symm.trans htx
      exact ⟨call, hcall⟩
    · cases hnone.symm.trans htx
  · intro tx value htx hstored
    obtain ⟨⟨call, row, hcall, hread, hlink, hcreds⟩, htoken⟩ := h.working tx value (hbefore htx hstored) hstored
    obtain ⟨call', hcall', hsame⟩ := hrereads tx.call call hcall
    refine ⟨⟨call', row, hcall', hsame.trans hread, hlink, hcreds⟩, ?_⟩
    rw [hrow, hissued]
    exact htoken
  · intro id value htx
    rw [hrefused]
    exact h.refused id value (hbefore htx rfl)
  · intro id value token expiresAt rotated htx
    rw [hminted, hissued]
    exact h.minted id value token expiresAt rotated (hbefore htx rfl)

theorem Unspent.moves (h : s.Unspent) (hmoves : Moves s s') : s'.Unspent := by
  obtain ⟨hrow, _, hrotated, _, _, _, hlock, _, _⟩ := hmoves
  refine ⟨fun tx value token htx hstored => ?_, fun tx token htx hrepl => ?_,
    fun row value token hsome hcreds htoken hspent => ?_⟩
  · rw [hrotated]
    rcases hlock with hsame | ⟨_, id, call, hlocked, _⟩ | ⟨hnone, _⟩
    · exact h.working tx value token (hsame.symm.trans htx) hstored
    · cases hlocked.symm.trans htx
      cases hstored
    · cases hnone.symm.trans htx
  · rw [hrotated]
    rcases hlock with hsame | ⟨_, id, call, hlocked, _⟩ | ⟨hnone, _⟩
    · exact h.replacing tx token (hsame.symm.trans htx) hrepl
    · cases hlocked.symm.trans htx
      cases hrepl
    · cases hnone.symm.trans htx
  · obtain ⟨tx, htx, hstored, hrepl⟩ := h.stored row value token (hrow.symm.trans hsome)
      hcreds htoken (hrotated ▸ hspent)
    rcases hlock with hsame | ⟨hfree, _⟩ | ⟨_, hnone⟩
    · exact ⟨tx, hsame.trans htx, hstored, hrepl⟩
    · cases hfree.symm.trans htx
    · exact absurd (hnone tx htx) hrepl

end Requests

section Spending

variable {rotates : Bool} {s s' : State}

variable {id : ℕ} {stored : Stored} {row : Option Row} {readable : Bool} {now : ℤ} {token : Token}
  {expiresAt : Option ℤ} {nonce : Option ℕ} {creds : Credential}

theorem Inv.advance (h : s.Inv rotates) {stage next : Stage} (hlock : s.lock = some ⟨id, stage⟩)
    (hstage : stage.stored = some stored) (hnext : next.stored = some stored)
    (hunanswered : ∀ value answer, next = .answered value answer → answer = .failed) :
    Inv rotates { s with lock := some ⟨id, next⟩ } := by
  refine ⟨⟨h.kept.chained, h.kept.newest, h.kept.flagged, h.kept.connected⟩, h.issued, h.never,
    h.stored, fun tx htx => ?_, fun tx value htx hvalue => ?_, fun k value htx => ?_,
    fun k value token expiresAt rotated htx => ?_⟩
  · cases htx
    exact h.holder ⟨id, stage⟩ hlock
  · cases htx
    cases hnext.symm.trans hvalue
    have hworking := h.working ⟨id, stage⟩ stored hlock hstage
    exact ⟨hworking.read, hworking.token⟩
  · have hsame : next = .answered value .credentialRevoked := congrArg Transaction.stage (some.inj htx)
    cases hunanswered _ _ hsame
  · have hsame : next = .answered value (.minted token expiresAt rotated) := congrArg Transaction.stage (some.inj htx)
    cases hunanswered _ _ hsame

theorem Unspent.advance (h : s.Unspent) {stage next : Stage} (hlock : s.lock = some ⟨id, stage⟩)
    (hstage : stage.stored = some stored) (hnext : next.stored = some stored) (hstageNone : stage.replacement = none)
    (hnextNone : next.replacement = none) : Unspent { s with lock := some ⟨id, next⟩ } := by
  refine ⟨fun tx value token htx hvalue _ htoken => ?_, fun tx token htx hrepl => ?_,
    fun row value token hrow hcreds htoken hspent => ?_⟩
  · cases htx
    cases hnext.symm.trans hvalue
    exact h.working ⟨id, stage⟩ stored token hlock hstage hstageNone htoken
  · cases htx
    cases hnextNone.symm.trans hrepl
  · obtain ⟨tx, htx, _, hrepl⟩ := h.stored row value token hrow hcreds htoken hspent
    cases hlock.symm.trans htx
    exact absurd hstageNone hrepl

/-- Where a call reads the row again, and decides to spend, the row is connected and holds what is
spent, with a refresh token. -/
theorem reread_eq_spend {rejected : Option Token} (h : reread row readable now rejected = .spend stored) :
    ∃ r token, row = some r ∧ r.connected = true ∧ r.credentials = some stored ∧
      stored.credential.refreshToken = some token := by
  unfold reread at h
  split at h
  · cases h
  · next found reauthRequired hfound =>
    split at h
    · cases h
    split at h
    · cases h
    split at h
    · cases h
    split at h
    · cases h
    next hsome =>
    obtain rfl : found = stored := Decision.spend.inj h
    obtain ⟨r, rfl, hrow⟩ := bind_eq_some_iff.mp hfound
    obtain ⟨credentials, hcreds, hlink⟩ := bind_eq_some_iff.mp hrow
    split at hlink
    · next hyes =>
      obtain ⟨rfl, rfl⟩ := Prod.mk.inj (some.inj hlink)
      cases htoken : credentials.credential.refreshToken with
      | none =>
        rw [htoken] at hsome
        exact absurd rfl hsome
      | some token => exact ⟨r, token, rfl, hyes, hcreds, rfl⟩
    · cases hlink

/-- Where a call reads the row again and returns a token, the row is connected and the token is
its. -/
theorem reread_eq_token {rejected : Option Token}
    (h : reread row readable now rejected = .finish (.token token expiresAt)) :
    ∃ r stored, row = some r ∧ r.connected = true ∧ r.credentials = some stored ∧
      stored.credential.accessToken = some token := by
  unfold reread at h
  split at h
  · cases h
  · next found reauthRequired hfound =>
    split at h
    · cases h
    split at h
    · next accessToken expires husable =>
      cases h
      obtain ⟨r, rfl, hrow⟩ := bind_eq_some_iff.mp hfound
      obtain ⟨credentials, hcreds, hlink⟩ := bind_eq_some_iff.mp hrow
      obtain ⟨access, haccess, hvalid⟩ := bind_eq_some_iff.mp husable
      split at hlink
      · next hyes =>
        obtain ⟨rfl, rfl⟩ := Prod.mk.inj (some.inj hlink)
        refine ⟨r, credentials, rfl, hyes, hcreds, ?_⟩
        split at hvalid
        · cases hvalid
        split at hvalid
        · cases hvalid
        obtain ⟨rfl, _⟩ := Prod.mk.inj (some.inj hvalid)
        exact haccess
      · cases hlink
    · split at h
      · cases h
      split at h
      · cases h
      cases h

theorem rereadRow_cases (h : s.rereadRow readable now = some s') :
    ∃ id call, s.lock = some ⟨id, .locked⟩ ∧ s.calls id = some call ∧ call.request = .running ∧
      ((∃ outcome, reread s.row readable now call.rejected = .finish outcome ∧
        s' = { s.endCall id { call with reread := some s.row } (.returned outcome) with lock := none }) ∨
      ∃ stored, reread s.row readable now call.rejected = .spend stored ∧
        s' = { s.setCall id { call with reread := some s.row } with
          lock := some ⟨id, .resolving stored⟩ }) := by
  unfold rereadRow at h
  split at h
  · next id hlock =>
    split at h
    · next call hcall =>
      split at h
      · next hruns =>
        refine ⟨id, call, hlock, hcall, hruns, ?_⟩
        dsimp only at h
        split at h
        · next outcome hdecision => exact .inl ⟨outcome, hdecision, (some.inj h).symm⟩
        · next stored hdecision => exact .inr ⟨stored, hdecision, (some.inj h).symm⟩
      · cases h
    · cases h
  · cases h

theorem Inv.rereadRow (h : s.Inv rotates) (hstep : s.rereadRow readable now = some s') : s'.Inv rotates := by
  obtain ⟨id, call, _, hcall, hruns, ⟨outcome, hdecision, rfl⟩ | ⟨stored, hdecision, rfl⟩⟩ := rereadRow_cases hstep
  · refine ⟨⟨h.kept.chained, h.kept.newest, h.kept.flagged, ?_⟩, h.issued, h.never, h.stored, nofun, nofun,
      nofun, nofun⟩
    intro k other token expiresAt hother hreq
    obtain ⟨rfl, hnow⟩ | ⟨-, hold⟩ := update_cases hother
    · cases hnow
      obtain rfl : outcome = .token token expiresAt := Request.returned.inj hreq
      obtain ⟨r, stored, hrow, hlink, hcreds, haccess⟩ := reread_eq_token hdecision
      exact ⟨r, stored, congrArg some hrow, hlink, hcreds, .inl haccess⟩
    · exact h.kept.connected k other token expiresAt hold hreq
  · obtain ⟨r, token, hrow, hlink, hcreds, htoken⟩ := reread_eq_spend hdecision
    refine ⟨⟨h.kept.chained, h.kept.newest, h.kept.flagged, ?_⟩, h.issued, h.never, h.stored,
      fun tx htx => ?_, fun tx value htx hvalue => ?_, nofun, nofun⟩
    · intro k other token expiresAt hother hreq
      obtain ⟨-, hother⟩ | ⟨-, hother⟩ := update_cases hother
      · cases hother
        cases hruns.symm.trans hreq
      · exact h.kept.connected k other token expiresAt hother hreq
    · cases htx
      exact ⟨_, update_self _ _ _⟩
    · cases htx
      cases hvalue
      refine ⟨⟨_, r, update_self _ _ _, congrArg some hrow, hlink, hcreds⟩, token,
        h.stored r stored token hrow hcreds htoken, htoken, fun _ row value hnow hheld => ?_⟩
      cases hrow.symm.trans hnow
      exact .inl (some.inj (hheld.symm.trans hcreds))

/-- Where the transaction with the lock is about to replace nothing, no token that the provider has
replaced is stored. -/
theorem Unspent.not_rotated (h : s.Unspent) (hlock : ∀ tx, s.lock = some tx → tx.stage.replacement = none) {row : Row}
    {value : Stored} (hrow : s.row = some row) (hcreds : row.credentials = some value)
    (htoken : value.credential.refreshToken = some token) : token ∉ s.rotated := by
  intro hspent
  obtain ⟨tx, htx, _, hrepl⟩ := h.stored row value token hrow hcreds htoken hspent
  exact hrepl (hlock tx htx)

theorem Unspent.rereadRow (h : s.Unspent) (hstep : s.rereadRow readable now = some s') : s'.Unspent := by
  obtain ⟨id, call, hlock, _, _, hcases⟩ := rereadRow_cases hstep
  have hnone (tx : Transaction) (htx : s.lock = some tx) : tx.stage.replacement = none := by
    cases hlock.symm.trans htx
    rfl
  rcases hcases with ⟨outcome, hdecision, rfl⟩ | ⟨stored, hdecision, rfl⟩
  · exact ⟨nofun, nofun,
      fun row value token hrow hcreds htoken hspent =>
        absurd hspent (h.not_rotated hnone hrow hcreds htoken)⟩
  · obtain ⟨r, _, hrow, _, hcreds, _⟩ := reread_eq_spend hdecision
    refine ⟨fun tx value token htx hvalue _ htoken => ?_, fun tx token htx hrepl => ?_,
      fun row value token hrow hcreds htoken hspent =>
        absurd hspent (h.not_rotated hnone hrow hcreds htoken)⟩
    · cases htx
      cases hvalue
      exact h.not_rotated hnone hrow hcreds htoken
    · cases htx
      cases hrepl

/-- What the provider's answer leaves behind: a token minted, the refresh token replaced with a
token minted, a refusal, or nothing. -/
theorem provide_cases {answer : Answer} (h : s.provide rotates stored answer = some s') :
    (∃ token expiresAt rotated, answer = .minted token expiresAt rotated ∧
      (rotated = none ∨ rotated = stored.credential.refreshToken) ∧
      s' = { s with minted := (stored, token) :: s.minted }) ∨
    (∃ token expiresAt next, answer = .minted token expiresAt (some next) ∧
      some next ≠ stored.credential.refreshToken ∧ rotates = true ∧ next ∉ s.issued ∧
      s' = { s with
        minted := (stored, token) :: s.minted
        issued := next :: s.issued
        rotated := stored.credential.refreshToken.toList ++ s.rotated }) ∨
    (answer = .credentialRevoked ∧ s' = { s with refused := stored :: s.refused }) ∨ (answer = .failed ∧ s' = s) := by
  cases answer with
  | minted token expiresAt rotated =>
    cases rotated with
    | none => exact .inl ⟨token, expiresAt, none, rfl, .inl rfl, (some.inj h).symm⟩
    | some next =>
      unfold provide at h
      dsimp only at h
      split at h
      · next hsame => exact .inl ⟨token, expiresAt, _, rfl, .inr hsame, (some.inj h).symm⟩
      · next hother =>
        split at h
        · next hnew =>
          exact .inr (.inl ⟨token, expiresAt, next, rfl, hother, hnew.1, hnew.2, (some.inj h).symm⟩)
        · cases h
  | credentialRevoked => exact .inr (.inr (.inl ⟨rfl, (some.inj h).symm⟩))
  | failed => exact .inr (.inr (.inr ⟨rfl, (some.inj h).symm⟩))

theorem Inv.answered (h : s.Inv rotates) {answer : Answer} {issued rotated : List Token} {refused : List Stored}
    {minted : List (Stored × Token)} (hlock : s.lock = some ⟨id, .asked stored⟩) (hissued : s.issued ⊆ issued)
    (hrotated : ∀ token ∈ rotated, token ∈ issued) (hnever : rotates = false → rotated = [])
    (hrefused : s.refused ⊆ refused) (hminted : s.minted ⊆ minted)
    (hrevoked : answer = .credentialRevoked → stored ∈ refused)
    (hanswer : ∀ token expiresAt next, answer = .minted token expiresAt next → (stored, token) ∈ minted ∧ ∀ repl, next = some repl → repl ∈ issued) :
    Inv rotates { s with
      lock := some ⟨id, .answered stored answer⟩
      issued := issued
      rotated := rotated
      refused := refused
      minted := minted } := by
  have hstage {k : ℕ} {value : Stored} {other : Answer}
      (htx : some (Transaction.mk id (.answered stored answer)) = some ⟨k, .answered value other⟩) :
      stored = value ∧ answer = other :=
    Stage.answered.inj (congrArg Transaction.stage (some.inj htx))
  refine ⟨⟨h.kept.chained, h.kept.newest, fun row hrow hflag => ?_,
    fun k call token expiresAt hcall hreq => ?_⟩, hrotated, hnever,
    fun row value token hrow hcreds htoken => hissued (h.stored row value token hrow hcreds htoken),
    fun tx htx => ?_, fun tx value htx hvalue => ?_, fun k value htx => ?_,
    fun k value token expiresAt next htx => ?_⟩
  · obtain ⟨value, hvalue, hcreds⟩ := h.kept.flagged row hrow hflag
    exact ⟨value, hrefused hvalue, hcreds⟩
  · obtain ⟨row, value, hread, hlink, hcreds, htoken⟩ := h.kept.connected k call token expiresAt hcall hreq
    exact ⟨row, value, hread, hlink, hcreds, htoken.imp_right (hminted ·)⟩
  · cases htx
    exact h.holder ⟨id, .asked stored⟩ hlock
  · cases htx
    cases hvalue
    obtain ⟨hread, token, htoken, hrest⟩ := h.working ⟨id, .asked stored⟩ stored hlock rfl
    exact ⟨hread, token, hissued htoken, hrest⟩
  · obtain ⟨rfl, hsame⟩ := hstage htx
    exact hrevoked hsame
  · obtain ⟨rfl, hsame⟩ := hstage htx
    exact hanswer token expiresAt next hsame

theorem answer_cases {answer : Answer} (h : s.answer rotates answer = some s') :
    (∃ id stored, s.lock = some ⟨id, .spawned stored⟩ ∧ answer = .failed ∧
      s' = { s with lock := some ⟨id, .answered stored .failed⟩ }) ∨
    ∃ id stored provided, s.lock = some ⟨id, .asked stored⟩ ∧ s.provide rotates stored answer = some provided ∧
      s' = { provided with lock := some ⟨id, .answered stored answer⟩ } := by
  unfold State.answer at h
  split at h
  · next id stored hlock =>
    obtain ⟨provided, hprovide, rfl⟩ := map_eq_some_iff.mp h
    exact .inr ⟨id, stored, provided, hlock, hprovide, rfl⟩
  · next id stored hlock =>
    split at h
    · next hfailed =>
      subst hfailed
      exact .inl ⟨id, stored, hlock, rfl, (some.inj h).symm⟩
    · cases h
  · cases h

theorem Inv.answer (h : s.Inv rotates) {answer : Answer} (hstep : s.answer rotates answer = some s') :
    s'.Inv rotates := by
  rcases answer_cases hstep with ⟨id, stored, hlock, _, rfl⟩ | ⟨id, stored, provided, hlock, hprovide, rfl⟩
  · exact h.advance hlock rfl rfl fun _ _ hsame => (Stage.answered.inj hsame).2.symm
  · obtain ⟨_, old, hold, holdToken, _⟩ := h.working ⟨id, .asked stored⟩ stored hlock rfl
    rcases provide_cases hprovide with ⟨token, expiresAt, next, rfl, hnext, rfl⟩ |
      ⟨token, expiresAt, next, rfl, _, hrotates, _, rfl⟩ | ⟨rfl, rfl⟩ | ⟨rfl, rfl⟩
    · refine h.answered hlock (List.Subset.refl _) h.issued h.never (List.Subset.refl _)
        (subset_cons_self _ _) nofun fun _ _ _ hsame => ?_
      obtain ⟨rfl, _, rfl⟩ := Answer.minted.inj hsame
      refine ⟨mem_cons_self, fun repl hrepl => ?_⟩
      rcases hnext with hnone | hsame
      · cases hnone.symm.trans hrepl
      · cases (hrepl.symm.trans hsame).trans holdToken
        exact hold
    · refine h.answered hlock (subset_cons_self _ _) (fun spent hspent => ?_)
        (fun hfalse => (by cases hrotates.symm.trans hfalse)) (List.Subset.refl _)
        (subset_cons_self _ _) nofun fun _ _ _ hsame => ?_
      · refine mem_cons_of_mem next ?_
        rcases mem_append.mp hspent with hnew | hbefore
        · rw [holdToken] at hnew
          rw [mem_singleton.mp hnew]
          exact hold
        · exact h.issued spent hbefore
      · obtain ⟨rfl, _, rfl⟩ := Answer.minted.inj hsame
        refine ⟨mem_cons_self, fun repl hrepl => ?_⟩
        cases hrepl
        exact mem_cons_self
    · exact h.answered hlock (List.Subset.refl _) h.issued h.never (subset_cons_self _ _)
        (List.Subset.refl _) (fun _ => mem_cons_self) nofun
    · exact h.answered hlock (List.Subset.refl _) h.issued h.never (List.Subset.refl _)
        (List.Subset.refl _) nofun nofun

theorem Unspent.answer (h : s.Unspent) (hinv : s.Inv rotates) {answer : Answer}
    (hstep : s.answer rotates answer = some s') : s'.Unspent := by
  rcases answer_cases hstep with ⟨id, stored, hlock, _, rfl⟩ | ⟨id, stored, provided, hlock, hprovide, rfl⟩
  · exact h.advance hlock rfl rfl rfl rfl
  obtain ⟨_, old, hold, holdToken, hheld⟩ := hinv.working ⟨id, .asked stored⟩ stored hlock rfl
  have hnone (tx : Transaction) (htx : s.lock = some tx) : tx.stage.replacement = none := by
    cases hlock.symm.trans htx
    rfl
  -- an answer without a repl leaves no token replaced that was not before
  have hplain {refused : List Stored} {minted : List (Stored × Token)}
      (hrepl : (Stage.answered stored answer).replacement = none) :
      Unspent { s with
        lock := some ⟨id, .answered stored answer⟩, refused := refused, minted := minted } := by
    refine ⟨fun tx value token htx hvalue _ htoken => ?_, fun tx token htx hsome => ?_,
      fun row value token hrow hcreds htoken hspent =>
        absurd hspent (h.not_rotated hnone hrow hcreds htoken)⟩
    · cases htx
      cases hvalue
      exact h.working ⟨id, .asked stored⟩ stored token hlock rfl rfl htoken
    · cases htx
      cases hrepl.symm.trans hsome
  rcases provide_cases hprovide with ⟨token, expiresAt, next, rfl, hnext, rfl⟩ |
    ⟨token, expiresAt, next, rfl, hother, hrotates, hnew, rfl⟩ | ⟨rfl, rfl⟩ | ⟨rfl, rfl⟩
  · refine hplain ?_
    rcases hnext with rfl | hsame
    · rfl
    · cases next with
      | none => rfl
      | some => exact if_pos hsame
  · have hrepl : (Stage.answered stored (.minted token expiresAt (some next))).replacement =
        some next := if_neg hother
    refine ⟨fun tx value spent htx _ hreplaces => ?_, fun tx repl htx hreplaces => ?_,
      fun row value spent hrow hcreds htoken hspent => ?_⟩
    · cases htx
      cases hrepl.symm.trans hreplaces
    · cases htx
      cases hrepl.symm.trans hreplaces
      intro hspent
      rcases mem_append.mp hspent with hfirst | hbefore
      · rw [holdToken] at hfirst
        exact hother ((congrArg some (mem_singleton.mp hfirst)).trans holdToken.symm)
      · exact hnew (hinv.issued next hbefore)
    · rcases mem_append.mp hspent with hfirst | hbefore
      · rw [holdToken] at hfirst
        obtain rfl := mem_singleton.mp hfirst
        have hsame := (hheld hrotates row value hrow hcreds).resolve_right fun hne => hne htoken
        subst hsame
        exact ⟨_, rfl, rfl, by rw [hrepl]; exact some_ne_none next⟩
      · exact absurd hbefore (h.not_rotated hnone hrow hcreds htoken)
  · exact hplain rfl
  · exact hplain rfl

/-- What the end of a task makes of the row: nothing; or, of a row that still holds what the task
was given, one with the credential it obtained, or one that is flagged. -/
theorem settle_row (row : Option Row) (stored : Stored) (answer : Answer) (nonce : Option ℕ) :
    ((settle row stored answer nonce).1 = row ∧ ∀ r n token expiresAt rotated, row = some r →
        nonce = some n → answer = .minted token expiresAt rotated → r.credentials ≠ some stored) ∨
    ∃ r, row = some r ∧ r.credentials = some stored ∧
      ((∃ n token expiresAt rotated, answer = .minted token expiresAt rotated ∧
        (settle row stored answer nonce).1 = some { r with
          credentials := some ⟨n, stored.credential.next token expiresAt rotated⟩
          reauthRequired := false }) ∨
      (answer = .credentialRevoked ∧
        (settle row stored answer nonce).1 = some { r with reauthRequired := true })) := by
  cases row with
  | none =>
    refine .inl ⟨?_, nofun⟩
    cases answer with
    | minted =>
      cases nonce with
      | none => rfl
      | some => rfl
    | credentialRevoked => rfl
    | failed => rfl
  | some r =>
    cases answer with
    | minted token expiresAt rotated =>
      cases nonce with
      | none => exact .inl ⟨rfl, nofun⟩
      | some n =>
        by_cases hheld : r.credentials = some stored
        · refine .inr ⟨r, rfl, hheld, .inl ⟨n, token, expiresAt, rotated, rfl, ?_⟩⟩
          exact congrArg some (if_pos hheld)
        · refine .inl ⟨congrArg some (if_neg hheld), fun r' _ _ _ _ hr _ _ => ?_⟩
          cases hr
          exact hheld
    | credentialRevoked =>
      by_cases hheld : r.credentials = some stored
      · refine .inr ⟨r, rfl, hheld, .inr ⟨rfl, ?_⟩⟩
        change (markAppConnectionReauthRequired (some r) stored).1 = _
        simp only [markAppConnectionReauthRequired, if_pos hheld]
      · refine .inl ⟨?_, nofun⟩
        change (markAppConnectionReauthRequired (some r) stored).1 = _
        simp only [markAppConnectionReauthRequired, if_neg hheld]
    | failed => exact .inl ⟨rfl, nofun⟩

theorem settle_token {answer : Answer} (h : (settle row stored answer nonce).2 = .token token expiresAt) :
    ∃ expires rotated, answer = .minted token expires rotated := by
  cases answer with
  | minted minted expires rotated =>
    obtain ⟨rfl, _⟩ := RefreshOutcome.token.inj h
    exact ⟨expires, rotated, rfl⟩
  | credentialRevoked =>
    change (if (markAppConnectionReauthRequired row stored).2 = true then _ else _) = _ at h
    split at h
    · cases h
    · cases h
  | failed => cases h

/-- What the end of a task leaves behind. -/
structure Commits (s s' : State) (id : ℕ) (stored : Stored) (answer : Answer) (nonce : Option ℕ) :
    Prop where
  row : s'.row = (settle s.row stored answer nonce).1
  lock : s'.lock = none
  issued : s'.issued = s.issued
  rotated : s'.rotated = s.rotated
  refused : s'.refused = s.refused
  minted : s'.minted = s.minted
  writes : s'.writes = if s'.row.bind Row.credentials = s.row.bind Row.credentials then s.writes
    else ((s'.row.bind Row.credentials).map fun value => Write.mk value (some stored)).toList ++ s.writes
  calls : ∀ k call, s'.calls k = some call → s.calls k = some call ∨
    ∃ old, k = id ∧ s.calls id = some old ∧
      call = { old with request := .returned (settle s.row stored answer nonce).2 }

theorem commit_cases {encrypts : Bool} (h : s.commit encrypts = some s') :
    ∃ id stored answer, s.lock = some ⟨id, .answered stored answer⟩ ∧
      Commits s s' id stored answer (if encrypts then some s.writes.length else none) := by
  unfold State.commit at h
  split at h
  · next id stored answer hlock =>
    refine ⟨id, stored, answer, hlock, ?_⟩
    dsimp only at h
    split at h
    · next call hcall =>
      split at h
      · cases h
        refine ⟨rfl, rfl, rfl, rfl, rfl, rfl, rfl, fun k other hother => ?_⟩
        obtain ⟨rfl, hnow⟩ | ⟨-, hold⟩ := update_cases hother
        · exact .inr ⟨call, rfl, hcall, (some.inj hnow).symm⟩
        · exact .inl hold
      · cases h
        exact ⟨rfl, rfl, rfl, rfl, rfl, rfl, rfl, fun _ _ hcall => .inl hcall⟩
    · cases h
      exact ⟨rfl, rfl, rfl, rfl, rfl, rfl, rfl, fun _ _ hcall => .inl hcall⟩
  · cases h

theorem Commits.connected (h : s.Inv rotates) {answer : Answer} (hlock : s.lock = some ⟨id, .answered stored answer⟩)
    (hcommits : Commits s s' id stored answer nonce) {k : ℕ} {call : Call} (hcall : s'.calls k = some call)
    (hreq : call.request = .returned (.token token expiresAt)) :
    ∃ row stored, call.reread = some (some row) ∧ row.connected = true ∧ row.credentials = some stored ∧
      (stored.credential.accessToken = some token ∨ (stored, token) ∈ s'.minted) := by
  rw [hcommits.minted]
  rcases hcommits.calls k call hcall with hold | ⟨old, rfl, hold, rfl⟩
  · exact h.kept.connected k call token expiresAt hold hreq
  · obtain ⟨expires, rotated, hanswer⟩ := settle_token (Request.returned.inj hreq)
    rw [hanswer] at hlock
    obtain ⟨call, row, hcall, hreread, hyes, hcreds⟩ := (h.working _ stored hlock rfl).read
    cases hcall.symm.trans hold
    exact ⟨row, stored, hreread, hyes, hcreds, .inr (h.minted k stored token expires rotated hlock).1⟩

theorem Commits.inv (h : s.Inv rotates) {answer : Answer} (hlock : s.lock = some ⟨id, .answered stored answer⟩)
    (hcommits : Commits s s' id stored answer nonce) (hchained : Chained s'.writes)
    (hnewest : ∀ row value, s'.row = some row → row.credentials = some value → s'.writes.head?.map Write.value = some value)
    (hflagged : ∀ row, s'.row = some row → row.reauthRequired = true → ∃ stored ∈ s'.refused, row.credentials = some stored)
    (hstored : ∀ row value token, s'.row = some row → row.credentials = some value → value.credential.refreshToken = some token → token ∈ s'.issued) :
    s'.Inv rotates := by
  have hunlocked {tx : Transaction} (htx : s'.lock = some tx) : False := by
    rw [hcommits.lock] at htx
    cases htx
  have hlink (k : ℕ) (call : Call) (token : Token) (expiresAt : Option ℤ)
      (hcall : s'.calls k = some call) (hreq : call.request = .returned (.token token expiresAt)) :=
    Commits.connected h hlock hcommits hcall hreq
  refine ⟨⟨hchained, hnewest, hflagged, hlink⟩, ?_, ?_, hstored,
    fun _ htx => (hunlocked htx).elim, fun _ _ htx => (hunlocked htx).elim,
    fun _ _ htx => (hunlocked htx).elim, fun _ _ _ _ _ htx => (hunlocked htx).elim⟩
  · rw [hcommits.rotated, hcommits.issued]
    exact h.issued
  · rw [hcommits.rotated]
    exact h.never

theorem Inv.commit (h : s.Inv rotates) {encrypts : Bool} (hstep : s.commit encrypts = some s') :
    s'.Inv rotates := by
  obtain ⟨id, stored, answer, hlock, hcommits⟩ := commit_cases hstep
  have hrest := hcommits.inv h hlock
  obtain ⟨hrow, _, hissued, _, hrefused, _, hwrites, _⟩ := hcommits
  obtain ⟨_, token, htoken, hrefresh, _⟩ := h.working _ stored hlock rfl
  rcases settle_row s.row stored answer (if encrypts then some s.writes.length else none) with
    ⟨hsame, _⟩ | ⟨r, hr, hheld, ⟨n, minted, expiresAt, rotated, rfl, hnew⟩ | ⟨rfl, hmarked⟩⟩
  · rw [hsame] at hrow
    have hkept : s'.writes = s.writes := hwrites.trans (if_pos (congrArg (Option.bind · _) hrow))
    refine hrest ?_ ?_ ?_ ?_
    · rw [hkept]
      exact h.kept.chained
    · rw [hkept, hrow]
      exact h.kept.newest
    · rw [hrefused, hrow]
      exact h.kept.flagged
    · rw [hissued, hrow]
      exact h.stored
  · rw [hnew] at hrow
    rw [hrow, hr] at hwrites
    have hnewest := h.kept.newest r stored hr hheld
    have hissuedNext (next : Token)
        (hnext : (stored.credential.next minted expiresAt rotated).refreshToken = some next) :
        next ∈ s.issued := by
      cases rotated with
      | none =>
        cases hrefresh.symm.trans hnext
        exact htoken
      | some repl =>
        obtain rfl := some.inj hnext
        exact (h.minted id stored minted expiresAt (some repl) hlock).2 repl rfl
    refine hrest ?_ (fun row value hnow hcreds => ?_) (fun row hnow hflag => ?_)
      (fun row value next hnow hcreds hnext => ?_)
    · rw [hwrites]
      split
      · exact h.kept.chained
      · refine ⟨fun basis hbasis => ?_, h.kept.chained⟩
        rw [← some.inj hbasis]
        exact hnewest
    · cases hrow.symm.trans hnow
      rw [hwrites]
      split
      · next hunchanged =>
        rw [hnewest]
        exact (hheld.symm.trans hunchanged.symm).trans hcreds
      · exact hcreds
    · cases hrow.symm.trans hnow
      cases hflag
    · cases hrow.symm.trans hnow
      cases hcreds
      rw [hissued]
      exact hissuedNext next hnext
  · rw [hmarked] at hrow
    have hkept : s'.writes = s.writes := by
      rw [hwrites, hrow, hr]
      exact if_pos rfl
    refine hrest ?_ (fun row value hnow hcreds => ?_) (fun row hnow hflag => ?_)
      (fun row value next hnow hcreds hnext => ?_)
    · rw [hkept]
      exact h.kept.chained
    · cases hrow.symm.trans hnow
      rw [hkept]
      exact h.kept.newest r value hr hcreds
    · cases hrow.symm.trans hnow
      rw [hrefused]
      exact ⟨stored, h.refused id stored hlock, hheld⟩
    · cases hrow.symm.trans hnow
      rw [hissued]
      exact h.stored r value next hr hcreds hnext

theorem Unspent.commit (h : s.Unspent) (hstep : s.commit true = some s') : s'.Unspent := by
  obtain ⟨id, stored, answer, hlock, hcommits⟩ := commit_cases hstep
  obtain ⟨hrow, hnone, _, hrotated, _, _, _, _⟩ := hcommits
  have hunlocked {tx : Transaction} (htx : s'.lock = some tx) : False := by
    rw [hnone] at htx
    cases htx
  refine ⟨fun _ _ _ htx => (hunlocked htx).elim, fun _ _ htx => (hunlocked htx).elim,
    fun row value token hnow hcreds htoken hspent => ?_⟩
  rw [hrotated] at hspent
  refine absurd hspent ?_
  -- a token that the provider has replaced is stored only as what the task is about to replace
  have hreplaced {r : Row} (hr : s.row = some r) (hheld : r.credentials = some value)
      (hspent : token ∈ s.rotated) :
      value = stored ∧ ∃ minted expiresAt rotated, answer = .minted minted expiresAt rotated := by
    obtain ⟨tx, htx, hvalue, hrepl⟩ := h.stored r value token hr hheld htoken hspent
    cases hlock.symm.trans htx
    refine ⟨(some.inj hvalue).symm, ?_⟩
    cases answer with
    | minted minted expiresAt rotated => exact ⟨minted, expiresAt, rotated, rfl⟩
    | _ => exact absurd rfl hrepl
  rcases settle_row s.row stored answer (some s.writes.length) with
    ⟨hsame, hmoved⟩ | ⟨r, hr, hheld, ⟨n, minted, expiresAt, rotated, rfl, hnew⟩ | ⟨rfl, hmarked⟩⟩
  · intro hspent
    have hbefore : s.row = some row := hsame.symm.trans (hrow.symm.trans hnow)
    obtain ⟨rfl, minted, expiresAt, rotated, hanswer⟩ := hreplaced hbefore hcreds hspent
    exact hmoved row _ minted expiresAt rotated hbefore rfl hanswer hcreds
  · cases (hrow.trans hnew).symm.trans hnow
    cases hcreds
    have hworking := h.working ⟨id, _⟩ stored token hlock rfl
    cases rotated with
    | none => exact hworking rfl htoken
    | some next =>
      obtain rfl := some.inj htoken
      by_cases hsame : some next = stored.credential.refreshToken
      · exact hworking (if_pos hsame) hsame.symm
      · exact h.replacing ⟨id, _⟩ next hlock (if_neg hsame)
  · intro hspent
    cases (hrow.trans hmarked).symm.trans hnow
    obtain ⟨_, _, _, _, hanswer⟩ := hreplaced hr hcreds hspent
    cases hanswer

theorem Inv.less (h : s.Inv rotates)
    (hrow : ∀ r, row = some r → ∃ old, s.row = some old ∧ r.credentials = old.credentials ∧ r.reauthRequired = old.reauthRequired) :
    Inv rotates { s with row := row } := by
  refine ⟨⟨h.kept.chained, fun r value hnow hcreds => ?_, fun r hnow hflag => ?_,
    h.kept.connected⟩, h.issued, h.never, fun r value token hnow hcreds htoken => ?_, h.holder,
    fun tx value htx hvalue => ?_, h.refused, h.minted⟩
  · obtain ⟨old, hold, hsame, _⟩ := hrow r hnow
    exact h.kept.newest old value hold (hsame.symm.trans hcreds)
  · obtain ⟨old, hold, hsame, hflagged⟩ := hrow r hnow
    obtain ⟨stored, hstored, hcreds⟩ := h.kept.flagged old hold (hflagged.symm.trans hflag)
    exact ⟨stored, hstored, hsame.trans hcreds⟩
  · obtain ⟨old, hold, hsame, _⟩ := hrow r hnow
    exact h.stored old value token hold (hsame.symm.trans hcreds) htoken
  · obtain ⟨hread, token, htoken, hrefresh, hheld⟩ := h.working tx value htx hvalue
    refine ⟨hread, token, htoken, hrefresh, fun hrotates r other hnow hcreds => ?_⟩
    obtain ⟨old, hold, hsame, _⟩ := hrow r hnow
    exact hheld hrotates old other hold (hsame.symm.trans hcreds)

theorem Unspent.less (h : s.Unspent)
    (hrow : ∀ r, row = some r → ∃ old, s.row = some old ∧ r.credentials = old.credentials ∧ r.reauthRequired = old.reauthRequired) :
    Unspent { s with row := row } := by
  refine ⟨h.working, h.replacing, fun r value token hnow hcreds htoken hspent => ?_⟩
  obtain ⟨old, hold, hsame, _⟩ := hrow r hnow
  exact h.stored old value token hold (hsame.symm.trans hcreds) htoken hspent

theorem row_disconnected (row : Option Row) :
    ∀ r, (row.map fun row : Row => { row with connected := false }) = some r →
      ∃ old, row = some old ∧ r.credentials = old.credentials ∧ r.reauthRequired = old.reauthRequired := by
  intro r hr
  obtain ⟨old, hold, rfl⟩ := map_eq_some_iff.mp hr
  exact ⟨old, hold, rfl, rfl⟩

theorem reconnect_cases (h : s.reconnect rotates creds = some s') :
    (rotates = true → ∀ token, creds.refreshToken = some token → token ∉ s.issued) ∧
      s' = { s with
        row := some ⟨some ⟨s.writes.length, creds⟩, true, false⟩
        issued := creds.refreshToken.toList ++ s.issued
        writes := ⟨⟨s.writes.length, creds⟩, none⟩ :: s.writes } := by
  unfold State.reconnect at h
  split at h
  · cases h
  · split at h
    · cases h
    · next hnew =>
      refine ⟨fun hrotates token htoken hissued => hnew ⟨hrotates, ?_⟩, (some.inj h).symm⟩
      rw [htoken]
      exact contains_iff_mem.mpr hissued

theorem Inv.reconnect (h : s.Inv rotates) (hstep : s.reconnect rotates creds = some s') : s'.Inv rotates := by
  obtain ⟨hnew, rfl⟩ := reconnect_cases hstep
  refine ⟨⟨⟨nofun, h.kept.chained⟩, fun r value hnow hcreds => ?_, fun r hnow hflag => ?_, h.kept.connected⟩,
    fun token htoken => mem_append_right _ (h.issued token htoken), h.never,
    fun r value token hnow hcreds htoken => ?_, h.holder, fun tx value htx hvalue => ?_, h.refused,
    fun id value token expiresAt next htx => ?_⟩
  · cases hnow
    exact hcreds
  · cases hnow
    cases hflag
  · cases hnow
    cases hcreds
    refine mem_append_left _ ?_
    rw [show creds.refreshToken = some token from htoken]
    exact mem_singleton_self token
  · obtain ⟨hread, token, htoken, hrefresh, _⟩ := h.working tx value htx hvalue
    refine ⟨hread, token, mem_append_right _ htoken, hrefresh,
      fun hrotates r other hnow hcreds => .inr fun hsame => ?_⟩
    cases hnow
    cases hcreds
    exact hnew hrotates token hsame htoken
  · obtain ⟨hminted, hnext⟩ := h.minted id value token expiresAt next htx
    exact ⟨hminted, fun repl hsome => mem_append_right _ (hnext repl hsome)⟩

theorem Unspent.reconnect (h : s.Unspent) (hinv : s.Inv rotates) (hstep : s.reconnect rotates creds = some s') :
    s'.Unspent := by
  obtain ⟨hnew, rfl⟩ := reconnect_cases hstep
  refine ⟨h.working, h.replacing, fun r value token hnow hcreds htoken hspent => ?_⟩
  cases hnow
  cases hcreds
  cases rotates with
  | false =>
    rw [hinv.never rfl] at hspent
    cases hspent
  | true => exact absurd (hinv.issued token hspent) (hnew rfl token htoken)

/-- Every event keeps the credentials' books. -/
theorem Inv.step (h : s.Inv rotates) (event : Event) (hstep : s.step rotates event = some s') :
    s'.Inv rotates := by
  cases event with
  | call => exact h.moves (callOf_moves hstep)
  | takeStripe => exact h.moves (takeStripe_moves hstep)
  | giveUp => exact h.moves (giveUp_moves hstep)
  | takeLock => exact h.moves (takeLock_moves hstep)
  | reread => exact h.rereadRow hstep
  | spawn =>
    change s.spawn = some s' at hstep
    unfold State.spawn at hstep
    split at hstep
    · next id stored hlock =>
      cases hstep
      exact h.advance hlock rfl rfl nofun
    · cases hstep
  | ask =>
    change s.ask = some s' at hstep
    unfold State.ask at hstep
    split at hstep
    · next id stored hlock =>
      cases hstep
      exact h.advance hlock rfl rfl nofun
    · cases hstep
  | answer => exact h.answer hstep
  | commit => exact h.commit hstep
  | cancel => exact h.moves (cancel_moves hstep)
  | reconnect => exact h.reconnect hstep
  | disconnect =>
    cases hstep
    exact h.less (row_disconnected s.row)
  | delete =>
    cases hstep
    exact h.less nofun

/-- One step, other than a task that cannot encrypt what it obtained, keeps what holds as long as
credentials can be encrypted. -/
theorem Unspent.step (h : s.Unspent) (hinv : s.Inv rotates) (event : Event)
    (hencrypts : event ≠ .commit false) (hstep : s.step rotates event = some s') : s'.Unspent := by
  cases event with
  | call => exact h.moves (callOf_moves hstep)
  | takeStripe => exact h.moves (takeStripe_moves hstep)
  | giveUp => exact h.moves (giveUp_moves hstep)
  | takeLock => exact h.moves (takeLock_moves hstep)
  | reread => exact h.rereadRow hstep
  | spawn =>
    change s.spawn = some s' at hstep
    unfold State.spawn at hstep
    split at hstep
    · next id stored hlock =>
      cases hstep
      exact h.advance hlock rfl rfl rfl rfl
    · cases hstep
  | ask =>
    change s.ask = some s' at hstep
    unfold State.ask at hstep
    split at hstep
    · next id stored hlock =>
      cases hstep
      exact h.advance hlock rfl rfl rfl rfl
    · cases hstep
  | answer => exact h.answer hinv hstep
  | commit encrypts =>
    cases encrypts with
    | false => exact absurd rfl hencrypts
    | true => exact h.commit hstep
  | cancel => exact h.moves (cancel_moves hstep)
  | reconnect => exact h.reconnect hinv hstep
  | disconnect =>
    cases hstep
    exact h.less (row_disconnected s.row)
  | delete =>
    cases hstep
    exact h.less nofun

/-- New credentials are in order. -/
theorem inv_init (rotates : Bool) (creds : Credential) : Inv rotates (.init creds) := by
  refine ⟨⟨⟨nofun, trivial⟩, fun row value hrow hcreds => ?_, fun row hrow hflag => ?_, nofun⟩, nofun, fun _ => rfl,
    fun row value token hrow hcreds htoken => ?_, nofun, nofun, nofun, nofun⟩
  · cases hrow
    exact hcreds
  · cases hrow
    cases hflag
  · cases hrow
    cases hcreds
    exact mem_toList.mpr htoken

end Spending

end State

end Onecli.Oauth
