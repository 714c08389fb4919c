import Onecli.Agents.Types
import Mathlib.Data.List.Nodup
import Onecli.Foundation.Runs

/-!
# Where a sandbox's control channel is

The writes of `runner-channel-service.ts` over one sandbox row, the start claim of `due-work.ts` that
clears what they recorded, and the copies that make them. A copy creates a container with a bootstrap token
in its environment and records the spawn once. The supervisor in it dials with that token, or with a session
credential that a copy handed to it; the copy stamps the connection with its own clock and claims the channel,
again where no answer came. Claims and releases land in any order, any time after the connection was opened.

Tokens are known by their hashes. A credential is what a copy signs, so it is known by what it was signed over.
-/

namespace Onecli.Runner.Channel

open Onecli.Agents

/-- The columns of a sandbox row that the channel is recorded in, or that fence it. -/
structure Sandbox where
  id : ℕ
  runnerId : ℕ
  status : SandboxStatus
  ownerReplicaId : Option ℕ
  containerRef : Option ℕ
  channelReplicaId : Option ℕ
  channelConnectionId : Option ℕ
  channelTokenHash : Option ℕ
  channelSince : Option ℕ

/-- The door a claim comes by. -/
inductive Door where
  | token (tokenHash : ℕ)
  | session (sandboxId containerRef : ℕ)
  deriving DecidableEq

/-- `RunnerChannelClaimRequest`. -/
structure Claim where
  connectionId : ℕ
  connectedAt : ℕ
  door : Door
  deriving DecidableEq

/-- The start arm of `collectDueWork`. -/
def startClaim (replicaId : Option ℕ) (row : Sandbox) : Sandbox :=
  { row with
    status := .starting
    channelReplicaId := none
    channelConnectionId := none
    channelTokenHash := none
    channelSince := none
    ownerReplicaId := replicaId.or row.ownerReplicaId }

/-- `recordSpawn`; `none` where the start no longer applies. -/
def recordSpawn (runnerId replicaId sandboxId containerRef tokenHash now : ℕ) (row : Sandbox) :
    Option Sandbox :=
  if row.id = sandboxId ∧ row.runnerId = runnerId ∧ row.ownerReplicaId = some replicaId ∧ row.status = .starting then
    some { row with
      containerRef := some containerRef
      channelTokenHash := some tokenHash
      channelReplicaId := none
      channelConnectionId := none
      channelSince := some now }
  else none

/-- `notOlderThanHolder`. -/
def notOlderThanHolder (connectedAt : ℕ) (row : Sandbox) : Bool :=
  row.channelConnectionId.isNone || row.channelSince.any fun since => since ≤ connectedAt

/-- The row that a claim names, where its door is open. -/
def admits (runnerId : ℕ) (claim : Claim) (row : Sandbox) : Bool :=
  match claim.door with
  | .token tokenHash => row.channelTokenHash = some tokenHash ∧ row.runnerId = runnerId
  | .session sandboxId containerRef =>
      row.id = sandboxId ∧ row.runnerId = runnerId ∧ row.containerRef = some containerRef ∧
        row.channelTokenHash = none ∧ notOlderThanHolder claim.connectedAt row

/-- `claimChannel`; `none` where the claim is refused. Both doors leave no token: one has used it up, the other
opens only where there is none. -/
def claimChannel (runnerId replicaId : ℕ) (claim : Claim) (row : Sandbox) : Option Sandbox :=
  if admits runnerId claim row then
    some { row with
      channelTokenHash := none
      channelReplicaId := some replicaId
      channelConnectionId := some claim.connectionId
      channelSince := some claim.connectedAt }
  else none

/-- `releaseChannel`. -/
def releaseChannel (runnerId replicaId connectionId now : ℕ) (row : Sandbox) : Sandbox :=
  if row.channelConnectionId = some connectionId ∧ row.channelReplicaId = some replicaId ∧
      row.runnerId = runnerId then
    { row with channelConnectionId := none, channelSince := some now }
  else row

/-- The clean-up at `registerReplica`: the records of a copy dead for a day name none. -/
def forget (dead : List ℕ) (row : Sandbox) : Sandbox :=
  { row with
    channelReplicaId := row.channelReplicaId.filter (· ∉ dead)
    ownerReplicaId := row.ownerReplicaId.filter (· ∉ dead) }

/-- A container that a copy created, with the hash of the token in its environment. -/
structure Spawn where
  runnerId : ℕ
  replicaId : ℕ
  sandboxId : ℕ
  containerRef : ℕ
  tokenHash : ℕ
  deriving DecidableEq

/-- A socket that a copy accepted: from the supervisor in a container, as the so many-th of all, with the claim
that the copy makes for it. -/
structure Connection where
  runnerId : ℕ
  replicaId : ℕ
  container : ℕ
  opened : ℕ
  claim : Claim
  deriving DecidableEq

/-- A session credential that the supervisor in a container holds, and what it was signed over. -/
structure Session where
  container : ℕ
  sandboxId : ℕ
  containerRef : ℕ
  deriving DecidableEq

/-- The row, the copies' spawns and those not recorded yet, the sockets opened so far with the newest first,
the credentials handed out, and the token hashes used up with the connections that did. -/
structure World where
  row : Sandbox
  spawns : List Spawn
  pending : List Spawn
  connections : List Connection
  sessions : List Session
  admitted : List (ℕ × ℕ)

/-- A sandbox as it is created. -/
def World.created (id runnerId : ℕ) : World where
  row := ⟨id, runnerId, .unprovisioned, none, none, none, none, none, none⟩
  spawns := []
  pending := []
  connections := []
  sessions := []
  admitted := []

/-- What the supervisor of a connection presents is its container's own: the token in its environment, or a
credential handed to it that the copy has verified. -/
def presents (w : World) (connection : Connection) : Bool :=
  match connection.claim.door with
  | .token tokenHash =>
      w.spawns.any fun spawn => spawn.tokenHash = tokenHash ∧ spawn.containerRef = connection.container
  | .session sandboxId containerRef => ⟨connection.container, sandboxId, containerRef⟩ ∈ w.sessions

/-- The token hash that a connection uses up. -/
def usesUp (connection : Connection) : List (ℕ × ℕ) :=
  match connection.claim.door with
  | .token tokenHash => [(tokenHash, connection.claim.connectionId)]
  | .session _ _ => []

/-- The credential handed to the supervisor of a connection, over what the claim was answered with. -/
def handOffSession (connection : Connection) (row : Sandbox) : List Session :=
  row.containerRef.toList.map fun containerRef => ⟨connection.container, row.id, containerRef⟩

/-- One write, or one step of a copy or a supervisor. -/
inductive Event where
  | startClaim (replicaId : Option ℕ)
  | create (spawn : Spawn)
  | recordSpawn (spawn : Spawn) (now : ℕ)
  | connect (connection : Connection)
  | claim (connection : Connection) (answered : Bool)
  | release (connection : Connection) (now : ℕ)
  | lifecycle (status : SandboxStatus) (ownerReplicaId : Option ℕ)
  | register (dead : List ℕ)

/-- One event. A token is minted afresh and a connection has an id of its own; a spawn is recorded once, a claim
is made and made again for a connection that was opened, and an answer may be lost. The other writers of the row
set its status and its owner to anything. Reports of status and the states of processes write `container_ref` too,
with the container that they are from; these two writes are left out. -/
def step (w : World) : Event → Option World
  | .startClaim replicaId => some { w with row := startClaim replicaId w.row }
  | .create spawn =>
      if spawn.tokenHash ∈ w.spawns.map Spawn.tokenHash then none
      else some { w with spawns := spawn :: w.spawns, pending := spawn :: w.pending }
  | .recordSpawn spawn now =>
      if spawn ∈ w.pending then
        some { w with
          pending := w.pending.erase spawn
          row := (recordSpawn spawn.runnerId spawn.replicaId spawn.sandboxId spawn.containerRef spawn.tokenHash
            now w.row).getD w.row }
      else none
  | .connect connection =>
      if connection.opened = w.connections.length ∧ presents w connection ∧
          connection.claim.connectionId ∉ w.connections.map (·.claim.connectionId) then
        some { w with connections := connection :: w.connections }
      else none
  | .claim connection answered =>
      if connection ∈ w.connections then
        match claimChannel connection.runnerId connection.replicaId connection.claim w.row with
        | none => some w
        | some row => some { w with
            row := row
            admitted := usesUp connection ++ w.admitted
            sessions := (if answered then handOffSession connection row else []) ++ w.sessions }
      else none
  | .release connection now =>
      if connection ∈ w.connections then
        some { w with
          row := releaseChannel connection.runnerId connection.replicaId connection.claim.connectionId now w.row }
      else none
  | .lifecycle status ownerReplicaId =>
      some { w with row := { w.row with status := status, ownerReplicaId := ownerReplicaId } }
  | .register dead => some { w with row := forget dead w.row }

/-! ## Who holds the channel

Whatever the order of the writes: the connection that a sandbox row names comes from the container that the
row names, a bootstrap token admits one connection, and a release takes nothing from another connection. The
session door compares the stamps of two copies. It keeps a connection from being displaced by one with an
earlier stamp; which of the two was opened earlier, the stamps tell only as well as the clocks of the copies.
-/

open List Option Prod

/-- The token hash of a spawn is recorded beside its container, and neither waits to be recorded nor is used
up. -/
structure Awaits (w : World) (tokenHash : ℕ) : Prop where
  minted : ∃ spawn ∈ w.spawns, spawn.tokenHash = tokenHash ∧ w.row.containerRef = some spawn.containerRef
  recorded : tokenHash ∉ w.pending.map Spawn.tokenHash
  unused : tokenHash ∉ w.admitted.map fst

/-- A connection of the row's container, whose stamp the row has, where no newer spawn waits. -/
structure HeldBy (w : World) (connection : Connection) : Prop where
  opened : connection ∈ w.connections
  id : w.row.channelConnectionId = some connection.claim.connectionId
  container : w.row.containerRef = some connection.container
  since : w.row.channelSince = some connection.claim.connectedAt
  token : w.row.channelTokenHash = none

/-- What every event keeps. -/
structure Kept (w : World) : Prop where
  holder : ∀ id, w.row.channelConnectionId = some id → ∃ connection, HeldBy w connection
  awaiting : ∀ tokenHash, w.row.channelTokenHash = some tokenHash → Awaits w tokenHash
  minted : (w.spawns.map Spawn.tokenHash).Nodup
  pending : ∀ spawn ∈ w.pending, spawn ∈ w.spawns ∧ spawn.tokenHash ∉ w.admitted.map fst
  pendingOnce : (w.pending.map Spawn.tokenHash).Nodup
  admitted : ∀ tokenHash ∈ w.admitted.map fst, tokenHash ∈ w.spawns.map Spawn.tokenHash
  admittedOnce : (w.admitted.map fst).Nodup
  presents : ∀ connection ∈ w.connections, presents w connection
  sessions : ∀ session ∈ w.sessions, session.containerRef = session.container
  ids : (w.connections.map (·.claim.connectionId)).Nodup

/-- The recorded holder is a connection of the row's container, and no token admitted two connections. -/
structure Owned (w : World) : Prop where
  holder : ∀ id, w.row.channelConnectionId = some id →
    ∃ connection ∈ w.connections, connection.claim.connectionId = id ∧ w.row.containerRef = some connection.container
  token : ∀ tokenHash id id', (tokenHash, id) ∈ w.admitted → (tokenHash, id') ∈ w.admitted → id = id'

/-- One connection holds the channel, and after the event another does. -/
def Displaces (w w' : World) (connection displaced : Connection) : Prop :=
  displaced ∈ w.connections ∧ w.row.channelConnectionId = some displaced.claim.connectionId ∧
    connection ∈ w'.connections ∧ w'.row.channelConnectionId = some connection.claim.connectionId ∧
    connection ≠ displaced

instance (w w' : World) (connection displaced : Connection) :
    Decidable (Displaces w w' connection displaced) := by
  unfold Displaces
  infer_instance

/-- An event displaces no connection by one stamped earlier, and a release by a connection that does not hold
the channel changes nothing. -/
structure Rightful (w : World) (e : Event) (w' : World) : Prop where
  displaced : ∀ connection displaced, Displaces w w' connection displaced →
    displaced.claim.connectedAt ≤ connection.claim.connectedAt
  released : ∀ connection now, e = .release connection now →
    w.row.channelConnectionId ≠ some connection.claim.connectionId → w' = w

/-! ## The writes -/

theorem claimChannel_eq_some_iff (runnerId replicaId : ℕ) (claim : Claim) (row row' : Sandbox) :
    claimChannel runnerId replicaId claim row = some row' ↔
      admits runnerId claim row = true ∧
        row' = { row with
          channelTokenHash := none
          channelReplicaId := some replicaId
          channelConnectionId := some claim.connectionId
          channelSince := some claim.connectedAt } := by
  unfold claimChannel
  split
  · next hadmits => exact ⟨fun h => ⟨hadmits, (some.inj h).symm⟩, fun h => congrArg some h.2.symm⟩
  · next hrefused => exact iff_of_false (fun h => by cases h) fun h => hrefused h.1

/-- A release changes the row of its own connection alone. -/
theorem releaseChannel_cases (runnerId replicaId connectionId now : ℕ) (row : Sandbox) :
    releaseChannel runnerId replicaId connectionId now row = row ∨
      (row.channelConnectionId = some connectionId ∧
        releaseChannel runnerId replicaId connectionId now row =
          { row with channelConnectionId := none, channelSince := some now }) := by
  unfold releaseChannel
  split
  · next hheld => exact .inr ⟨hheld.1, rfl⟩
  · exact .inl rfl

theorem recordSpawn_cases (runnerId replicaId sandboxId containerRef tokenHash now : ℕ) (row : Sandbox) :
    (recordSpawn runnerId replicaId sandboxId containerRef tokenHash now row).getD row = row ∨
      (recordSpawn runnerId replicaId sandboxId containerRef tokenHash now row).getD row =
        { row with
          containerRef := some containerRef
          channelTokenHash := some tokenHash
          channelReplicaId := none
          channelConnectionId := none
          channelSince := some now } := by
  unfold recordSpawn
  split
  · exact .inr rfl
  · exact .inl rfl

variable {row : Sandbox} {w : World} {connection : Connection} {w w' : World} {e : Event}

theorem admits_session {runnerId : ℕ} {claim : Claim} {sandboxId containerRef : ℕ}
    (hdoor : claim.door = .session sandboxId containerRef) (hadmits : admits runnerId claim row = true) :
    row.containerRef = some containerRef ∧ row.channelTokenHash = none ∧
      notOlderThanHolder claim.connectedAt row = true := by
  unfold admits at hadmits
  rw [hdoor] at hadmits
  obtain ⟨-, -, hcont, htoken, holder⟩ := of_decide_eq_true hadmits
  exact ⟨hcont, htoken, holder⟩

/-- A token opens the door of its container. -/
theorem admits_token {runnerId : ℕ} {claim : Claim} {tokenHash : ℕ} (hdoor : claim.door = .token tokenHash)
    (hadmits : admits runnerId claim row = true) : row.channelTokenHash = some tokenHash := by
  unfold admits at hadmits
  rw [hdoor] at hadmits
  exact (of_decide_eq_true hadmits).1

/-! ## What the supervisors present -/

/-- What a connection presents it goes on presenting. -/
theorem presents_mono (w w' : World) (hspawns : w.spawns ⊆ w'.spawns) (hsessions : w.sessions ⊆ w'.sessions)
    (connection : Connection) (h : presents w connection = true) : presents w' connection = true := by
  unfold presents at h ⊢
  split at h
  · obtain ⟨spawn, hspawn, hits⟩ := List.any_eq_true.mp h
    exact List.any_eq_true.mpr ⟨spawn, hspawns hspawn, hits⟩
  · exact decide_eq_true (hsessions (of_decide_eq_true h))

theorem Kept.container_of_admits (hw : Kept w) (hopened : connection ∈ w.connections)
    (hadmits : admits connection.runnerId connection.claim w.row = true) :
    w.row.containerRef = some connection.container := by
  have hpresents := hw.presents connection hopened
  unfold Channel.presents at hpresents
  cases hdoor : connection.claim.door with
  | token tokenHash =>
    rw [hdoor] at hpresents
    obtain ⟨spawn, hspawn, hits⟩ := List.any_eq_true.mp hpresents
    obtain ⟨hhash, hcont⟩ := of_decide_eq_true hits
    obtain ⟨recorded, hrec, hsame, hrow⟩ := (hw.awaiting tokenHash (admits_token hdoor hadmits)).minted
    have heq : recorded = spawn := inj_on_of_nodup_map hw.minted hrec hspawn (hsame.trans hhash.symm)
    rw [hrow, heq, hcont]
  | session =>
    rw [hdoor] at hpresents
    have hsession := hw.sessions _ (of_decide_eq_true hpresents)
    rw [(admits_session hdoor hadmits).1]
    exact congrArg some hsession

/-! ## Every event -/

/-- A row whose holder is known keeps the records. -/
theorem Kept.of_row (hw : Kept w)
    (hholder : ∀ id, row.channelConnectionId = some id → ∃ connection, HeldBy { w with row := row } connection)
    (hawaiting : ∀ tokenHash, row.channelTokenHash = some tokenHash → Awaits { w with row := row } tokenHash) :
    Kept { w with row := row } where
  __ := hw
  holder := hholder
  awaiting := hawaiting
  presents := fun connection hconn =>
    presents_mono w _ (List.Subset.refl _) (List.Subset.refl _) connection (hw.presents connection hconn)

/-- A new sandbox has no channel. -/
theorem kept_created (id runnerId : ℕ) : Kept (World.created id runnerId) where
  holder := fun _ h => by cases h
  awaiting := fun _ h => by cases h
  minted := nodup_nil
  pending := fun _ h => by cases h
  pendingOnce := nodup_nil
  admitted := fun _ h => by cases h
  admittedOnce := nodup_nil
  presents := fun _ h => by cases h
  sessions := fun _ h => by cases h
  ids := nodup_nil

theorem Kept.create (hw : Kept w) {spawn : Spawn} (hfresh : spawn.tokenHash ∉ w.spawns.map Spawn.tokenHash) :
    Kept { w with spawns := spawn :: w.spawns, pending := spawn :: w.pending } where
  __ := hw
  holder := fun id hid =>
    have ⟨connection, held⟩ := hw.holder id hid
    ⟨connection, held.opened, held.id, held.container, held.since, held.token⟩
  awaiting := by
    intro tokenHash hhash
    obtain ⟨⟨recorded, hrec, hsame, hrow⟩, hnotPending, hunused⟩ := hw.awaiting tokenHash hhash
    refine ⟨⟨recorded, mem_cons_of_mem _ hrec, hsame, hrow⟩, ?_, hunused⟩
    rw [map_cons, mem_cons, not_or]
    refine ⟨fun heq => hfresh ?_, hnotPending⟩
    rw [← heq, ← hsame]
    exact List.mem_map_of_mem hrec
  minted := nodup_cons.mpr ⟨hfresh, hw.minted⟩
  pending := by
    intro other hother
    rcases mem_cons.mp hother with rfl | hother
    · exact ⟨mem_cons_self, fun hused => hfresh (hw.admitted _ hused)⟩
    · exact ⟨mem_cons_of_mem _ (hw.pending other hother).1, (hw.pending other hother).2⟩
  pendingOnce := by
    refine nodup_cons.mpr ⟨fun hmem => hfresh ?_, hw.pendingOnce⟩
    obtain ⟨other, hother, hsame⟩ := List.mem_map.mp hmem
    rw [← hsame]
    exact List.mem_map_of_mem (hw.pending other hother).1
  admitted := fun tokenHash hused => mem_cons_of_mem _ (hw.admitted tokenHash hused)
  presents := by
    intro connection hconn
    apply presents_mono w
    · exact subset_cons_self _ _
    · exact List.Subset.refl _
    · exact hw.presents connection hconn

theorem Kept.issued (hw : Kept w) (spawn : Spawn) :
    Kept { w with pending := w.pending.erase spawn } where
  __ := hw
  holder := fun id hid =>
    have ⟨connection, held⟩ := hw.holder id hid
    ⟨connection, held.opened, held.id, held.container, held.since, held.token⟩
  awaiting := fun tokenHash hhash =>
    have hawaits := hw.awaiting tokenHash hhash
    ⟨hawaits.minted, fun hmem => hawaits.recorded (map_subset _ erase_subset hmem), hawaits.unused⟩
  pending := fun other hother => hw.pending other (mem_of_mem_erase hother)
  pendingOnce := hw.pendingOnce.sublist (List.Sublist.map _ erase_sublist)
  presents := fun connection hconn =>
    presents_mono w _ (List.Subset.refl _) (List.Subset.refl _) connection (hw.presents connection hconn)

theorem Kept.record (hw : Kept w) {spawn : Spawn} (hpending : spawn ∈ w.pending) (now : ℕ) :
    Kept { w with
      pending := w.pending.erase spawn
      row := (recordSpawn spawn.runnerId spawn.replicaId spawn.sandboxId spawn.containerRef spawn.tokenHash
        now w.row).getD w.row } := by
  have hissued := hw.issued spawn
  rcases recordSpawn_cases spawn.runnerId spawn.replicaId spawn.sandboxId spawn.containerRef spawn.tokenHash
    now w.row with hsame | hrec
  · rw [hsame]
    exact hissued
  · rw [hrec]
    refine hissued.of_row (fun _ h => by cases h) fun tokenHash hhash => ?_
    cases hhash
    refine ⟨⟨spawn, (hw.pending spawn hpending).1, rfl, rfl⟩, ?_, (hw.pending spawn hpending).2⟩
    -- the token hashes that wait are distinct, so that it left with its spawn
    intro hmem
    obtain ⟨other, hother, hsame⟩ := List.mem_map.mp hmem
    have heq := inj_on_of_nodup_map hw.pendingOnce (mem_of_mem_erase hother) hpending hsame
    rw [heq] at hother
    exact (List.Nodup.of_map _ hw.pendingOnce).not_mem_erase hother

theorem Kept.connect (hw : Kept w) (hpresents : Channel.presents w connection = true)
    (hfresh : connection.claim.connectionId ∉ w.connections.map (·.claim.connectionId)) :
    Kept { w with connections := connection :: w.connections } where
  __ := hw
  holder := fun id hid =>
    have ⟨holder, held⟩ := hw.holder id hid
    ⟨holder, mem_cons_of_mem _ held.opened, held.id, held.container, held.since, held.token⟩
  awaiting := fun tokenHash hhash =>
    have hawaits := hw.awaiting tokenHash hhash
    ⟨hawaits.minted, hawaits.recorded, hawaits.unused⟩
  presents := by
    intro other hother
    refine presents_mono w _ (List.Subset.refl _) (List.Subset.refl _) other ?_
    rcases mem_cons.mp hother with rfl | hother
    · exact hpresents
    · exact hw.presents other hother
  ids := nodup_cons.mpr ⟨hfresh, hw.ids⟩

theorem usesUp_of_admits (hadmits : admits connection.runnerId connection.claim row = true) :
    (∀ tokenHash ∈ (usesUp connection).map fst, row.channelTokenHash = some tokenHash) ∧
      ((usesUp connection).map fst).Nodup := by
  unfold usesUp
  cases hdoor : connection.claim.door with
  | token =>
    refine ⟨fun other hother => ?_, nodup_singleton _⟩
    obtain rfl := mem_singleton.mp hother
    exact admits_token hdoor hadmits
  | session => exact ⟨nofun, nodup_nil⟩

theorem Kept.claim (hw : Kept w) (hopened : connection ∈ w.connections) (answered : Bool)
    (hclaim : claimChannel connection.runnerId connection.replicaId connection.claim w.row = some row) :
    Kept { w with
      row := row
      admitted := usesUp connection ++ w.admitted
      sessions := (if answered then handOffSession connection row else []) ++ w.sessions } := by
  obtain ⟨hadmits, rfl⟩ := (claimChannel_eq_some_iff _ _ _ _ _).mp hclaim
  have hcont := hw.container_of_admits hopened hadmits
  obtain ⟨hwaited, honce⟩ := usesUp_of_admits hadmits
  constructor
  case holder => exact fun _ _ => ⟨connection, hopened, rfl, hcont, rfl, rfl⟩
  case awaiting => exact fun _ h => by cases h
  case minted => exact hw.minted
  case pending =>
    intro spawn hspawn
    refine ⟨(hw.pending spawn hspawn).1, ?_⟩
    rw [map_append, mem_append, not_or]
    refine ⟨fun hused => ?_, (hw.pending spawn hspawn).2⟩
    exact (hw.awaiting _ (hwaited _ hused)).recorded (List.mem_map_of_mem hspawn)
  case pendingOnce => exact hw.pendingOnce
  case admitted =>
    intro tokenHash hused
    rw [map_append, mem_append] at hused
    rcases hused with hused | hused
    · obtain ⟨spawn, hspawn, hsame, -⟩ := (hw.awaiting _ (hwaited _ hused)).minted
      rw [← hsame]
      exact List.mem_map_of_mem hspawn
    · exact hw.admitted tokenHash hused
  case admittedOnce =>
    rw [map_append]
    refine nodup_append.mpr ⟨honce, hw.admittedOnce, fun tokenHash hused other hother heq => ?_⟩
    exact (hw.awaiting _ (hwaited _ hused)).unused (heq ▸ hother)
  case presents =>
    intro other hother
    apply presents_mono w
    · exact List.Subset.refl _
    · exact subset_append_right _ _
    · exact hw.presents other hother
  case sessions =>
    intro session hsession
    rcases mem_append.mp hsession with hhanded | hsession
    · cases answered with
      | false => cases hhanded
      | true =>
        obtain ⟨containerRef, href, rfl⟩ := List.mem_map.mp hhanded
        exact some.inj ((mem_toList.mp href).symm.trans hcont)
    · exact hw.sessions session hsession
  case ids => exact hw.ids

theorem Kept.release (hw : Kept w) (connection : Connection) (now : ℕ) :
    Kept { w with
      row := releaseChannel connection.runnerId connection.replicaId connection.claim.connectionId now w.row } := by
  rcases releaseChannel_cases connection.runnerId connection.replicaId connection.claim.connectionId now w.row with
    hsame | ⟨-, hreleased⟩
  · rw [hsame]
    exact hw
  · rw [hreleased]
    refine hw.of_row (fun _ h => by cases h) fun tokenHash hhash => ?_
    have hawaits := hw.awaiting tokenHash hhash
    exact ⟨hawaits.minted, hawaits.recorded, hawaits.unused⟩

theorem Kept.of_same (hw : Kept w) (hcont : row.containerRef = w.row.containerRef)
    (hid : row.channelConnectionId = w.row.channelConnectionId) (htoken : row.channelTokenHash = w.row.channelTokenHash)
    (hsince : row.channelSince = w.row.channelSince) : Kept { w with row := row } := by
  refine hw.of_row (fun id hheld => ?_) fun tokenHash hhash => ?_
  · obtain ⟨connection, held⟩ := hw.holder id (hid ▸ hheld)
    exact ⟨connection, held.opened, hid.trans held.id, hcont.trans held.container, hsince.trans held.since,
      htoken.trans held.token⟩
  · obtain ⟨⟨spawn, hspawn, hsame, hrow⟩, hnotPending, hunused⟩ := hw.awaiting tokenHash (htoken ▸ hhash)
    exact ⟨⟨spawn, hspawn, hsame, hcont.trans hrow⟩, hnotPending, hunused⟩

/-- Every step keeps the channel's records. -/
theorem Kept.next (hw : Kept w) (hstep : step w e = some w') : Kept w' := by
  cases e with
  | startClaim =>
    cases hstep
    exact hw.of_row (fun _ h => by cases h) fun _ h => by cases h
  | create =>
    obtain ⟨hfresh, hstep⟩ := ite_none_left_eq_some.mp hstep
    cases hstep
    exact hw.create hfresh
  | recordSpawn spawn now =>
    obtain ⟨hpending, hstep⟩ := ite_none_right_eq_some.mp hstep
    cases hstep
    exact hw.record hpending now
  | connect =>
    obtain ⟨⟨-, hpresents, hfresh⟩, hstep⟩ := ite_none_right_eq_some.mp hstep
    cases hstep
    exact hw.connect hpresents hfresh
  | claim connection answered =>
    obtain ⟨hopened, hstep⟩ := ite_none_right_eq_some.mp hstep
    cases hclaim : claimChannel connection.runnerId connection.replicaId connection.claim w.row with
    | none =>
      rw [hclaim] at hstep
      cases hstep
      exact hw
    | some =>
      rw [hclaim] at hstep
      cases hstep
      exact hw.claim hopened answered hclaim
  | release connection now =>
    obtain ⟨-, hstep⟩ := ite_none_right_eq_some.mp hstep
    cases hstep
    exact hw.release connection now
  | _ =>
    cases hstep
    exact hw.of_same rfl rfl rfl rfl

theorem holder_of_step (hstep : step w e = some w') :
    w'.row.channelConnectionId = none ∨ w'.row.channelConnectionId = w.row.channelConnectionId ∨
      ∃ connection ∈ w.connections, w'.connections = w.connections ∧
        w'.row.channelConnectionId = some connection.claim.connectionId ∧
        admits connection.runnerId connection.claim w.row = true := by
  cases e with
  | startClaim =>
    cases hstep
    exact .inl rfl
  | create =>
    obtain ⟨-, hstep⟩ := ite_none_left_eq_some.mp hstep
    cases hstep
    exact .inr (.inl rfl)
  | recordSpawn spawn now =>
    obtain ⟨-, hstep⟩ := ite_none_right_eq_some.mp hstep
    cases hstep
    rcases recordSpawn_cases spawn.runnerId spawn.replicaId spawn.sandboxId spawn.containerRef spawn.tokenHash
      now w.row with hsame | hrec
    · exact Or.inr (Or.inl (congrArg Sandbox.channelConnectionId hsame))
    · exact Or.inl (congrArg Sandbox.channelConnectionId hrec)
  | connect =>
    obtain ⟨-, hstep⟩ := ite_none_right_eq_some.mp hstep
    cases hstep
    exact .inr (.inl rfl)
  | claim connection =>
    obtain ⟨hopened, hstep⟩ := ite_none_right_eq_some.mp hstep
    cases hclaim : claimChannel connection.runnerId connection.replicaId connection.claim w.row with
    | none =>
      rw [hclaim] at hstep
      cases hstep
      exact .inr (.inl rfl)
    | some =>
      rw [hclaim] at hstep
      cases hstep
      obtain ⟨hadmits, rfl⟩ := (claimChannel_eq_some_iff _ _ _ _ _).mp hclaim
      exact .inr (.inr ⟨connection, hopened, rfl, rfl, hadmits⟩)
  | release connection now =>
    obtain ⟨-, hstep⟩ := ite_none_right_eq_some.mp hstep
    cases hstep
    rcases releaseChannel_cases connection.runnerId connection.replicaId connection.claim.connectionId now
      w.row with hsame | ⟨-, hreleased⟩
    · exact Or.inr (Or.inl (congrArg Sandbox.channelConnectionId hsame))
    · exact Or.inl (congrArg Sandbox.channelConnectionId hreleased)
  | _ =>
    cases hstep
    exact .inr (.inl rfl)

theorem Kept.eq_of_id (hw : Kept w) {connection other : Connection} (hconn : connection ∈ w.connections)
    (hother : other ∈ w.connections) (hid : connection.claim.connectionId = other.claim.connectionId) :
    connection = other :=
  inj_on_of_nodup_map hw.ids hconn hother hid

theorem connections_of_step (hstep : step w e = some w') : w.connections ⊆ w'.connections := by
  cases e with
  | create => exact some.inj (ite_none_left_eq_some.mp hstep).2 ▸ List.Subset.refl _
  | recordSpawn | release => exact some.inj (ite_none_right_eq_some.mp hstep).2 ▸ List.Subset.refl _
  | connect => exact some.inj (ite_none_right_eq_some.mp hstep).2 ▸ subset_cons_self _ _
  | claim =>
    obtain ⟨-, hstep⟩ := ite_none_right_eq_some.mp hstep
    split at hstep <;> exact some.inj hstep ▸ List.Subset.refl _
  | _ => exact some.inj hstep ▸ List.Subset.refl _

theorem Kept.since_le (hw : Kept w) {connection displaced : Connection}
    (hadmits : admits connection.runnerId connection.claim w.row = true) (hdisplaced : displaced ∈ w.connections)
    (hheld : w.row.channelConnectionId = some displaced.claim.connectionId) :
    displaced.claim.connectedAt ≤ connection.claim.connectedAt := by
  obtain ⟨holder, held⟩ := hw.holder _ hheld
  have hholder : holder = displaced := hw.eq_of_id held.opened hdisplaced (some.inj (held.id.symm.trans hheld))
  subst hholder
  cases hdoor : connection.claim.door with
  | token => cases held.token.symm.trans (admits_token hdoor hadmits)
  | session =>
    have holder := (admits_session hdoor hadmits).2.2
    unfold notOlderThanHolder at holder
    rw [hheld, held.since] at holder
    exact of_decide_eq_true holder

/-- Every step leaves the channel with its rightful holder. -/
theorem Kept.rightful (hw : Kept w) (hstep : step w e = some w') :
    Rightful w e w' where
  displaced := by
    rintro connection displaced ⟨hdisplaced, hheld, hconn, hholds, hne⟩
    rcases holder_of_step hstep with hnone | hsame | ⟨claiming, hclaiming, hconnections, hid, hadmits⟩
    · cases hnone.symm.trans hholds
    · have hid := some.inj (hholds.symm.trans (hsame.trans hheld))
      exact absurd ((hw.next hstep).eq_of_id hconn (connections_of_step hstep hdisplaced) hid) hne
    · have hconnection' : connection ∈ w.connections := hconnections ▸ hconn
      have heq : connection = claiming := hw.eq_of_id hconnection' hclaiming (some.inj (hholds.symm.trans hid))
      rw [heq]
      exact hw.since_le hadmits hdisplaced hheld
  released := by
    rintro connection now rfl hother
    obtain ⟨-, hstep⟩ := ite_none_right_eq_some.mp hstep
    cases hstep
    rcases releaseChannel_cases connection.runnerId connection.replicaId connection.claim.connectionId now
      w.row with hsame | ⟨hheld, -⟩
    · rw [hsame]
    · exact absurd hheld hother

/-- The holder of a kept record is the row's own. -/
theorem Kept.owned (hw : Kept w) : Owned w where
  holder := by
    intro id hid
    obtain ⟨connection, held⟩ := hw.holder id hid
    exact ⟨connection, held.opened, some.inj (held.id.symm.trans hid), held.container⟩
  token := by
    intro tokenHash id id' hid hid'
    have heq := inj_on_of_nodup_map hw.admittedOnce hid hid' rfl
    exact congrArg snd heq

/-- In every order of spawns, claims, releases and restarts, the channel is owned throughout and every event
is rightful. -/
theorem run_owned (id runnerId : ℕ) (es : List Event) :
    Runs.Throughout step Owned (World.created id runnerId) es ∧
      Runs.Each step Rightful (World.created id runnerId) es := by
  have hmeets := Runs.meets_true step (.created id runnerId) es
  constructor
  · have hkept := Runs.throughout_of_meets step (I := Kept) (fun w e w' hw _ hstep => hw.next hstep)
      (kept_created id runnerId) hmeets
    exact fun front back w hsplit hfront => (hkept front back w hsplit hfront).owned
  · exact Runs.each_of_meets step (I := Kept) (fun w e w' hw _ hstep => ⟨hw.next hstep, hw.rightful hstep⟩)
      (kept_created id runnerId) hmeets

/-- The container that a copy starts, and the connection by its token. -/
def firstBoot : Spawn × Connection := (⟨1, 1, 7, 100, 55⟩, ⟨1, 1, 100, 0, ⟨0, 5, .token 55⟩⟩)

/-- A socket on the copy 1, whose clock is ahead, and the next one on the copy 2. -/
def twoClocks : Connection × Connection :=
  (⟨1, 1, 100, 1, ⟨1, 15, .session 7 100⟩⟩, ⟨1, 2, 100, 2, ⟨2, 12, .session 7 100⟩⟩)

/-- The boot, a reconnect to the copy 1 whose claim is not answered, and one to the copy 2 that takes the
channel. -/
def reconnects : List Event :=
  [.startClaim (some 1), .create firstBoot.1, .recordSpawn firstBoot.1 3, .connect firstBoot.2,
    .claim firstBoot.2 true, .release firstBoot.2 8, .connect twoClocks.1, .connect twoClocks.2,
    .claim twoClocks.2 true]

/-- Where the clocks of two copies differ, the claim of a connection that was opened earlier is made again late
and displaces one that was opened later. -/
theorem displaced_by_opened_earlier :
    ∃ w w', Runs.run step (World.created 7 1) reconnects = some w ∧
      step w (.claim twoClocks.1 true) = some w' ∧ Displaces w w' twoClocks.1 twoClocks.2 ∧
      twoClocks.1.opened < twoClocks.2.opened := by
  refine ⟨_, _, rfl, rfl, ?_, ?_⟩ <;> decide

end Onecli.Runner.Channel
