import Onecli.Foundation.Runs
import Onecli.Foundation.Table
import Onecli.Gateway.Text

/-!
# Waking the polls for new approvals

The new-approval notifications of `InMemoryApprovalStore` in `approval/src/lib.rs`: the
subscriptions, `store`, the removal of approvals, and the cleanup task with its pruning of the
channels. A broadcast receiver is modelled by the number of messages it has not read; a wait is
over as soon as there is one (a receiver that lags gets an error instead, which ends the wait
the same) or as the sender is dropped. Listing the approvals changes nothing and is left out.
-/

namespace Onecli.Approval.Wakeup

open Gateway (Str)
open Option Bool Function Runs Nat

/-- What the notifications read of a `PendingApproval`. -/
structure PendingApproval where
  id : Str
  organizationId : Str
  workspaceId : Str
  expiresAt : ℕ

/-- What a poll subscribes to. -/
inductive Scope where
  | workspace (orgId workspaceId : Str)
  | org (orgId : Str)
  deriving DecidableEq

/-- The notify key: `{org}:{workspace}`, or the bare organization. -/
def Scope.key : Scope → Str
  | .workspace orgId workspaceId => orgId ++ ':' :: workspaceId
  | .org orgId => orgId

/-- A `NewApprovalReceiver` and its wait. -/
inductive Stage where
  | subscribed
  | waiting
  | ended (woken : Bool)
  deriving DecidableEq

/-- A subscription. Whether an approval in its scope was `stored` is only recorded, up to the
end of the wait. -/
structure Subscription where
  scope : Scope
  channel : ℕ
  unread : ℕ
  stage : Stage
  stored : Bool

/-- The subscription is not over. -/
def Subscription.Open (sub : Subscription) : Prop := ∀ woken, sub.stage ≠ .ended woken

instance (sub : Subscription) : Decidable sub.Open :=
  decidable_of_iff (sub.stage = .subscribed ∨ sub.stage = .waiting) <| by
    unfold Subscription.Open
    cases sub.stage <;> simp

/-- Where a call of `store` stands. -/
inductive StoreCall where
  | inserted (approval : PendingApproval)
  | workspaceNotified (approval : PendingApproval)

/-- Where the cleanup task stands: the expired approvals it still has to remove, or the
pruning of the channels. -/
inductive Cleanup where
  | idle
  | evicting (ids : List Str)
  | pruning
  deriving DecidableEq

/-- The scope that a call of `store` notifies next. -/
def StoreCall.scope : StoreCall → Scope
  | .inserted approval => .workspace approval.organizationId approval.workspaceId
  | .workspaceNotified approval => .org approval.organizationId

/-- What is left of a call of `store` after its next notification. -/
def StoreCall.next : StoreCall → Option StoreCall
  | .inserted approval => some (.workspaceNotified approval)
  | .workspaceNotified _ => none

/-- The channels and their subscriptions. -/
structure Board where
  /-- The channel of each notify key. -/
  newNotify : Str → Option ℕ
  /-- The number of channels made so far. -/
  channels : ℕ
  /-- The sender of the channel is dropped. -/
  closed : ℕ → Bool
  subs : ℕ → Option Subscription

/-- The store and its users. -/
structure State where
  board : Board
  pending : Table Str PendingApproval
  stores : ℕ → Option StoreCall
  cleanup : Cleanup

/-- `InMemoryApprovalStore::new`. -/
def State.init : State := ⟨⟨fun _ => none, 0, fun _ => false, fun _ => none⟩, .empty, fun _ => none, .idle⟩

/-- A step of one of the parties. -/
inductive Event where
  /-- `subscribe_new`, `subscribe_new_for_org`. -/
  | subscribe (i : ℕ) (scope : Scope)
  /-- `wait` is called. -/
  | wait (i : ℕ)
  /-- The wait is polled and `recv` answers. -/
  | wake (i : ℕ)
  /-- The wait is polled past its deadline and `recv` does not answer. -/
  | timeout (i : ℕ)
  /-- `store` inserts the approval. -/
  | insert (j : ℕ) (approval : PendingApproval)
  /-- `store` notifies the polls of the workspace, then those of the organization. -/
  | notify (j : ℕ)
  /-- The approval leaves `pending`: decided, expired, or its request is gone. -/
  | remove (id : Str)
  /-- `cleanup_expired` looks for expired approvals. -/
  | scan (now : ℕ)
  /-- `cleanup_expired` removes the next one. -/
  | evict
  /-- `retain` judges a notify key. -/
  | prune (key : Str)
  /-- `retain` is done. -/
  | rest

namespace Board

/-- A receiver gets a message of its channel. -/
def deliver (channel : Option ℕ) (sub : Subscription) : Subscription :=
  if channel = some sub.channel then { sub with unread := sub.unread + 1 } else sub

/-- An approval counts as stored for the subscriptions to its scope that are not over. -/
def record (scope : Scope) (sub : Subscription) : Subscription :=
  if sub.scope = scope ∧ sub.Open then { sub with stored := true } else sub

/-- `sender.send` for the key of a scope, if the key has a channel. -/
def send (b : Board) (scope : Scope) : Board :=
  { b with subs := fun i => (b.subs i).map fun sub =>
      record scope (deliver (b.newNotify scope.key) sub) }

/-- The wait of a subscription has what it waits for. -/
def ready (b : Board) (sub : Subscription) : Bool := decide (0 < sub.unread) || b.closed sub.channel

/-- The channel of a key, made if it is not there. -/
def entry (b : Board) (key : Str) : Board × ℕ :=
  match b.newNotify key with
  | some channel => (b, channel)
  | none => ({ b with
      newNotify := update b.newNotify key (some b.channels)
      channels := b.channels + 1 }, b.channels)

/-- `subscribe_key`. -/
def subscribe (b : Board) (i : ℕ) (scope : Scope) : Board :=
  let (b, channel) := b.entry scope.key
  { b with subs := update b.subs i (some ⟨scope, channel, 0, .subscribed, false⟩) }

/-- A subscription goes on. -/
def setStage (b : Board) (i : ℕ) (sub : Subscription) (stage : Stage) : Board :=
  { b with subs := update b.subs i (some { sub with stage := stage }) }

/-- `retain` drops the channel of a key. -/
def drop (b : Board) (key : Str) : Board :=
  { b with
    newNotify := update b.newNotify key none
    closed := fun c => b.closed c || decide (b.newNotify key = some c) }

end Board

/-- Some pending approval keeps the key, as `retain` judges it. -/
def State.retains (s : State) (key : Str) : Bool := s.pending.entries.any fun entry => entry.2.workspaceId = key

/-- The ids of the expired approvals. -/
def State.expired (s : State) (now : ℕ) : List Str :=
  (s.pending.entries.filter fun entry => entry.2.expiresAt ≤ now).map fun entry => entry.2.id

/-- One step. The deadline is looked at only when `recv` does not answer. -/
def step (s : State) : Event → Option State
  | .subscribe i scope => if s.board.subs i = none then some { s with board := s.board.subscribe i scope } else none
  | .wait i => (s.board.subs i).bind fun sub =>
    if sub.stage = .subscribed then some { s with board := s.board.setStage i sub .waiting }
    else none
  | .wake i => (s.board.subs i).bind fun sub =>
    if sub.stage = .waiting ∧ s.board.ready sub = true then
      some { s with board := s.board.setStage i sub (.ended true) }
    else none
  | .timeout i => (s.board.subs i).bind fun sub =>
    if sub.stage = .waiting ∧ s.board.ready sub = false then
      some { s with board := s.board.setStage i sub (.ended false) }
    else none
  | .insert j approval =>
    if s.stores j = none then
      some { s with
        pending := s.pending.insert approval.id approval
        stores := update s.stores j (some (.inserted approval)) }
    else none
  | .notify j => (s.stores j).map fun call => { s with
      board := s.board.send call.scope
      stores := update s.stores j call.next }
  | .remove id => some { s with pending := s.pending.erase id }
  | .scan now => if s.cleanup = .idle then some { s with cleanup := .evicting (s.expired now) } else none
  | .evict =>
    match s.cleanup with
    | .evicting (id :: ids) => some { s with pending := s.pending.erase id, cleanup := .evicting ids }
    | .evicting [] => some { s with cleanup := .pruning }
    | _ => none
  | .prune key =>
    if s.cleanup = .pruning then
      some (if s.retains key then s else { s with board := s.board.drop key })
    else none
  | .rest => if s.cleanup = .pruning then some { s with cleanup := .idle } else none

/-- What always holds of a subscription: its channel is the one of its key until it is closed,
and a store in its scope has reached it. -/
structure SubInv (b : Board) (sub : Subscription) : Prop where
  live : b.newNotify sub.scope.key = some sub.channel ∨ b.closed sub.channel = true
  own : ∀ key, b.newNotify key = some sub.channel → key = sub.scope.key
  made : sub.channel < b.channels
  heard : sub.Open → sub.stored = true → b.ready sub = true
  slept : sub.stage = .ended false → sub.stored = false

/-- What always holds of the channels and the subscriptions. -/
structure Inv (b : Board) : Prop where
  subs : ∀ i sub, b.subs i = some sub → SubInv b sub
  made : ∀ key c, b.newNotify key = some c → c < b.channels ∧ b.closed c = false
  distinct : ∀ key key' c, b.newNotify key = some c → b.newNotify key' = some c → key = key'
  unmade : ∀ c, b.channels ≤ c → b.closed c = false

/-- A subscription has something to read, or was woken, only after a store in its scope. -/
def Prompted (b : Board) : Prop :=
  ∀ i sub, b.subs i = some sub →
    (sub.Open → b.ready sub = true → sub.stored = true) ∧ (sub.stage = .ended true → sub.stored = true)

section Boards

variable {b : Board}

/-- The empty board. -/
theorem inv_init : Inv State.init.board where
  subs := fun _ _ h => by cases h
  made := fun _ _ h => by cases h
  distinct := fun _ _ _ h => by cases h
  unmade := fun _ _ => rfl

variable {i : ℕ} {sub : Subscription} {scope : Scope}

theorem Inv.update (h : Inv b) (hsub : SubInv b sub) :
    Inv { b with subs := update b.subs i (some sub) } where
  __ := h
  subs := by
    intro j sub' hj
    have hkeep (t : Subscription) (ht : SubInv b t) :
        SubInv { b with subs := Function.update b.subs i (some sub) } t :=
      ⟨ht.live, ht.own, ht.made, ht.heard, ht.slept⟩
    change Function.update b.subs i (some sub) j = some sub' at hj
    obtain ⟨-, hj⟩ | ⟨-, hj⟩ := update_cases hj
    · cases hj
      exact hkeep _ hsub
    · exact hkeep _ (h.subs j sub' hj)

theorem Prompted.update (h : Prompted b)
    (hready : sub.Open → b.ready sub = true → sub.stored = true)
    (hwoken : sub.stage = .ended true → sub.stored = true) :
    Prompted { b with subs := update b.subs i (some sub) } := by
  intro j sub' hj
  change Function.update b.subs i (some sub) j = some sub' at hj
  obtain ⟨-, hj⟩ | ⟨-, hj⟩ := update_cases hj
  · cases hj
    exact ⟨hready, hwoken⟩
  · exact h j sub' hj

theorem Inv.entry (h : Inv b) (key : Str) :
    Inv (b.entry key).1 ∧ (b.entry key).1.newNotify key = some (b.entry key).2 ∧
      (b.entry key).1.subs = b.subs ∧ (b.entry key).1.closed = b.closed := by
  unfold Board.entry
  cases hkey : b.newNotify key with
  | some => exact ⟨h, hkey, rfl, rfl⟩
  | none =>
    refine ⟨?_, update_self _ _ _, rfl, rfl⟩
    have hupdate (key' : Str) (c : ℕ)
        (hc : Function.update b.newNotify key (some b.channels) key' = some c) :
        (key' = key ∧ c = b.channels) ∨ b.newNotify key' = some c := by
      exact (update_cases hc).imp (And.imp_right fun hc => (some.inj hc).symm) And.right
    exact {
      subs := by
        intro i sub hi
        have hsub := h.subs i sub hi
        refine ⟨?_, ?_, lt_succ_of_lt hsub.made, hsub.heard, hsub.slept⟩
        · rcases hsub.live with hlive | hclosed
          · have hne : sub.scope.key ≠ key := by
              intro hsame
              rw [hsame, hkey] at hlive
              cases hlive
            exact .inl ((Function.update_of_ne hne _ _).trans hlive)
          · exact .inr hclosed
        · intro key' hc
          rcases hupdate key' _ hc with ⟨_, hchannel⟩ | hold
          · exact absurd hsub.made (by rw [hchannel]; exact lt_irrefl _)
          · exact hsub.own key' hold
      made := by
        intro key' c hc
        rcases hupdate key' c hc with ⟨_, hchannel⟩ | hold
        · exact ⟨hchannel ▸ lt_succ_self _, h.unmade c hchannel.ge⟩
        · exact ⟨lt_succ_of_lt (h.made key' c hold).1, (h.made key' c hold).2⟩
      distinct := by
        intro key₁ key₂ c h₁ h₂
        rcases hupdate key₁ c h₁ with ⟨hkey₁, hchannel⟩ | hold₁
        · rcases hupdate key₂ c h₂ with ⟨hkey₂, _⟩ | hold₂
          · exact hkey₁.trans hkey₂.symm
          · exact absurd (h.made key₂ c hold₂).1 (by rw [hchannel]; exact lt_irrefl _)
        · rcases hupdate key₂ c h₂ with ⟨_, hchannel⟩ | hold₂
          · exact absurd (h.made key₁ c hold₁).1 (by rw [hchannel]; exact lt_irrefl _)
          · exact h.distinct key₁ key₂ c hold₁ hold₂
      unmade := fun c hc => h.unmade c (le_of_succ_le hc) }

theorem Inv.subscribe (h : Inv b) (i : ℕ) (scope : Scope) : Inv (b.subscribe i scope) := by
  obtain ⟨hentry, hchannel, _, _⟩ := h.entry scope.key
  have hmade := hentry.made _ _ hchannel
  refine hentry.update ⟨.inl hchannel, ?_, hmade.1, ?_, ?_⟩
  · exact fun key hkey => hentry.distinct key scope.key _ hkey hchannel
  · exact nofun
  · exact fun hended => by cases hended

theorem Prompted.subscribe (h : Prompted b) (hinv : Inv b) (i : ℕ) (scope : Scope) :
    Prompted (b.subscribe i scope) := by
  obtain ⟨hentry, hchannel, hsubs, hclosed⟩ := hinv.entry scope.key
  have hprompted : Prompted (b.entry scope.key).1 := by
    intro j sub hj
    rw [hsubs] at hj
    refine ⟨fun hopen hready => (h j sub hj).1 hopen ?_, (h j sub hj).2⟩
    unfold Board.ready at hready ⊢
    rw [hclosed] at hready
    exact hready
  refine hprompted.update (fun _ hready => ?_) fun hended => by cases hended
  have hopen := (hentry.made _ _ hchannel).2
  change (decide (0 < 0) || (b.entry scope.key).1.closed (b.entry scope.key).2) = true at hready
  rw [hopen] at hready
  cases hready

theorem Subscription.open_of_stage (h : sub.stage = .subscribed ∨ sub.stage = .waiting) :
    sub.Open := by
  intro woken hended
  rcases h with h | h
  · rw [h] at hended
    cases hended
  · rw [h] at hended
    cases hended

theorem Inv.setStage (h : Inv b) {stage : Stage} (hi : b.subs i = some sub) (hopen : sub.Open)
    (hslept : stage = .ended false → b.ready sub = false) : Inv (b.setStage i sub stage) := by
  have hsub := h.subs i sub hi
  refine h.update ⟨hsub.live, hsub.own, hsub.made, fun _ => hsub.heard hopen, fun hended => ?_⟩
  cases hstored : sub.stored with
  | false => rfl
  | true =>
    have hready := hsub.heard hopen hstored
    rw [hslept hended] at hready
    cases hready

theorem Prompted.setStage (h : Prompted b) {stage : Stage} (hi : b.subs i = some sub)
    (hopen : sub.Open) (hwoken : stage = .ended true → b.ready sub = true) :
    Prompted (b.setStage i sub stage) :=
  h.update (fun _ hready => (h i sub hi).1 hopen hready)
    fun hended => (h i sub hi).1 hopen (hwoken hended)

@[simp] theorem Board.deliver_scope (channel : Option ℕ) (sub : Subscription) :
    (deliver channel sub).scope = sub.scope := by
  unfold deliver
  split <;> rfl

@[simp] theorem Board.deliver_channel (channel : Option ℕ) (sub : Subscription) :
    (deliver channel sub).channel = sub.channel := by
  unfold deliver
  split <;> rfl

@[simp] theorem Board.deliver_stage (channel : Option ℕ) (sub : Subscription) :
    (deliver channel sub).stage = sub.stage := by
  unfold deliver
  split <;> rfl

@[simp] theorem Board.deliver_stored (channel : Option ℕ) (sub : Subscription) :
    (deliver channel sub).stored = sub.stored := by
  unfold deliver
  split <;> rfl

@[simp] theorem Board.record_scope (scope : Scope) (sub : Subscription) :
    (record scope sub).scope = sub.scope := by
  unfold record
  split <;> rfl

@[simp] theorem Board.record_channel (scope : Scope) (sub : Subscription) :
    (record scope sub).channel = sub.channel := by
  unfold record
  split <;> rfl

@[simp] theorem Board.record_stage (scope : Scope) (sub : Subscription) :
    (record scope sub).stage = sub.stage := by
  unfold record
  split <;> rfl

@[simp] theorem Board.record_unread (scope : Scope) (sub : Subscription) :
    (record scope sub).unread = sub.unread := by
  unfold record
  split <;> rfl

theorem Board.record_stored (scope : Scope) (sub : Subscription) :
    (record scope sub).stored = true ↔ sub.stored = true ∨ (sub.scope = scope ∧ sub.Open) := by
  unfold record
  by_cases h : sub.scope = scope ∧ sub.Open
  · rw [if_pos h]
    exact ⟨fun _ => .inr h, fun _ => rfl⟩
  · rw [if_neg h]
    exact ⟨.inl, fun hor => hor.resolve_right h⟩

theorem Board.unread_deliver (channel : Option ℕ) (sub : Subscription) :
    0 < (deliver channel sub).unread ↔ 0 < sub.unread ∨ channel = some sub.channel := by
  unfold deliver
  by_cases h : channel = some sub.channel
  · rw [if_pos h]
    exact ⟨fun _ => .inr h, fun _ => succ_pos _⟩
  · rw [if_neg h]
    exact ⟨.inl, fun hor => hor.resolve_right h⟩

theorem Board.send_subs (h : (b.send scope).subs i = some sub) :
    ∃ before, b.subs i = some before ∧ sub = record scope (deliver (b.newNotify scope.key) before) := by
  obtain ⟨before, hbefore, hsub⟩ := map_eq_some_iff.mp h
  exact ⟨before, hbefore, hsub.symm⟩

theorem Board.ready_send (sub : Subscription) :
    (b.send scope).ready (record scope (deliver (b.newNotify scope.key) sub)) = true ↔
      b.ready sub = true ∨ b.newNotify scope.key = some sub.channel := by
  unfold ready
  rw [or_eq_true, or_eq_true, decide_eq_true_iff, decide_eq_true_iff, record_unread,
    unread_deliver, record_channel, deliver_channel]
  tauto

theorem Inv.send (h : Inv b) (scope : Scope) : Inv (b.send scope) where
  __ := h
  subs := by
    intro i sub hi
    obtain ⟨before, hbefore, rfl⟩ := Board.send_subs hi
    have hsub := h.subs i before hbefore
    refine ⟨?_, ?_, ?_, ?_, ?_⟩
    · rw [Board.record_scope, Board.deliver_scope, Board.record_channel, Board.deliver_channel]
      exact hsub.live
    · rw [Board.record_scope, Board.deliver_scope, Board.record_channel, Board.deliver_channel]
      exact hsub.own
    · rw [Board.record_channel, Board.deliver_channel]
      exact hsub.made
    · intro hopen hstored
      have hopen' : before.Open := by
        intro woken hended
        exact hopen woken (by rw [Board.record_stage, Board.deliver_stage, hended])
      rw [Board.ready_send]
      rcases (Board.record_stored _ _).mp hstored with hstored | ⟨hscope, _⟩
      · rw [Board.deliver_stored] at hstored
        exact .inl (hsub.heard hopen' hstored)
      · rw [Board.deliver_scope] at hscope
        rcases hsub.live with hlive | hclosed
        · exact .inr (hscope ▸ hlive)
        · exact .inl (or_eq_true_iff.mpr (.inr hclosed))
    · intro hended
      rw [Board.record_stage, Board.deliver_stage] at hended
      refine eq_false_iff.mpr fun hstored => ?_
      rcases (Board.record_stored _ _).mp hstored with hstored | ⟨_, hopen⟩
      · rw [Board.deliver_stored, hsub.slept hended] at hstored
        cases hstored
      · exact hopen false (by rw [Board.deliver_stage, hended])

theorem Prompted.send (h : Prompted b) (hinv : Inv b)
    (hscope : ∀ i sub, b.subs i = some sub → sub.Open → sub.scope.key = scope.key → sub.scope = scope) :
    Prompted (b.send scope) := by
  intro i sub hi
  obtain ⟨before, hbefore, rfl⟩ := Board.send_subs hi
  constructor
  · intro hopen hready
    have hopen' : before.Open := by
      intro woken hended
      exact hopen woken (by rw [Board.record_stage, Board.deliver_stage, hended])
    rw [Board.record_stored]
    rcases (Board.ready_send before).mp hready with hready | hchannel
    · exact .inl ((Board.deliver_stored _ _).trans ((h i before hbefore).1 hopen' hready))
    · have hkey := (hinv.subs i before hbefore).own _ hchannel
      refine .inr ⟨(Board.deliver_scope _ _).trans ?_, ?_⟩
      · exact hscope i before hbefore hopen' hkey.symm
      · intro woken hended
        exact hopen' woken ((Board.deliver_stage _ _).symm.trans hended)
  · intro hended
    rw [Board.record_stage, Board.deliver_stage] at hended
    exact (Board.record_stored _ _).mpr
      (.inl ((Board.deliver_stored _ _).trans ((h i before hbefore).2 hended)))

theorem Inv.drop (h : Inv b) (key : Str) : Inv (b.drop key) := by
  have hclosed {c : ℕ} (hc : b.closed c = true) : (b.drop key).closed c = true := or_eq_true_iff.mpr (.inl hc)
  have hkept {key' : Str} {c : ℕ} (hc : (b.drop key).newNotify key' = some c) :
      key' ≠ key ∧ b.newNotify key' = some c := by
    change Function.update b.newNotify key none key' = some c at hc
    exact (update_cases hc).resolve_left fun hc => nomatch hc.2
  exact {
    subs := by
      intro i sub hi
      have hsub := h.subs i sub hi
      refine ⟨?_, fun key' hc => hsub.own key' (hkept hc).2, hsub.made, ?_, hsub.slept⟩
      · rcases hsub.live with hlive | hdead
        · by_cases hsame : sub.scope.key = key
          · exact .inr (or_eq_true_iff.mpr (.inr (decide_eq_true (hsame ▸ hlive))))
          · exact .inl ((update_of_ne hsame _ _).trans hlive)
        · exact .inr (hclosed hdead)
      · intro hopen hstored
        rcases or_eq_true_iff.mp (hsub.heard hopen hstored) with hunread | hdead
        · exact or_eq_true_iff.mpr (.inl hunread)
        · exact or_eq_true_iff.mpr (.inr (hclosed hdead))
    made := by
      intro key' c hc
      obtain ⟨hne, hold⟩ := hkept hc
      refine ⟨(h.made key' c hold).1, or_eq_false_iff.mpr ⟨(h.made key' c hold).2, ?_⟩⟩
      exact decide_eq_false fun hdropped => hne (h.distinct key' key c hold hdropped)
    distinct := fun key₁ key₂ c h₁ h₂ => h.distinct key₁ key₂ c (hkept h₁).2 (hkept h₂).2
    unmade := by
      intro c hc
      refine or_eq_false_iff.mpr ⟨h.unmade c hc, decide_eq_false fun hkey => ?_⟩
      exact absurd (h.made key c hkey).1 (not_lt.mpr hc) }

theorem Prompted.drop (h : Prompted b) {key : Str}
    (hstored : ∀ i sub, b.subs i = some sub → sub.Open → b.newNotify key = some sub.channel →
      sub.stored = true) : Prompted (b.drop key) := by
  intro i sub hi
  refine ⟨fun hopen hready => ?_, (h i sub hi).2⟩
  rcases or_eq_true_iff.mp hready with hunread | hdead
  · exact (h i sub hi).1 hopen (or_eq_true_iff.mpr (.inl hunread))
  · rcases or_eq_true_iff.mp hdead with hdead | hdropped
    · exact (h i sub hi).1 hopen (or_eq_true_iff.mpr (.inr hdead))
    · exact hstored i sub hi hopen (of_decide_eq_true hdropped)

end Boards

/-- What a step does to the channels and the subscriptions. -/
inductive Move (s : State) : Event → Board → Prop where
  | same {e : Event} : Move s e s.board
  | subscribed (i : ℕ) (scope : Scope) : Move s (.subscribe i scope) (s.board.subscribe i scope)
  | waiting (i : ℕ) (sub : Subscription) : s.board.subs i = some sub → sub.stage = .subscribed →
      Move s (.wait i) (s.board.setStage i sub .waiting)
  | woken (i : ℕ) (sub : Subscription) : s.board.subs i = some sub → sub.stage = .waiting →
      s.board.ready sub = true → Move s (.wake i) (s.board.setStage i sub (.ended true))
  | timedOut (i : ℕ) (sub : Subscription) : s.board.subs i = some sub → sub.stage = .waiting →
      s.board.ready sub = false → Move s (.timeout i) (s.board.setStage i sub (.ended false))
  | notified (j : ℕ) (call : StoreCall) : s.stores j = some call → Move s (.notify j) (s.board.send call.scope)
  | pruned (key : Str) : s.retains key = false → Move s (.prune key) (s.board.drop key)

variable {s s' : State}

theorem move_of_step {e : Event} (h : step s e = some s') : Move s e s'.board := by
  cases e with
  | subscribe i scope =>
    obtain ⟨-, h⟩ := ite_none_right_eq_some.mp h
    cases h
    exact .subscribed i scope
  | wait i =>
    obtain ⟨sub, hsub, h⟩ := bind_eq_some_iff.mp h
    obtain ⟨hstage, h⟩ := ite_none_right_eq_some.mp h
    cases h
    exact .waiting i sub hsub hstage
  | wake i =>
    obtain ⟨sub, hsub, h⟩ := bind_eq_some_iff.mp h
    obtain ⟨⟨hstage, hready⟩, h⟩ := ite_none_right_eq_some.mp h
    cases h
    exact .woken i sub hsub hstage hready
  | timeout i =>
    obtain ⟨sub, hsub, h⟩ := bind_eq_some_iff.mp h
    obtain ⟨⟨hstage, hready⟩, h⟩ := ite_none_right_eq_some.mp h
    cases h
    exact .timedOut i sub hsub hstage hready
  | notify j =>
    obtain ⟨call, hcall, h⟩ := map_eq_some_iff.mp h
    obtain rfl := h
    exact .notified j call hcall
  | remove =>
    cases h
    exact .same
  | evict =>
    unfold step at h
    dsimp only at h
    split at h
    · cases h
      exact .same
    · cases h
      exact .same
    · cases h
  | prune key =>
    obtain ⟨-, h⟩ := ite_none_right_eq_some.mp h
    cases h
    cases hretains : s.retains key with
    | true => exact .same
    | false => exact .pruned key hretains
  | _ =>
    obtain ⟨-, h⟩ := ite_none_right_eq_some.mp h
    cases h
    exact .same

/-- Every event keeps the board. -/
theorem Inv.step {e : Event} (h : Inv s.board) (hstep : step s e = some s') : Inv s'.board := by
  have hmove := move_of_step hstep
  generalize s'.board = b' at hmove
  cases hmove with
  | same => exact h
  | subscribed i scope => exact h.subscribe i scope
  | waiting i sub hsub hstage =>
    exact h.setStage hsub (Subscription.open_of_stage (.inl hstage)) fun hended => by cases hended
  | woken i sub hsub hstage =>
    exact h.setStage hsub (Subscription.open_of_stage (.inr hstage)) fun hended => by cases hended
  | timedOut i sub hsub hstage hready =>
    exact h.setStage hsub (Subscription.open_of_stage (.inr hstage)) fun _ => hready
  | notified j call => exact h.send call.scope
  | pruned key => exact h.drop key

/-- A notification is not for a key that another scope shares, and no channel is pruned under
an open subscription before an approval was stored for it. -/
def Undisturbed (s : State) : Event → Prop
  | .notify j => ∀ call, s.stores j = some call → ∀ i sub, s.board.subs i = some sub → sub.Open →
      sub.scope.key = call.scope.key → sub.scope = call.scope
  | .prune key => s.retains key = false → ∀ i sub, s.board.subs i = some sub → sub.Open →
      s.board.newNotify key = some sub.channel → sub.stored = true
  | _ => True

theorem Prompted.step {e : Event} (h : Prompted s.board) (hinv : Inv s.board)
    (hcalm : Undisturbed s e) (hstep : Wakeup.step s e = some s') : Prompted s'.board := by
  have hmove := move_of_step hstep
  generalize s'.board = b' at hmove
  cases hmove with
  | same => exact h
  | subscribed i scope => exact h.subscribe hinv i scope
  | waiting i sub hsub hstage =>
    exact h.setStage hsub (Subscription.open_of_stage (.inl hstage)) fun hended => by cases hended
  | woken i sub hsub hstage hready => exact h.setStage hsub (Subscription.open_of_stage (.inr hstage)) fun _ => hready
  | timedOut i sub hsub hstage =>
    exact h.setStage hsub (Subscription.open_of_stage (.inr hstage)) fun hended => by cases hended
  | notified j call hcall => exact h.send hinv (hcalm call hcall)
  | pruned key hretains => exact h.drop (hcalm hretains)

/-- In every run a wait that times out had no approval stored in its scope. In a run whose steps
are all undisturbed, a wait that returns `true` had one. -/
theorem wakeups {es : List Event} {s : State} (hrun : run step .init es = some s) :
    (∀ i sub, s.board.subs i = some sub → sub.stage = .ended false → sub.stored = false) ∧
    (Runs.Meets step Undisturbed .init es → ∀ i sub, s.board.subs i = some sub →
      sub.stage = .ended true → sub.stored = true) := by
  constructor
  · have hinv : Inv s.board := run_invariant step (I := fun s => Inv s.board)
      (fun _ _ _ h hstep => h.step hstep) inv_init hrun
    exact fun i sub hi => (hinv.subs i sub hi).slept
  · intro hmeets
    have hboth : Inv s.board ∧ Prompted s.board := by
      refine run_invariant_of_meets step (I := fun s => Inv s.board ∧ Prompted s.board) ?_
        ⟨inv_init, fun _ _ h => by cases h⟩ hmeets hrun
      exact fun s e s' h hundisturbed hstep =>
        ⟨h.1.step hstep, h.2.step h.1 hundisturbed hstep⟩
    exact fun i sub hi => (hboth.2 i sub hi).2

/-- An approval of workspace `w` in organization `o`. -/
def oneApproval : PendingApproval := ⟨"a".toList, "o".toList, "w".toList, 180⟩

/-- The poll of workspace `w` in organization `o`. -/
def onePoll : Scope := .workspace "o".toList "w".toList

/-- The poll waits, and the approval is stored. -/
def storedRun : List Event := [.subscribe 0 onePoll, .wait 0, .insert 0 oneApproval, .notify 0, .wake 0]

/-- An approval is stored while the poll waits: the poll is woken. -/
theorem wakeups_stored : ∃ s sub, run step .init storedRun = some s ∧
    s.board.subs 0 = some sub ∧ sub.stage = .ended true ∧ sub.stored = true := by
  have hmeets : Runs.Meets step Undisturbed .init storedRun := by
    iterate 3 refine meets_cons_of_eq step rfl trivial ?_
    refine meets_cons_of_eq step rfl ?_ ?_
    · intro call hcall i sub hsub _ _
      cases hcall
      have honly (f : ℕ → Option Subscription) (x y : Option Subscription) (hi : i ≠ 0) :
          update (update f 0 x) 0 y i = f i :=
        (update_of_ne hi _ _).trans (update_of_ne hi _ _)
      by_cases hi : i = 0
      · subst hi
        cases hsub
        rfl
      · cases (honly _ _ _ hi).symm.trans hsub
    · exact meets_cons_of_eq step rfl trivial trivial
  have hrun : ∃ s, run step .init storedRun = some s := ⟨_, rfl⟩
  obtain ⟨s, hrun⟩ := hrun
  have hwoken := (wakeups hrun).2 hmeets 0
  cases hrun
  exact ⟨_, _, rfl, rfl, rfl, hwoken _ rfl rfl⟩

/-- A tick of the cleanup while the poll waits: the poll is woken though nothing is stored. -/
theorem wakeups_pruned : ∃ s sub, run step .init
      [.subscribe 0 onePoll, .wait 0, .scan 0, .evict, .prune onePoll.key, .wake 0] = some s ∧
    s.board.subs 0 = some sub ∧ sub.stage = .ended true ∧ sub.stored = false :=
  ⟨_, _, rfl, rfl, rfl, rfl⟩

end Onecli.Approval.Wakeup
