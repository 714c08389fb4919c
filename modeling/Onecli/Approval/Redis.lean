import Onecli.Approval.Hold
import Onecli.Foundation.Runs

/-!
# One approval in the Redis store

`RedisApprovalStore` of `ee/src/ha/approval.rs` under `hold` and any number of
`submit_outcome` calls, possibly of other gateways. The keys of one approval are its body, its
places in the two index sets, and its decision list; each Redis command is one step. A decision
in the list stands for the JSON that the waiter decodes back to it. `prepare_wait` sends no
command: the blocking read opens only inside `wait`.
-/

namespace Onecli.Approval.Redis

open List Option Function Runs

/-- What Redis keeps of one approval. -/
structure Keys where
  /-- `approval:{org}:{workspace}:{id}`. -/
  approval : Bool
  /-- The member of `approvals:{org}:{workspace}`. -/
  indexed : Bool
  /-- The member of `approvals:{org}`. -/
  orgIndexed : Bool
  /-- The list `approval:decision:{org}:{workspace}:{id}`, head first. -/
  decisions : List DecisionOutcome
  /-- The decision list has a time to live. -/
  decisionsExpire : Bool

/-- A Redis command of `store`, `remove` or `submit_outcome`, but for the `LPUSH`. -/
inductive Command where
  | setex
  | sadd
  | expireSet
  | publish
  | saddOrg
  | expireOrgSet
  | publishOrg
  | expireDecisions
  | srem
  | sremOrg
  | del
  | delDecisions
  deriving DecidableEq

/-- What a command does to the keys. -/
def Command.exec (keys : Keys) : Command → Keys
  | .setex => { keys with approval := true }
  | .sadd => { keys with indexed := true }
  | .expireSet => keys
  | .publish => keys
  | .saddOrg => { keys with orgIndexed := true }
  | .expireOrgSet => keys
  | .publishOrg => keys
  | .expireDecisions => { keys with decisionsExpire := !keys.decisions.isEmpty }
  | .srem => { keys with indexed := false }
  | .sremOrg => { keys with orgIndexed := false }
  | .del => { keys with approval := false }
  | .delDecisions => { keys with decisions := [], decisionsExpire := false }

/-- `RedisApprovalStore::store`. -/
def store : List Command := [.setex, .sadd, .expireSet, .publish, .saddOrg, .expireOrgSet, .publishOrg]

/-- `RedisApprovalStore::remove`. -/
def remove : List Command := [.srem, .sremOrg, .del, .delDecisions]

/-- Where `hold` stands, with the commands that it still has to send. -/
inductive Hold where
  | start
  | storing (commands : List Command)
  /-- Stored; the waiter connects. -/
  | connecting
  /-- `BLPOP` blocks. -/
  | blocked
  /-- `BLPOP` is answered, and the answer is on its way. -/
  | replied (reply : Option DecisionOutcome)
  | removing (outcome : HoldOutcome) (commands : List Command)
  | ended (outcome : HoldOutcome)
  /-- The future is dropped; the guard's task removes the approval. -/
  | dropped (commands : List Command)
  deriving DecidableEq

/-- Where a call of `submit_outcome` stands. -/
inductive Submit where
  | idle
  /-- Before the `LPUSH`. -/
  | called (outcome : DecisionOutcome)
  | finishing (outcome : DecisionOutcome) (commands : List Command)
  | returned (outcome : DecisionOutcome) (delivered : Bool)
  deriving DecidableEq

/-- The keys of one approval and the parties. -/
structure State where
  keys : Keys
  hold : Hold
  submits : ℕ → Submit

/-- Before `hold` is called. -/
def State.init : State := ⟨⟨false, false, false, [], false⟩, .start, fun _ => .idle⟩

/-- A step of one of the parties, or of Redis. -/
inductive Event where
  | prepareWait
  /-- The next command of `store`. -/
  | storeNext
  /-- `SETEX` fails. -/
  | storeFails
  | blpop
  /-- `BLPOP` gives up. -/
  | blpopExpires
  /-- The waiter reads the answer. -/
  | read
  | waitFails (error : DecisionWaitError)
  | shutdown
  | disconnect
  /-- The next command of `remove`, called by `hold` or by the guard. -/
  | removeNext
  | call (i : ℕ) (outcome : DecisionOutcome)
  | lpush (i : ℕ)
  | lpushFails (i : ℕ)
  /-- The next command of `submit_outcome` after its `LPUSH`. -/
  | submitNext (i : ℕ)
  /-- The time to live of the decision list is over. -/
  | decisionsExpire

/-- The wait is under way. -/
def Hold.InWait (hold : Hold) : Bool :=
  match hold with
  | .connecting | .blocked | .replied _ => true
  | _ => false

/-- A call of `submit_outcome` goes on. -/
def State.setSubmit (s : State) (i : ℕ) (submit : Submit) : State :=
  { s with submits := update s.submits i submit }

/-- `LPUSH`: a blocked reader takes the decision at once. -/
def State.push (s : State) (outcome : DecisionOutcome) : State :=
  if s.hold = .blocked then { s with hold := .replied (some outcome) }
  else { s with keys := { s.keys with decisions := outcome :: s.keys.decisions } }

/-- `BLPOP`: takes the head of the list, or blocks. -/
def State.blpop (s : State) : State :=
  match s.keys.decisions with
  | [] => { s with hold := .blocked }
  | outcome :: rest => { s with
      keys := { s.keys with decisions := rest, decisionsExpire := s.keys.decisionsExpire && !rest.isEmpty }
      hold := .replied (some outcome) }

/-- One step. -/
def step (s : State) : Event → Option State
  | .prepareWait => if s.hold = .start then some { s with hold := .storing store } else none
  | .storeNext =>
    match s.hold with
    | .storing (command :: commands) => some { s with keys := command.exec s.keys, hold := .storing commands }
    | .storing [] => some { s with hold := .connecting }
    | _ => none
  | .storeFails =>
    if s.hold = .storing store then some { s with hold := .removing .storeUnavailable remove }
    else none
  | .blpop => if s.hold = .connecting then some s.blpop else none
  | .blpopExpires => if s.hold = .blocked then some { s with hold := .replied none } else none
  | .read =>
    match s.hold with
    | .replied reply => some { s with hold := .removing (answer (.read reply)) remove }
    | _ => none
  | .waitFails error =>
    if s.hold.InWait then some { s with hold := .removing (answer (.failed error)) remove }
    else none
  | .shutdown => if s.hold.InWait then some { s with hold := .removing (answer .shutdown) remove } else none
  | .disconnect => if s.hold.InWait then some { s with hold := .dropped remove } else none
  | .removeNext =>
    match s.hold with
    | .removing outcome (command :: commands) =>
      some { s with keys := command.exec s.keys, hold := .removing outcome commands }
    | .removing outcome [] => some { s with hold := .ended outcome }
    | .dropped (command :: commands) => some { s with keys := command.exec s.keys, hold := .dropped commands }
    | _ => none
  | .call i outcome => if s.submits i = .idle then some (s.setSubmit i (.called outcome)) else none
  | .lpush i =>
    match s.submits i with
    | .called outcome => some ((s.setSubmit i (.finishing outcome (.expireDecisions :: remove))).push outcome)
    | _ => none
  | .lpushFails i =>
    match s.submits i with
    | .called outcome => some (s.setSubmit i (.returned outcome false))
    | _ => none
  | .submitNext i =>
    match s.submits i with
    | .finishing outcome (command :: commands) =>
      some { s.setSubmit i (.finishing outcome commands) with keys := command.exec s.keys }
    | .finishing outcome [] => some (s.setSubmit i (.returned outcome true))
    | _ => none
  | .decisionsExpire =>
    if s.keys.decisionsExpire then
      some { s with keys := { s.keys with decisions := [], decisionsExpire := false } }
    else none

/-- The decision of a call that has pushed it, and so returns `true`. -/
def Submit.pushed : Submit → Option DecisionOutcome
  | .idle => none
  | .called _ => none
  | .finishing outcome _ => some outcome
  | .returned outcome delivered => if delivered then some outcome else none

/-- The waiter has not sent its `BLPOP`. -/
def Hold.Before (hold : Hold) : Bool :=
  match hold with
  | .start | .storing _ | .connecting => true
  | _ => false

/-- The only decision pushed is where the hold finds it, or it is the answer. -/
def Agrees (hold : Hold) (decisions : List DecisionOutcome) (pushed : ℕ → Option DecisionOutcome) :
    Prop :=
  match hold with
  | .start | .storing _ | .connecting =>
    (∀ i outcome, pushed i = some outcome → decisions = [outcome]) ∧
      (∀ outcome ∈ decisions, ∃ i, pushed i = some outcome)
  | .blocked => ∀ i, pushed i = none
  | .replied none => ∀ i, pushed i = none
  | .replied (some outcome) => ∃ i, pushed i = some outcome
  | .removing result _ => ∀ i outcome, pushed i = some outcome → result = answer (.read (some outcome))
  | .ended result => ∀ i outcome, pushed i = some outcome → result = answer (.read (some outcome))
  | .dropped _ => True

/-- The decisions pushed so far. -/
def State.pushed (s : State) (i : ℕ) : Option DecisionOutcome := (s.submits i).pushed

/-- At most one decision is pushed, and the hold goes by it. -/
structure Delivered (s : State) : Prop where
  unique : ∀ i j, s.pushed i ≠ none → s.pushed j ≠ none → i = j
  agrees : Agrees s.hold s.keys.decisions s.pushed
  storing : ∀ commands, s.hold = .storing commands → .delDecisions ∉ commands

/-- One decision is pushed, while the waiter can still read it; it is not deleted before the
`BLPOP`; and nothing else ends the hold behind it. -/
def OneDecision (s : State) : Event → Prop
  | .lpush _ => (∀ j, s.pushed j = none) ∧ (s.hold.Before ∨ s.hold = .blocked)
  | .submitNext i => s.hold.Before → (∃ outcome commands,
      s.submits i = .finishing outcome (.delDecisions :: commands)) → s.keys.decisions = []
  | .decisionsExpire => s.hold.Before → s.keys.decisions = []
  | .storeFails => ∀ j, s.pushed j = none
  | .waitFails _ => ∀ j, s.pushed j = none
  | .shutdown => ∀ j, s.pushed j = none
  | _ => True

section Steps

variable {s s' : State}

theorem Command.exec_decisions {command : Command} (h : command ≠ .delDecisions) (keys : Keys) :
    (command.exec keys).decisions = keys.decisions := by
  cases command with
  | delDecisions => exact absurd rfl h
  | _ => rfl

theorem pushed_setSubmit {i : ℕ} {submit : Submit} (h : submit.pushed = s.pushed i) :
    (s.setSubmit i submit).pushed = s.pushed := by
  funext j
  exact update_keeps Submit.pushed h j

/-- Decisions agree while the hold is open. -/
theorem Agrees.of_decisions {hold : Hold} {decisions decisions' : List DecisionOutcome}
    {pushed : ℕ → Option DecisionOutcome} (h : Agrees hold decisions pushed)
    (hsame : hold.Before → decisions' = decisions) : Agrees hold decisions' pushed := by
  cases hold with
  | start | storing commands | connecting => rw [hsame rfl]; exact h
  | replied reply =>
    cases reply with
    | none | some => exact h
  | _ => exact h

theorem Delivered.of_none (h : ∀ j, s.pushed j = none) {outcome : HoldOutcome}
    {commands : List Command} : Delivered { s with hold := .removing outcome commands } where
  unique := fun i _ hi _ => absurd (h i) hi
  agrees := fun i outcome hi => absurd ((h i).symm.trans hi) (some_ne_none outcome).symm
  storing := fun _ hstore => by cases hstore

section

variable (h : Delivered s)
include h

/-- A store that stays has delivered. -/
theorem Delivered.same (hpushed : s'.pushed = s.pushed) (hagrees : Agrees s'.hold s'.keys.decisions s.pushed)
    (hstore : ∀ commands, s'.hold = .storing commands → .delDecisions ∉ commands) : Delivered s' where
  unique := by
    rw [hpushed]
    exact h.unique
  agrees := by
    rw [hpushed]
    exact hagrees
  storing := hstore

theorem Delivered.storeNext (hstep : step s .storeNext = some s') : Delivered s' := by
  have hagrees := h.agrees
  unfold step at hstep
  dsimp only at hstep
  split at hstep
  · next command commands hhold =>
    cases hstep
    have hkept := not_or.mp (mt mem_cons.mpr (h.storing _ hhold))
    rw [hhold] at hagrees
    refine h.same rfl (.of_decisions hagrees fun _ => ?_) fun commands' hcommands => ?_
    · exact Command.exec_decisions (fun hdel => hkept.1 hdel.symm) s.keys
    · cases hcommands
      exact hkept.2
  · next hhold =>
    cases hstep
    rw [hhold] at hagrees
    exact h.same rfl hagrees fun _ hstore => by cases hstore
  · cases hstep

theorem Delivered.removeNext (hstep : step s .removeNext = some s') : Delivered s' := by
  have hagrees := h.agrees
  unfold step at hstep
  dsimp only at hstep
  split at hstep
  · next outcome command commands hhold =>
    cases hstep
    rw [hhold] at hagrees
    exact h.same rfl hagrees fun _ hstore => by cases hstore
  · next outcome hhold =>
    cases hstep
    rw [hhold] at hagrees
    exact h.same rfl hagrees fun _ hstore => by cases hstore
  · next command commands hhold =>
    cases hstep
    exact h.same rfl trivial fun _ hstore => by cases hstore
  · cases hstep

/-- The `BLPOP` finds the decision pushed, or blocks while there is none. -/
theorem Delivered.blpop (hconnecting : s.hold = .connecting) : Delivered s.blpop := by
  have hagrees := h.agrees
  rw [hconnecting] at hagrees
  obtain ⟨honly, hpushed⟩ := hagrees
  unfold State.blpop
  split
  · next hempty =>
    refine h.same rfl (fun i => ?_) fun _ hstore => by cases hstore
    cases hi : s.pushed i with
    | none => rfl
    | some outcome =>
      have hlist := honly i outcome hi
      rw [hempty] at hlist
      cases hlist
  · next outcome rest hlist =>
    refine h.same rfl ?_ fun _ hstore => by cases hstore
    exact hpushed outcome (by rw [hlist]; exact mem_cons_self)

theorem Delivered.read {reply : Option DecisionOutcome} (hreplied : s.hold = .replied reply) :
    Delivered { s with hold := .removing (answer (.read reply)) Redis.remove } := by
  have hagrees := h.agrees
  rw [hreplied] at hagrees
  cases reply with
  | none => exact .of_none hagrees
  | some =>
    obtain ⟨j, hj⟩ := hagrees
    refine h.same rfl (fun i outcome' hi => ?_) fun _ hstore => by cases hstore
    have hsame : i = j := h.unique i j (by rw [hi]; exact some_ne_none _)
      (by rw [hj]; exact some_ne_none _)
    cases (hsame ▸ hi).symm.trans hj
    rfl

theorem Delivered.lpush {i : ℕ} {outcome : DecisionOutcome} (hnone : ∀ j, s.pushed j = none)
    (hread : s.hold.Before = true ∨ s.hold = .blocked) : Delivered
    ((s.setSubmit i (.finishing outcome (.expireDecisions :: remove))).push outcome) := by
  let called := s.setSubmit i (.finishing outcome (.expireDecisions :: remove))
  have hself : called.pushed i = some outcome := by
    change (update s.submits i _ i).pushed = some outcome
    rw [update_self]
    rfl
  have honly (j : ℕ) (hj : called.pushed j ≠ none) : j = i := by
    by_contra hne
    exact hj ((congrArg Submit.pushed (update_of_ne hne _ _)).trans (hnone j))
  have hunique (j k : ℕ) (hj : called.pushed j ≠ none) (hk : called.pushed k ≠ none) : j = k :=
    (honly j hj).trans (honly k hk).symm
  unfold State.push
  split
  · exact ⟨hunique, ⟨i, hself⟩, fun _ hstore => by cases hstore⟩
  · next hblocked =>
    have hbefore := hread.resolve_right hblocked
    have hempty : s.keys.decisions = [] := by
      refine eq_nil_iff_forall_not_mem.mpr fun o ho => ?_
      have hagrees := h.agrees
      have hpushed : ∃ j, s.pushed j = some o := by
        cases hhold : s.hold with
        | start | storing commands | connecting => rw [hhold] at hagrees; exact hagrees.2 o ho
        | _ => rw [hhold] at hbefore; cases hbefore
      obtain ⟨j, hj⟩ := hpushed
      exact absurd ((hnone j).symm.trans hj) (some_ne_none o).symm
    have hboth : (∀ j o, called.pushed j = some o → outcome :: s.keys.decisions = [o]) ∧
        (∀ o ∈ outcome :: s.keys.decisions, ∃ j, called.pushed j = some o) := by
      rw [hempty]
      constructor
      · intro j o hj
        obtain rfl := honly j (by rw [hj]; exact some_ne_none o)
        cases hself.symm.trans hj
        rfl
      · intro o ho
        obtain rfl := mem_singleton.mp ho
        exact ⟨i, hself⟩
    refine ⟨hunique, ?_, h.storing⟩
    change Agrees s.hold (outcome :: s.keys.decisions) called.pushed
    cases hhold : s.hold with
    | start | storing commands | connecting => exact hboth
    | _ => rw [hhold] at hbefore; cases hbefore

theorem Delivered.submitNext {i : ℕ} (hone : OneDecision s (.submitNext i)) (hstep : step s (.submitNext i) = some s')
    : Delivered s' := by
  unfold step at hstep
  dsimp only at hstep
  split at hstep
  · next outcome command commands hfinishing =>
    cases hstep
    have hpushed : (s.setSubmit i (.finishing outcome commands)).pushed = s.pushed :=
      pushed_setSubmit (congrArg Submit.pushed hfinishing).symm
    refine h.same hpushed (.of_decisions h.agrees fun hbefore => ?_) h.storing
    by_cases hdel : command = .delDecisions
    · subst hdel
      exact (hone hbefore ⟨outcome, commands, hfinishing⟩).symm
    · exact Command.exec_decisions hdel s.keys
  · next outcome hfinishing =>
    cases hstep
    exact h.same (pushed_setSubmit (congrArg Submit.pushed hfinishing).symm) h.agrees h.storing
  · cases hstep

/-- One decision is delivered to all. -/
theorem Delivered.step {e : Event} (hone : OneDecision s e) (hstep : Redis.step s e = some s') : Delivered s' := by
  have hagrees := h.agrees
  cases e with
  | prepareWait =>
    obtain ⟨hstart, hstep⟩ := ite_none_right_eq_some.mp hstep
    cases hstep
    rw [hstart] at hagrees
    refine h.same rfl hagrees fun commands hstore => ?_
    cases hstore
    decide
  | storeNext => exact h.storeNext hstep
  | blpop =>
    obtain ⟨hconnecting, hstep⟩ := ite_none_right_eq_some.mp hstep
    cases hstep
    exact h.blpop hconnecting
  | blpopExpires =>
    obtain ⟨hblocked, hstep⟩ := ite_none_right_eq_some.mp hstep
    cases hstep
    rw [hblocked] at hagrees
    exact h.same rfl hagrees fun _ hstore => by cases hstore
  | read =>
    unfold Redis.step at hstep
    dsimp only at hstep
    split at hstep
    · next reply hreplied =>
      cases hstep
      exact h.read hreplied
    · cases hstep
  | disconnect =>
    obtain ⟨-, hstep⟩ := ite_none_right_eq_some.mp hstep
    cases hstep
    exact h.same rfl trivial fun _ hstore => by cases hstore
  | removeNext => exact h.removeNext hstep
  | call =>
    obtain ⟨hidle, hstep⟩ := ite_none_right_eq_some.mp hstep
    cases hstep
    exact h.same (pushed_setSubmit (congrArg Submit.pushed hidle).symm) hagrees h.storing
  | lpush =>
    unfold Redis.step at hstep
    dsimp only at hstep
    split at hstep
    · next outcome hcalled =>
      cases hstep
      exact h.lpush hone.1 hone.2
    · cases hstep
  | lpushFails =>
    unfold Redis.step at hstep
    dsimp only at hstep
    split at hstep
    · next outcome hcalled =>
      cases hstep
      exact h.same (pushed_setSubmit (congrArg Submit.pushed hcalled).symm) hagrees h.storing
    · cases hstep
  | submitNext => exact h.submitNext hone hstep
  | decisionsExpire =>
    obtain ⟨-, hstep⟩ := ite_none_right_eq_some.mp hstep
    cases hstep
    exact h.same rfl (.of_decisions hagrees fun hbefore => (hone hbefore).symm) h.storing
  | _ =>
    obtain ⟨-, hstep⟩ := ite_none_right_eq_some.mp hstep
    cases hstep
    exact .of_none hone

end

end Steps

/-- Nothing is delivered at first. -/
theorem delivered_init : Delivered .init where
  unique := fun _ _ hi _ => absurd rfl hi
  agrees := by
    constructor
    · intro i outcome hi
      cases hi
    · intro outcome ho
      cases ho
  storing := fun _ hstore => by cases hstore

/-- In a run whose steps all meet the condition at most one call returns `true`, and a hold
that ends gives exactly its decision. -/
theorem pushed_decision {es : List Event} {s : State} (hrun : run step .init es = some s)
    (hmeets : Runs.Meets step OneDecision .init es) :
    (∀ i j o o', s.submits i = .returned o true → s.submits j = .returned o' true → i = j) ∧
    (∀ i o result, s.submits i = .returned o true → s.hold = .ended result → result = answer (.read (some o))) := by
  have hdelivered : Delivered s :=
    run_invariant_of_meets step (fun _ _ _ h hone hstep => h.step hone hstep) delivered_init
      hmeets hrun
  have hpushed {i : ℕ} {o : DecisionOutcome} (hi : s.submits i = .returned o true) :
      s.pushed i = some o := congrArg Submit.pushed hi
  constructor
  · intro i j o o' hi hj
    refine hdelivered.unique i j ?_ ?_
    · rw [hpushed hi]
      exact Option.some_ne_none o
    · rw [hpushed hj]
      exact Option.some_ne_none o'
  · intro i o result hi hended
    have hagrees := hdelivered.agrees
    rw [hended] at hagrees
    exact hagrees i o (hpushed hi)

/-- An approval without a name to it. -/
def plainApproval : DecisionOutcome := ⟨.approve, none, none⟩

/-- A deny without a name to it. -/
def plainDenial : DecisionOutcome := ⟨.deny, none, none⟩

/-- The approval is stored, command by command, and the waiter connects. -/
def storedRun : List Event := .prepareWait :: List.replicate 8 .storeNext

/-- A call of `submit_outcome` runs to its end. -/
def submitRun (i : ℕ) (outcome : DecisionOutcome) : List Event :=
  [.call i outcome, .lpush i] ++ List.replicate 6 (.submitNext i)

/-- The hold removes the approval. -/
def removeRun : List Event := List.replicate 5 .removeNext

/-- A call pushes its decision while the `BLPOP` blocks: the hold is approved. -/
theorem pushed_decision_approved : ∃ s,
    run step .init (storedRun ++ [.blpop] ++ submitRun 0 plainApproval ++ .read :: removeRun) = some s ∧
    s.hold = .ended (answer (.read (some plainApproval))) := by
  refine ⟨_, rfl, ?_⟩
  have hmeets : Runs.Meets step OneDecision .init
      (storedRun ++ [.blpop] ++ submitRun 0 plainApproval ++ .read :: removeRun) := by
    iterate 11 refine meets_cons_of_eq step rfl trivial ?_
    refine meets_cons_of_eq step rfl ⟨fun j => ?_, .inr rfl⟩ ?_
    · cases j with
      | zero => rfl
      | succ => rfl
    iterate 6 refine meets_cons_of_eq step rfl (fun hbefore => by cases hbefore) ?_
    iterate 6 refine meets_cons_of_eq step rfl trivial ?_
    trivial
  exact congrArg Hold.ended ((pushed_decision rfl hmeets).2 0 plainApproval _ rfl rfl)

/-- Two calls both return `true`; and a decision pushed before the `BLPOP` opens is deleted by
its own call, so that the hold of an approved request expires. -/
theorem pushed_decision_lost :
    (∃ s, run step .init (storedRun ++ [.blpop] ++ submitRun 0 plainApproval ++
        submitRun 1 plainDenial) = some s ∧
      s.submits 0 = .returned plainApproval true ∧ s.submits 1 = .returned plainDenial true) ∧
    ∃ s, run step .init (storedRun ++ submitRun 0 plainApproval ++
        [.blpop, .blpopExpires, .read] ++ removeRun) = some s ∧
      s.submits 0 = .returned plainApproval true ∧ s.hold = .ended (.rejected .expired none) :=
  ⟨⟨_, rfl, rfl, rfl⟩, _, rfl, rfl, rfl⟩

end Onecli.Approval.Redis
