import Onecli.Runner.Lifecycle
import Mathlib.Data.Finset.Card
import Mathlib.Order.Nat

/-!
# The parts of the executor

What a single part of the executor keeps when a task goes on, takes a newer command or is enqueued: the order of the
chains, the slots of the queued commands, the count of the semaphore, the hash and the timer of a start, and the record
of what ran.
-/

namespace Onecli.Runner.Lifecycle

open Function (update update_idem update_of_ne update_self)
open List Option Nat

variable {P H : Type}

/-- What kind of work a task does. -/
inductive Kind where
  | start
  | stop
  | other
  deriving DecidableEq

/-- The kind of a task's work. -/
def Work.kind : Work P → Kind
  | .lifecycle (.start _) => .start
  | .lifecycle (.stop _) => .stop
  | .other => .other

@[simp] theorem kind_start (payload : P) : (Work.lifecycle (.start payload)).kind = .start := rfl

@[simp] theorem kind_stop (ref : Option ℕ) : (Work.lifecycle (P := P) (.stop ref)).kind = .stop := rfl

@[simp] theorem kind_other : (Work.other (P := P)).kind = .other := rfl

theorem kind_lifecycle_ne (command : Command P) : (Work.lifecycle command).kind ≠ .other := by
  cases command with
  | start =>
    rw [kind_start]
    decide
  | stop =>
    rw [kind_stop]
    decide

/-- Starts are the work of kind start. -/
theorem kind_eq_start_iff (work : Work P) : work.kind = .start ↔ ∃ payload, work = .lifecycle (.start payload) := by
  rcases work with (payload | ref) | _ <;> simp

section Tasks

variable (tasks : ℕ → Task P) (n : ℕ)

@[simp] theorem setPhase_sandboxId (phase : Phase) (k : ℕ) :
    (setPhase tasks n phase k).sandboxId = (tasks k).sandboxId := update_keeps Task.sandboxId (by rfl) k

@[simp] theorem setPhase_previous (phase : Phase) (k : ℕ) :
    (setPhase tasks n phase k).previous = (tasks k).previous := update_keeps Task.previous (by rfl) k

@[simp] theorem setPhase_work (phase : Phase) (k : ℕ) : (setPhase tasks n phase k).work = (tasks k).work := update_keeps Task.work (by rfl) k

@[simp] theorem setPhase_phase_self (phase : Phase) : (setPhase tasks n phase n).phase = phase := by
  rw [setPhase, update_self]

/-- The other tasks stay in their phase. -/
theorem setPhase_phase_of_ne (phase : Phase) {k : ℕ} (hk : k ≠ n) :
    (setPhase tasks n phase k).phase = (tasks k).phase := by
  rw [setPhase, update_of_ne hk]

@[simp] theorem setPhase_setPhase (phase phase' : Phase) :
    setPhase (setPhase tasks n phase) n phase' = setPhase tasks n phase' := by
  rw [setPhase, setPhase, update_self, update_idem]
  rfl

@[simp] theorem setWork_sandboxId (work : Work P) (k : ℕ) :
    (setWork tasks n work k).sandboxId = (tasks k).sandboxId := update_keeps Task.sandboxId (by rfl) k

@[simp] theorem setWork_previous (work : Work P) (k : ℕ) :
    (setWork tasks n work k).previous = (tasks k).previous := update_keeps Task.previous (by rfl) k

@[simp] theorem setWork_phase (work : Work P) (k : ℕ) : (setWork tasks n work k).phase = (tasks k).phase := update_keeps Task.phase (by rfl) k

@[simp] theorem setWork_work_self (work : Work P) : (setWork tasks n work n).work = work := by
  rw [setWork, update_self]

/-- The other tasks keep their work. -/
theorem setWork_work_of_ne (work : Work P) {k : ℕ} (hk : k ≠ n) : (setWork tasks n work k).work = (tasks k).work := by
  rw [setWork, update_of_ne hk]

/-- New work of the same kind. -/
theorem setWork_kind {work : Work P} (hkind : work.kind = (tasks n).work.kind) (k : ℕ) :
    (setWork tasks n work k).work.kind = (tasks k).work.kind := by
  by_cases hk : k = n
  · rw [hk, setWork_work_self, hkind]
  · rw [setWork_work_of_ne tasks n work hk]

end Tasks

section Order

/-- The tasks of a chain wait for one another in the order they were enqueued. A task that is no longer in the map of
the chains has settled, and so have those before it. -/
structure InOrder (tasks : ℕ → Task P) (chains : ℕ → Option ℕ) (enqueued : ℕ) : Prop where
  previous_lt : ∀ n < enqueued, ∀ p, (tasks n).previous = some p → p < n ∧ (tasks p).sandboxId = (tasks n).sandboxId
  chain_lt : ∀ id n, chains id = some n → n < enqueued ∧ (tasks n).sandboxId = id
  link : ∀ n < enqueued, ∀ m < n, (tasks m).sandboxId = (tasks n).sandboxId →
    (tasks m).phase = .settled ∨ ∃ p, (tasks n).previous = some p ∧ m ≤ p
  tail : ∀ m < enqueued, (tasks m).phase = .settled ∨ ∃ p, chains (tasks m).sandboxId = some p ∧ m ≤ p
  begun : ∀ n < enqueued, (tasks n).phase ≠ .queued → ∀ m < n, (tasks m).sandboxId = (tasks n).sandboxId →
    (tasks m).phase = .settled

namespace InOrder

variable {tasks : ℕ → Task P} {chains : ℕ → Option ℕ} {enqueued n : ℕ}

section

variable (h : InOrder tasks chains enqueued)
include h

/-- Before a task's turn all earlier ones have settled. -/
theorem settled_of_turn (hn : n < enqueued) (hturn : ∀ p, (tasks n).previous = some p → (tasks p).phase = .settled) :
    ∀ m < n, (tasks m).sandboxId = (tasks n).sandboxId → (tasks m).phase = .settled := by
  intro m hm hbox
  rcases h.link n hn m hm hbox with hsettled | ⟨p, hp, hle⟩
  · exact hsettled
  · obtain ⟨hlt, hp'⟩ := h.previous_lt n hn p hp
    have hsettled := hturn p hp
    rcases lt_or_eq_of_le hle with hbefore | rfl
    · refine h.begun p (lt_trans hlt hn) ?_ m hbefore (hbox.trans hp'.symm)
      rw [hsettled]
      decide
    · exact hsettled

theorem queued_of_lt (hlive : (tasks n).phase ≠ .settled) {k : ℕ} (hk : k < enqueued) (hlt : n < k)
    (hbox : (tasks n).sandboxId = (tasks k).sandboxId) : (tasks k).phase = .queued := by
  by_contra hnot
  exact hlive (h.begun k hk hnot n hlt hbox)

/-- A phase changes in order. -/
theorem setPhase {phase : Phase} (hlive : (tasks n).phase ≠ .settled)
    (hearlier : ∀ m < n, (tasks m).sandboxId = (tasks n).sandboxId → (tasks m).phase = .settled) : InOrder
    (setPhase tasks n phase) chains enqueued := by
  have hkeep (m : ℕ) (hm : (tasks m).phase = .settled) : (Lifecycle.setPhase tasks n phase m).phase = .settled := by
    have hne : m ≠ n := fun heq => hlive (heq ▸ hm)
    rw [setPhase_phase_of_ne tasks n phase hne, hm]
  refine ⟨?_, ?_, ?_, ?_, ?_⟩ <;> simp only [setPhase_sandboxId, setPhase_previous]
  · exact h.previous_lt
  · exact h.chain_lt
  · intro k hk m hm hbox
    exact (h.link k hk m hm hbox).imp_left (hkeep m)
  · intro m hm
    exact (h.tail m hm).imp_left (hkeep m)
  · intro k hk hphase m hm hbox
    refine hkeep m ?_
    by_cases heq : k = n
    · exact hearlier m (heq ▸ hm) (heq ▸ hbox)
    · rw [setPhase_phase_of_ne tasks n phase heq] at hphase
      exact h.begun k hk hphase m hm hbox

theorem setWork {work : Work P} : InOrder (setWork tasks n work) chains enqueued := by
  refine ⟨?_, ?_, ?_, ?_, ?_⟩ <;> simp only [setWork_sandboxId, setWork_previous, setWork_phase]
  · exact h.previous_lt
  · exact h.chain_lt
  · exact h.link
  · exact h.tail
  · exact h.begun

/-- A task is enqueued last. -/
theorem enqueue (id : ℕ) (work : Work P) : InOrder (update tasks enqueued ⟨id, chains id, work, .queued⟩)
    (update chains id (some enqueued)) (enqueued + 1) := by
  have hold (k : ℕ) (hk : k < enqueued) :
      update tasks enqueued ⟨id, chains id, work, .queued⟩ k = tasks k :=
    update_of_ne (Nat.ne_of_lt hk) _ _
  refine ⟨?_, ?_, ?_, ?_, ?_⟩
  · intro k hk p hp
    rcases lt_or_eq_of_le (le_of_lt_succ hk) with hk | rfl
    · rw [hold k hk] at hp ⊢
      obtain ⟨hlt, hbox⟩ := h.previous_lt k hk p hp
      rw [hold p (lt_trans hlt hk)]
      exact ⟨hlt, hbox⟩
    · rw [update_self] at hp ⊢
      obtain ⟨hlt, hbox⟩ := h.chain_lt id p hp
      rw [hold p hlt]
      exact ⟨hlt, hbox⟩
  · intro id' k hk
    obtain ⟨rfl, hlast⟩ | ⟨-, hk⟩ := update_cases hk
    · cases hlast
      rw [update_self]
      exact ⟨lt_succ_self _, rfl⟩
    · obtain ⟨hlt, hbox⟩ := h.chain_lt id' k hk
      rw [hold k hlt]
      exact ⟨lt_succ_of_lt hlt, hbox⟩
  · intro k hk m hm hbox
    rcases lt_or_eq_of_le (le_of_lt_succ hk) with hk | rfl
    · rw [hold k hk, hold m (lt_trans hm hk)] at hbox
      rw [hold k hk, hold m (lt_trans hm hk)]
      exact h.link k hk m hm hbox
    · rw [update_self, hold m hm] at hbox
      rw [update_self, hold m hm]
      have htail := h.tail m hm
      rw [hbox] at htail
      exact htail
  · intro m hm
    rcases lt_or_eq_of_le (le_of_lt_succ hm) with hm | rfl
    · rw [hold m hm]
      refine (h.tail m hm).imp_right ?_
      rintro ⟨p, hp, hle⟩
      by_cases heq : (tasks m).sandboxId = id
      · exact ⟨enqueued, by rw [heq, update_self], le_of_lt hm⟩
      · exact ⟨p, by rw [update_of_ne heq, hp], hle⟩
    · exact .inr ⟨_, by rw [update_self, update_self], le_refl _⟩
  · intro k hk hphase m hm hbox
    rcases lt_or_eq_of_le (le_of_lt_succ hk) with hk | rfl
    · rw [hold k hk] at hphase hbox
      rw [hold m (lt_trans hm hk)] at hbox ⊢
      exact h.begun k hk hphase m hm hbox
    · rw [update_self] at hphase
      exact absurd rfl hphase

theorem sweep (hn : n < enqueued) (hsettled : (tasks n).phase = .settled)
    (hchain : chains (tasks n).sandboxId = some n) : InOrder tasks (update chains (tasks n).sandboxId none) enqueued := by
  refine ⟨h.previous_lt, ?_, h.link, ?_, h.begun⟩
  · intro id k hk
    obtain ⟨-, hk⟩ | ⟨-, hk⟩ := update_cases hk
    · cases hk
    · exact h.chain_lt id k hk
  · intro m hm
    by_cases heq : (tasks m).sandboxId = (tasks n).sandboxId
    · refine .inl ?_
      rcases h.tail m hm with hm' | ⟨p, hp, hle⟩
      · exact hm'
      · rw [heq, hchain] at hp
        cases hp
        rcases lt_or_eq_of_le hle with hlt | rfl
        · refine h.begun n hn ?_ m hlt heq
          rw [hsettled]
          decide
        · exact hsettled
    · rw [update_of_ne heq]
      exact h.tail m hm

end

end InOrder

theorem InOrder.oneAtATime {w : World P H} (h : InOrder w.tasks w.chains w.enqueued) : w.OneAtATime := by
  intro m hm n hn hbox hmq hms hnq hns
  rcases lt_trichotomy m n with hlt | heq | hlt
  · exact absurd (h.begun n hn hnq m hlt hbox) hms
  · exact heq
  · exact absurd (h.begun m hm hmq n hlt hbox.symm) hns

end Order

section Slots

/-- The slots of a kind are those of the queued tasks of the kind. -/
def Slotted (kind : Kind) (tasks : ℕ → Task P) (enqueued : ℕ) (slots : ℕ → Option ℕ) : Prop :=
  ∀ id n, slots id = some n ↔
    n < enqueued ∧ (tasks n).sandboxId = id ∧ (tasks n).phase = .queued ∧ (tasks n).work.kind = kind

namespace Slotted

variable {kind : Kind} {tasks : ℕ → Task P} {enqueued n : ℕ} {slots slots' : ℕ → Option ℕ}

section

variable (h : Slotted kind tasks enqueued slots)
include h

theorem setPhase {phase : Phase} (hphase : phase ≠ .queued)
    (hslots : ∀ id k, slots' id = some k ↔ slots id = some k ∧ k ≠ n) : Slotted kind (setPhase tasks n phase) enqueued
    slots' := by
  intro id k
  rw [hslots, h id k, setPhase_sandboxId, setPhase_work]
  by_cases hk : k = n
  · simp [hk, hphase]
  · simp [hk, setPhase_phase_of_ne]

/-- A phase outside the queue leaves the slots. -/
theorem setPhase_of_not {phase : Phase} (hphase : phase ≠ .queued)
    (hn : (tasks n).phase ≠ .queued ∨ (tasks n).work.kind ≠ kind) : Slotted kind (Lifecycle.setPhase tasks n phase)
    enqueued slots := by
  refine h.setPhase hphase fun id k => ⟨fun hk => ⟨hk, ?_⟩, And.left⟩
  rintro rfl
  obtain ⟨-, -, hqueued, hkind⟩ := (h id k).mp hk
  exact hn.elim (fun hnot => hnot hqueued) fun hnot => hnot hkind

theorem setPhase_self {phase : Phase} (hphase : phase ≠ .queued) (hn : n < enqueued)
    (hqueued : (tasks n).phase = .queued) (hkind : (tasks n).work.kind = kind) : Slotted kind
    (Lifecycle.setPhase tasks n phase) enqueued (update slots (tasks n).sandboxId none) := by
  have hslot : slots (tasks n).sandboxId = some n := (h _ n).mpr ⟨hn, rfl, hqueued, hkind⟩
  refine h.setPhase hphase fun id k => ?_
  by_cases heq : id = (tasks n).sandboxId
  · rw [heq, update_self, hslot]
    constructor
    · intro hk
      cases hk
    · rintro ⟨hk, hne⟩
      exact absurd (some.inj hk).symm hne
  · rw [update_of_ne heq]
    refine ⟨fun hk => ⟨hk, ?_⟩, And.left⟩
    rintro rfl
    exact heq ((h id k).mp hk).2.1.symm

theorem setWork {work : Work P} (hkind : work.kind = (tasks n).work.kind) : Slotted kind (setWork tasks n work)
    enqueued slots := by
  intro id k
  rw [h id k, setWork_sandboxId, setWork_phase, setWork_kind tasks n hkind]

/-- A task of another kind leaves the slots. -/
theorem enqueue_of_ne {task : Task P} (hkind : task.work.kind ≠ kind) : Slotted kind (update tasks enqueued task)
    (enqueued + 1) slots := by
  intro id k
  rw [h id k]
  by_cases hk : k = enqueued
  · simp [hk, hkind]
  · rw [update_of_ne hk]
    have : k < enqueued + 1 ↔ k < enqueued := by omega
    rw [this]

theorem enqueue {t : Task P} (hkind : t.work.kind = kind) (hqueued : t.phase = .queued)
    (hempty : slots t.sandboxId = none) : Slotted kind (update tasks enqueued t) (enqueued + 1)
    (update slots t.sandboxId (some enqueued)) := by
  intro id k
  by_cases heq : id = t.sandboxId
  · rw [heq, update_self]
    by_cases hk : k = enqueued
    · rw [hk, update_self]
      exact iff_of_true rfl ⟨lt_succ_self _, rfl, hqueued, hkind⟩
    · rw [update_of_ne hk]
      refine iff_of_false (fun h' => hk (some.inj h').symm) ?_
      rintro ⟨hlt, hrest⟩
      have hslot := (h t.sandboxId k).mpr ⟨by omega, hrest⟩
      rw [hempty] at hslot
      cases hslot
  · rw [update_of_ne heq, h id k]
    by_cases hk : k = enqueued
    · rw [hk, update_self]
      refine iff_of_false (fun h' => lt_irrefl _ h'.1) ?_
      rintro ⟨-, hbox, -⟩
      exact heq hbox.symm
    · rw [update_of_ne hk]
      have : k < enqueued + 1 ↔ k < enqueued := by omega
      rw [this]

end

end Slotted

end Slots

section Starts

/-- The phases of a kind of work. -/
def Phase.Fits : Phase → Kind → Prop
  | .acquiring, kind => kind = .start
  | .starting, kind => kind = .start
  | .stopping, kind => kind = .stop
  | .executing, kind => kind = .other
  | _, _ => True

/-- A start holds a slot of the semaphore. -/
def Task.Holds (task : Task P) : Prop := task.phase = .starting ∨ task.phase = .reporting ∧ task.work.kind = .start

/-- The other tasks hold what they held. -/
theorem setPhase_holds_of_ne (tasks : ℕ → Task P) {n k : ℕ} (phase : Phase) (hk : k ≠ n) :
    (setPhase tasks n phase k).Holds ↔ (tasks k).Holds := by
  rw [Task.Holds, Task.Holds, setPhase_phase_of_ne tasks n phase hk, setPhase_work]

/-- The semaphore counts the starts that hold a slot of it, and the starts it lets wait are those that wait. -/
structure Permits (lifecycleConcurrency : ℕ) (tasks : ℕ → Task P) (enqueued inUse : ℕ) (waiters : List ℕ) : Prop where
  waiting : ∀ n ∈ waiters, n < enqueued ∧ (tasks n).phase = .acquiring
  nodup : waiters.Nodup
  held : ∃ held : Finset ℕ, held.card = inUse ∧ ∀ n, n ∈ held ↔ n < enqueued ∧ (tasks n).Holds
  limit : inUse ≤ lifecycleConcurrency

namespace Permits

variable {lifecycleConcurrency enqueued inUse n : ℕ} {tasks tasks' : ℕ → Task P} {waiters : List ℕ}

section

variable (h : Permits lifecycleConcurrency tasks enqueued inUse waiters)
include h

/-- Permits depend on the holders alone. -/
theorem congr {enqueued' : ℕ} (hwait : ∀ n ∈ waiters, n < enqueued' ∧ (tasks' n).phase = .acquiring)
    (hholds : ∀ n, n < enqueued' ∧ (tasks' n).Holds ↔ n < enqueued ∧ (tasks n).Holds) : Permits lifecycleConcurrency
    tasks' enqueued' inUse waiters := by
  obtain ⟨held, hcard, hheld⟩ := h.held
  exact ⟨hwait, h.nodup, ⟨held, hcard, fun n => (hheld n).trans (hholds n).symm⟩, h.limit⟩

/-- Those who wait go on waiting. -/
theorem waiting_setPhase (phase : Phase) (hnot : n ∉ waiters) : ∀ k ∈ waiters, k < enqueued ∧
    (setPhase tasks n phase k).phase = .acquiring := by
  intro k hk
  have hne : k ≠ n := fun heq => hnot (heq ▸ hk)
  rw [setPhase_phase_of_ne tasks n phase hne]
  exact h.waiting k hk

/-- A phase that holds the same keeps the permits. -/
theorem setPhase {phase : Phase} (hn : (tasks n).phase ≠ .acquiring)
    (hholds : (setPhase tasks n phase n).Holds ↔ (tasks n).Holds) : Permits lifecycleConcurrency
    (setPhase tasks n phase) enqueued inUse waiters := by
  refine h.congr (h.waiting_setPhase phase fun hmem => hn (h.waiting n hmem).2) fun k => ?_
  by_cases hk : k = n
  · rw [hk, hholds]
  · rw [setPhase_holds_of_ne tasks phase hk]

theorem park (hn : n < enqueued) (hphase : (tasks n).phase = .acquiring) (hnot : n ∉ waiters) : Permits
    lifecycleConcurrency tasks enqueued inUse (waiters ++ [n]) := by
  refine ⟨fun k hk => ?_, ?_, h.held, h.limit⟩
  · rcases mem_append.mp hk with hk | hk
    · exact h.waiting k hk
    · rw [mem_singleton.mp hk]
      exact ⟨hn, hphase⟩
  · refine List.nodup_append'.mpr ⟨h.nodup, nodup_singleton n, ?_⟩
    intro k hk hk'
    rw [mem_singleton.mp hk'] at hk
    exact hnot hk

theorem grant (hn : n < enqueued) (hphase : (tasks n).phase = .acquiring) (hnot : n ∉ waiters)
    (hfree : inUse < lifecycleConcurrency) : Permits lifecycleConcurrency (Lifecycle.setPhase tasks n .starting)
    enqueued (inUse + 1) waiters := by
  obtain ⟨held, hcard, hheld⟩ := h.held
  have hidle : n ∉ held := by
    rw [hheld, Task.Holds, hphase]
    simp
  refine ⟨h.waiting_setPhase .starting hnot, h.nodup, ⟨insert n held, ?_, fun k => ?_⟩, hfree⟩
  · rw [Finset.card_insert_of_notMem hidle, hcard]
  · rw [Finset.mem_insert, hheld]
    by_cases hk : k = n
    · subst hk
      exact iff_of_true (.inl rfl) ⟨hn, .inl (setPhase_phase_self tasks k .starting)⟩
    · rw [setPhase_holds_of_ne tasks .starting hk, or_iff_right hk]

theorem settle (hn : n < enqueued) (hholds : (tasks n).Holds) : Permits lifecycleConcurrency
    (Lifecycle.setPhase tasks n .settled) enqueued (inUse - 1) waiters ∧ inUse - 1 < lifecycleConcurrency := by
  obtain ⟨held, hcard, hheld⟩ := h.held
  have hmem : n ∈ held := (hheld n).mpr ⟨hn, hholds⟩
  have hpos : 0 < held.card := Finset.card_pos.mpr ⟨n, hmem⟩
  have hlimit := h.limit
  have hnot : n ∉ waiters := by
    intro hwaits
    rw [Task.Holds, (h.waiting n hwaits).2] at hholds
    simp at hholds
  refine ⟨⟨h.waiting_setPhase .settled hnot, h.nodup, ⟨held.erase n, ?_, fun k => ?_⟩, by omega⟩, by omega⟩
  · rw [Finset.card_erase_of_mem hmem, hcard]
  · rw [Finset.mem_erase, hheld]
    by_cases hk : k = n
    · subst hk
      refine iff_of_false (fun h' => h'.1 rfl) ?_
      simp [Task.Holds]
    · rw [setPhase_holds_of_ne tasks .settled hk, and_iff_right hk]

end

theorem tail (h : Permits lifecycleConcurrency tasks enqueued inUse (n :: waiters)) :
    Permits lifecycleConcurrency tasks enqueued inUse waiters ∧ n < enqueued ∧ (tasks n).phase = .acquiring ∧
      n ∉ waiters := by
  obtain ⟨hnot, hnodup⟩ := nodup_cons.mp h.nodup
  obtain ⟨hn, hphase⟩ := h.waiting n mem_cons_self
  exact ⟨⟨fun k hk => h.waiting k (mem_cons_of_mem n hk), hnodup, h.held, h.limit⟩, hn, hphase, hnot⟩

end Permits

/-- A queued task holds no permit. -/
theorem Permits.enqueue {lifecycleConcurrency enqueued inUse : ℕ} {tasks : ℕ → Task P} {waiters : List ℕ}
    {task : Task P} (h : Permits lifecycleConcurrency tasks enqueued inUse waiters) (hqueued : task.phase = .queued) :
    Permits lifecycleConcurrency (update tasks enqueued task) (enqueued + 1) inUse waiters := by
  refine h.congr (fun k hk => ?_) fun k => ?_
  · obtain ⟨hlt, hphase⟩ := h.waiting k hk
    rw [update_of_ne (Nat.ne_of_lt hlt)]
    exact ⟨lt_succ_of_lt hlt, hphase⟩
  · by_cases hk : k = enqueued
    · rw [hk, update_self, Task.Holds, hqueued]
      simp
    · rw [update_of_ne hk]
      refine and_congr_left' ?_
      omega

theorem Permits.limited {lifecycleConcurrency : ℕ} {w : World P H}
    (h : Permits lifecycleConcurrency w.tasks w.enqueued w.inUse w.waiters) : w.Limited lifecycleConcurrency := by
  obtain ⟨held, hcard, hheld⟩ := h.held
  have hnodup : ((List.range w.enqueued).filter fun n => (w.tasks n).phase = .starting).Nodup := nodup_range.filter _
  rw [World.Limited, ← toFinset_card_of_nodup hnodup]
  refine le_trans (Finset.card_le_card ?_) (le_trans (le_of_eq hcard) h.limit)
  intro n hn
  obtain ⟨hlt, hphase⟩ := mem_filter.mp (mem_toFinset.mp hn)
  exact (hheld n).mpr ⟨mem_range.mp hlt, .inl (of_decide_eq_true hphase)⟩

end Starts

section Executing

/-- A start has begun and has not settled. -/
def Phase.Active (phase : Phase) : Prop := phase = .acquiring ∨ phase = .starting ∨ phase = .reporting

/-- The hash that is kept for a sandbox is of the start that executes there. -/
def Executing (payloadHash : P → H) (tasks : ℕ → Task P) (enqueued : ℕ) (executingStartHash : ℕ → Option H) : Prop :=
  ∀ id hash, executingStartHash id = some hash →
    ∃ n < enqueued, (tasks n).sandboxId = id ∧ (tasks n).phase.Active ∧
      ∃ payload, (tasks n).work = .lifecycle (.start payload) ∧ payloadHash payload = hash

namespace Executing

variable {payloadHash : P → H} {tasks : ℕ → Task P} {enqueued n : ℕ} {executingStartHash : ℕ → Option H}

section

variable (h : Executing payloadHash tasks enqueued executingStartHash)
include h

/-- A phase keeps the start that is under way. -/
theorem setPhase {p : Phase} (hn : (tasks n).phase.Active → (tasks n).work.kind = .start → p.Active) : Executing
    payloadHash (setPhase tasks n p) enqueued executingStartHash := by
  intro id hash hid
  obtain ⟨k, hk, hbox, hactive, payload, hwork, hhash⟩ := h id hash hid
  refine ⟨k, hk, by rw [setPhase_sandboxId, hbox], ?_, payload, by rw [setPhase_work, hwork], hhash⟩
  by_cases heq : k = n
  · subst heq
    rw [setPhase_phase_self]
    exact hn hactive (by rw [hwork, kind_start])
  · rw [setPhase_phase_of_ne tasks n p heq]
    exact hactive

theorem begin {payload : P} (hn : n < enqueued) (hwork : (tasks n).work = .lifecycle (.start payload)) : Executing
    payloadHash (Lifecycle.setPhase tasks n .acquiring) enqueued
    (update executingStartHash (tasks n).sandboxId (some (payloadHash payload))) := by
  intro id hash hid
  obtain ⟨heq, hid⟩ | ⟨-, hid⟩ := update_cases hid
  · refine ⟨n, hn, by rw [setPhase_sandboxId, heq], ?_, payload, by rw [setPhase_work, hwork], some.inj hid⟩
    rw [setPhase_phase_self]
    exact .inl rfl
  · refine h.setPhase (fun _ _ => .inl rfl) id hash hid

theorem settle : Executing payloadHash (Lifecycle.setPhase tasks n .settled) enqueued
    (update executingStartHash (tasks n).sandboxId none) := by
  intro id hash hid
  obtain ⟨-, hid⟩ | ⟨heq, hid⟩ := update_cases hid
  · cases hid
  · obtain ⟨k, hk, hbox, hactive, hwork⟩ := h id hash hid
    have hne : k ≠ n := by
      rintro rfl
      exact heq hbox.symm
    refine ⟨k, hk, by rw [setPhase_sandboxId, hbox], ?_, by rwa [setPhase_work]⟩
    rw [setPhase_phase_of_ne tasks n _ hne]
    exact hactive

theorem setWork {work : Work P} (hqueued : (tasks n).phase = .queued) : Executing payloadHash (setWork tasks n work)
    enqueued executingStartHash := by
  intro id hash hid
  obtain ⟨k, hk, hbox, hactive, hwork⟩ := h id hash hid
  have hne : k ≠ n := by
    rintro rfl
    rw [hqueued] at hactive
    simp [Phase.Active] at hactive
  refine ⟨k, hk, by rw [setWork_sandboxId, hbox], by rwa [setWork_phase], ?_⟩
  rwa [setWork_work_of_ne tasks n work hne]

/-- A queued task executes nothing. -/
theorem enqueue {task : Task P} : Executing payloadHash (update tasks enqueued task) (enqueued + 1) executingStartHash := by
  intro id hash hid
  obtain ⟨k, hk, hrest⟩ := h id hash hid
  refine ⟨k, Nat.lt_succ_of_lt hk, ?_⟩
  rw [update_of_ne (Nat.ne_of_lt hk)]
  exact hrest

end

end Executing

/-- Where a start is queued, acquiring or in the backend. -/
def Phase.UnderWay (phase : Phase) : Prop := phase = .queued ∨ phase = .acquiring ∨ phase = .starting

namespace World

variable {w w' : World P H} {n id : ℕ}

theorem startUnderWay_of_slot (hstarts : Slotted .start w.tasks w.enqueued w.queuedStarts)
    (hslot : w.queuedStarts id = some n) : w.StartUnderWay id := by
  obtain ⟨hn, hbox, hqueued, hkind⟩ := (hstarts id n).mp hslot
  exact ⟨n, hn, hbox, (kind_eq_start_iff _).mp hkind, .inl hqueued⟩

/-- A phase of another task leaves the start under way. -/
theorem StartUnderWay.setPhase {phase : Phase} (h : w.StartUnderWay id) (htasks : w'.tasks = setPhase w.tasks n phase)
    (henqueued : w'.enqueued = w.enqueued)
    (hn : (w.tasks n).sandboxId = id → (w.tasks n).work.kind = .start → phase.UnderWay) : w'.StartUnderWay id := by
  obtain ⟨k, hk, hbox, hwork, hphase⟩ := h
  refine ⟨k, by rwa [henqueued], ?_, ?_, ?_⟩
  · rw [htasks, setPhase_sandboxId, hbox]
  · rwa [htasks, setPhase_work]
  · rw [htasks]
    by_cases heq : k = n
    · subst heq
      rw [setPhase_phase_self]
      exact hn hbox ((kind_eq_start_iff _).mpr hwork)
    · rw [setPhase_phase_of_ne w.tasks n phase heq]
      exact hphase

theorem StartUnderWay.setWork {work : Work P} (h : w.StartUnderWay id) (htasks : w'.tasks = setWork w.tasks n work)
    (henqueued : w'.enqueued = w.enqueued) (hkind : work.kind = (w.tasks n).work.kind) : w'.StartUnderWay id := by
  obtain ⟨k, hk, hbox, hwork, hphase⟩ := h
  refine ⟨k, by rwa [henqueued], ?_, ?_, ?_⟩
  · rw [htasks, setWork_sandboxId, hbox]
  · rw [htasks, ← kind_eq_start_iff, setWork_kind w.tasks n hkind, kind_eq_start_iff]
    exact hwork
  · rw [htasks, setWork_phase]
    exact hphase

/-- A queued task leaves the start under way. -/
theorem StartUnderWay.enqueue {task : Task P} (h : w.StartUnderWay id)
    (htasks : w'.tasks = update w.tasks w.enqueued task) (henqueued : w'.enqueued = w.enqueued + 1) :
    w'.StartUnderWay id := by
  obtain ⟨k, hk, hrest⟩ := h
  refine ⟨k, by rw [henqueued]; exact Nat.lt_succ_of_lt hk, ?_⟩
  rw [htasks, update_of_ne (Nat.ne_of_lt hk)]
  exact hrest

end World

end Executing

section History

@[simp] theorem lastClaimed_ran (id sandboxId : ℕ) (command : Command P) (history : List (Entry P)) :
    lastClaimed id (.ran sandboxId command :: history) = lastClaimed id history := rfl

theorem lastClaimed_claimed (id sandboxId : ℕ) (command : Command P) (history : List (Entry P)) :
    lastClaimed id (.claimed sandboxId command :: history) =
      if sandboxId = id then some command else lastClaimed id history := by
  by_cases h : sandboxId = id <;> simp [lastClaimed, h]

theorem lastRan_ran (id sandboxId : ℕ) (command : Command P) (history : List (Entry P)) :
    lastRan id (.ran sandboxId command :: history) = if sandboxId = id then some command else lastRan id history := by
  by_cases h : sandboxId = id <;> simp [lastRan, h]

theorem stopsRan_ran (id : ℕ) (ref : Option ℕ) (history : List (Entry P)) :
    StopsRan id (.ran id (.stop ref) :: history) := by
  intro later earlier containerRef' hsplit
  cases later with
  | nil => cases (List.cons.inj hsplit).1
  | cons =>
    rw [(List.cons.inj hsplit).1.symm]
    exact ⟨ref, mem_cons_self⟩

/-- A stop that ran stays one. -/
theorem StopsRan.cons {id : ℕ} {history : List (Entry P)} (h : StopsRan id history) {entry : Entry P}
    (hentry : ∀ ref, entry ≠ .claimed id (.stop ref)) : StopsRan id (entry :: history) := by
  intro later earlier ref hsplit
  cases later with
  | nil => exact absurd (List.cons.inj hsplit).1 (hentry ref)
  | cons first later =>
    obtain ⟨containerRef', hmem⟩ := h later earlier ref (List.cons.inj hsplit).2
    exact ⟨containerRef', mem_cons_of_mem first hmem⟩

/-- The backend has been given the command of a task. -/
def Phase.Given (phase : Phase) : Prop := phase ≠ .queued ∧ phase ≠ .acquiring

/-- The last command that the backend was given is that of the last task that has been given to it. -/
def Ran (tasks : ℕ → Task P) (enqueued : ℕ) (history : List (Entry P)) : Prop :=
  ∀ n < enqueued, ∀ command, (tasks n).work = .lifecycle command → (tasks n).phase.Given →
    (∀ m < enqueued, n < m → (tasks m).sandboxId = (tasks n).sandboxId → (tasks m).work.kind ≠ .other →
      ¬ (tasks m).phase.Given) → lastRan (tasks n).sandboxId history = some command

namespace Ran

variable {tasks tasks' : ℕ → Task P} {enqueued n : ℕ} {history history' : List (Entry P)}

section

variable (h : Ran tasks enqueued history)
include h

/-- What ran depends on the given tasks alone. -/
theorem congr (hbox : ∀ k, (tasks' k).sandboxId = (tasks k).sandboxId)
    (hkind : ∀ k, (tasks' k).work.kind = (tasks k).work.kind)
    (hgiven : ∀ k < enqueued, (tasks k).work.kind ≠ .other → ((tasks' k).phase.Given ↔ (tasks k).phase.Given))
    (hwork : ∀ k < enqueued, (tasks k).phase.Given → (tasks' k).work = (tasks k).work)
    (hhistory : ∀ id, lastRan id history' = lastRan id history) : Ran tasks' enqueued history' := by
  intro k hk command hcommand hphase hlater
  have hlifecycle : (tasks k).work.kind ≠ .other := by
    rw [← hkind, hcommand]
    exact kind_lifecycle_ne command
  have hphase' := (hgiven k hk hlifecycle).mp hphase
  rw [hwork k hk hphase'] at hcommand
  rw [hbox, hhistory]
  refine h k hk command hcommand hphase' fun m hm hlt hsame hother => ?_
  have hnot := hlater m hm hlt (by rw [hbox, hbox, hsame]) (by rwa [hkind])
  rwa [hgiven m hm hother] at hnot

/-- A phase that is given as before changes nothing that ran. -/
theorem setPhase {phase : Phase} (hn : (tasks n).work.kind ≠ .other → (phase.Given ↔ (tasks n).phase.Given)) : Ran
    (setPhase tasks n phase) enqueued history := by
  refine h.congr (setPhase_sandboxId tasks n phase) (fun k => by rw [setPhase_work]) ?_
    (fun k _ _ => setPhase_work tasks n phase k) fun _ => rfl
  intro k _ hkind
  by_cases heq : k = n
  · subst heq
    rw [setPhase_phase_self, hn hkind]
  · rw [setPhase_phase_of_ne tasks n phase heq]

theorem setWork {work : Work P} (hqueued : (tasks n).phase = .queued) (hkind : work.kind = (tasks n).work.kind) : Ran
    (setWork tasks n work) enqueued history := by
  refine h.congr (setWork_sandboxId tasks n work) (setWork_kind tasks n hkind)
    (fun k _ _ => by rw [setWork_phase]) ?_ fun _ => rfl
  intro k _ hgiven
  have hne : k ≠ n := by
    rintro rfl
    exact hgiven.1 hqueued
  exact setWork_work_of_ne tasks n work hne

/-- A queued task has not run. -/
theorem enqueue {task : Task P} (hqueued : task.phase = .queued) : Ran (update tasks enqueued task) (enqueued + 1)
    history := by
  intro k hk command hcommand hgiven hlater
  rcases lt_or_eq_of_le (le_of_lt_succ hk) with hk | rfl
  · rw [update_of_ne (Nat.ne_of_lt hk)] at hcommand hgiven ⊢
    refine h k hk command hcommand hgiven fun m hm hlt hsame hkind => ?_
    have hnot := hlater m (lt_succ_of_lt hm) hlt
    rw [update_of_ne (Nat.ne_of_lt hm), update_of_ne (Nat.ne_of_lt hk)] at hnot
    exact hnot hsame hkind
  · rw [update_self] at hgiven
    exact absurd hqueued hgiven.1

theorem give {chains : ℕ → Option ℕ} {phase : Phase} {command : Command P} (horder : InOrder tasks chains enqueued)
    (hn : n < enqueued) (hlive : (tasks n).phase ≠ .settled) (hgiven : phase.Given)
    (hwork : (tasks n).work = .lifecycle command) : Ran (Lifecycle.setPhase tasks n phase) enqueued
    (.ran (tasks n).sandboxId command :: history) := by
  intro k hk command' hcommand hphase hlater
  rw [setPhase_work] at hcommand
  rw [setPhase_sandboxId, lastRan_ran]
  by_cases hbox : (tasks n).sandboxId = (tasks k).sandboxId
  · rw [if_pos hbox]
    rcases lt_trichotomy k n with hlt | rfl | hlt
    · -- the task that is given comes later
      have hnot := hlater n hn hlt
      rw [setPhase_sandboxId, setPhase_sandboxId, setPhase_work, setPhase_phase_self, hwork] at hnot
      exact absurd hgiven (hnot hbox (kind_lifecycle_ne command))
    · rw [hwork] at hcommand
      exact congrArg some (Work.lifecycle.inj hcommand)
    · -- nothing behind the task has begun
      rw [setPhase_phase_of_ne tasks n phase (ne_of_gt hlt)] at hphase
      exact absurd (horder.queued_of_lt hlive hk hlt hbox) hphase.1
  · rw [if_neg hbox]
    have hne : k ≠ n := by
      rintro rfl
      exact hbox rfl
    rw [setPhase_phase_of_ne tasks n phase hne] at hphase
    refine h k hk command' hcommand hphase fun m hm hlt hsame hkind => ?_
    have hnot := hlater m hm hlt
    have hne' : m ≠ n := by
      rintro rfl
      exact hbox hsame
    rw [setPhase_sandboxId, setPhase_sandboxId, setPhase_work, setPhase_phase_of_ne tasks n phase hne'] at hnot
    exact hnot hsame hkind

end

end Ran

/-- The last command claimed for a sandbox asks for what its last lifecycle task does. -/
def Latest (payloadHash : P → H) (tasks : ℕ → Task P) (enqueued : ℕ) (history : List (Entry P)) : Prop :=
  ∀ id command, lastClaimed id history = some command →
    ∃ n < enqueued, (tasks n).sandboxId = id ∧
      (∃ own, (tasks n).work = .lifecycle own ∧ own.Answers payloadHash command) ∧
        ∀ m < enqueued, n < m → (tasks m).sandboxId = id → (tasks m).work.kind = .other

end History

end Onecli.Runner.Lifecycle
