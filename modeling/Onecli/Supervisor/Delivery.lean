import Onecli.Foundation.Causal
import Onecli.Foundation.Runs
import Onecli.Supervisor.Transport
import Mathlib.Data.List.TakeWhile

/-!
# The channel delivers every frame once and in order

The runner's cursor tolerates gaps, so a frame that reaches it ahead of an older one makes it drop the older one for
good. Nothing gets ahead on a socket whose hand-off the supervisor has read: what it wrote there goes on from the
runner's cursor. Between a socket's opening and its hand-off, though, a send still goes on from where the last socket
was, although that one may have lost what was written to it.
-/

namespace Onecli.Supervisor

open Function (update update_of_ne update_self)
open List Option Bool Nat

/-- The number of a frame. -/
def Frame.number (f : Frame) : ℕ := f.seq.getD 0

section Loop

variable {needs : Frame → Frame → Prop} {known : Frame → Prop}

variable {sentUpTo : ℕ} {out : List Frame}

theorem mem_of_mem_writes {f : Frame} (h : f ∈ (World.writes sentUpTo out).1) : f ∈ out := by
  induction out generalizing sentUpTo with
  | nil => exact h
  | cons g rest ih =>
    rw [World.writes] at h
    split at h
    · exact (mem_cons.mp h).elim (fun heq => heq ▸ mem_cons_self) fun h => mem_cons_of_mem g (ih h)
    · split at h
      · exact (mem_cons.mp h).elim (fun heq => heq ▸ mem_cons_self) fun h => mem_cons_of_mem g (ih h)
      · exact mem_cons_of_mem g (ih h)

theorem writes_le {sentUpTo bound : ℕ} (hsent : sentUpTo ≤ bound) (hout : ∀ f ∈ out, f.number ≤ bound) :
    (World.writes sentUpTo out).2 ≤ bound := by
  induction out generalizing sentUpTo with
  | nil => exact hsent
  | cons g rest ih =>
    have hrest (f : Frame) (hf : f ∈ rest) : f.number ≤ bound := hout f (mem_cons_of_mem g hf)
    have hg := hout g mem_cons_self
    rw [World.writes]
    split
    · exact ih hsent hrest
    · rename_i seq hseq
      rw [Frame.number, hseq, getD_some] at hg
      split
      · exact ih hg hrest
      · exact ih hsent hrest

/-- The numbered frames of a buffer are in the order of their numbers. -/
def InSequence (out : List Frame) : Prop := (out.filter (·.seq.isSome)).Pairwise fun f g => f.number < g.number

theorem InSequence.lt {f g : Frame} {rest : List Frame} (h : InSequence (f :: rest)) (hf : f.seq.isSome)
    (hg : g ∈ rest) (hnum : g.seq.isSome) : f.number < g.number := by
  rw [InSequence, filter_cons_of_pos (p := fun f : Frame => f.seq.isSome) hf] at h
  exact (pairwise_cons.mp h).1 g (mem_filter.mpr ⟨hg, hnum⟩)

theorem InSequence.tail {f : Frame} {rest : List Frame} (h : InSequence (f :: rest)) : InSequence rest :=
  h.sublist ((sublist_cons_self f rest).filter _)

theorem mem_writes (hout : InSequence out) {f : Frame} (hf : f ∈ out) (hnum : f.seq.isSome)
    (habove : sentUpTo < f.number) : f ∈ (World.writes sentUpTo out).1 := by
  induction out generalizing sentUpTo with
  | nil => exact hf
  | cons g rest ih =>
    rw [World.writes]
    rcases mem_cons.mp hf with rfl | hrest
    · obtain ⟨seq, hseq⟩ := isSome_iff_exists.mp hnum
      rw [Frame.number, hseq, getD_some] at habove
      simp only [hseq, if_pos habove]
      exact mem_cons_self
    · split
      · exact mem_cons_of_mem g (ih hout.tail hrest habove)
      · rename_i seq hseq
        split
        · have hlt := hout.lt (by rw [hseq]; rfl) hrest hnum
          rw [Frame.number, hseq, getD_some] at hlt
          exact mem_cons_of_mem g (ih hout.tail hrest hlt)
        · exact ih hout.tail hrest habove

/-- What `flush` writes is ordered over what is known, where a numbered frame needs only that and smaller numbers of
the buffer above the write cursor. -/
theorem writes_ordered (hout : InSequence out)
    (hneeds : ∀ f ∈ out, ∀ g, needs f g → f.seq.isSome ∧ g.seq.isSome ∧ g.number < f.number ∧ (known g ∨ g ∈ out ∧ sentUpTo < g.number)) :
    Causal.Ordered needs known (World.writes sentUpTo out).1 := by
  induction out generalizing sentUpTo known with
  | nil => trivial
  | cons f rest ih =>
    -- the first frame needs nothing that comes after it
    have hfirst (g : Frame) (hg : needs f g) : known g := by
      obtain ⟨hf, hnum, hlt, hknown | ⟨hmem, -⟩⟩ := hneeds f mem_cons_self g hg
      · exact hknown
      · rcases mem_cons.mp hmem with rfl | hmem
        · omega
        · have := hout.lt hf hmem hnum
          omega
    have hlater (cursor : ℕ) (hcursor : ∀ g ∈ rest, g.seq.isSome → sentUpTo < g.number → cursor < g.number) :
        Causal.Ordered needs (fun g => known g ∨ g = f) (World.writes cursor rest).1 := by
      refine ih hout.tail fun a ha g hg => ?_
      obtain ⟨hf, hnum, hlt, hknown⟩ := hneeds a (mem_cons_of_mem f ha) g hg
      refine ⟨hf, hnum, hlt, ?_⟩
      rcases hknown with hknown | ⟨hmem, habove⟩
      · exact .inl (.inl hknown)
      · rcases mem_cons.mp hmem with rfl | hmem
        · exact Or.inl (Or.inr rfl)
        · exact Or.inr ⟨hmem, hcursor g hmem hnum habove⟩
    rw [World.writes]
    split
    · exact ⟨hfirst, hlater sentUpTo fun _ _ _ h => h⟩
    · rename_i seq hseq
      have hnumber : f.number = seq := by rw [Frame.number, hseq, getD_some]
      split
      · refine ⟨hfirst, hlater seq fun g hg hnum _ => ?_⟩
        rw [← hnumber]
        exact hout.lt (by rw [hseq]; rfl) hg hnum
      · refine ih hout.tail fun a ha g hg => ?_
        obtain ⟨hf, hnum, hlt, hknown⟩ := hneeds a (mem_cons_of_mem f ha) g hg
        refine ⟨hf, hnum, hlt, hknown.imp_right fun ⟨hmem, habove⟩ => ⟨?_, habove⟩⟩
        rcases mem_cons.mp hmem with rfl | hmem
        · omega
        · exact hmem

end Loop

/-- The position that an item of the runner tells. -/
def WorkItem.position : WorkItem → Option ℕ
  | .session _ position => some position
  | .ack position => some position
  | _ => none

namespace World

/-- A numbered frame needs the frames with smaller numbers. -/
def needs (w : World) (f g : Frame) : Prop := f.seq.isSome ∧ g ∈ w.frames ∧ g.number < f.number

/-- A frame that is not waited for: the runner is past it, or the watchdog threw it away. -/
def settled (w : World) (g : Frame) : Prop := g ∈ w.thrown ∨ g.number ≤ w.cursor

/-- What the transport wrote to its current socket up to its cursor, the runner has or is on its way there. -/
def Truthful (w : World) (i : ℕ) : Prop :=
  ¬ (w.sockets i).lost → ∀ f ∈ w.transport.outbound, f.seq.isSome → f.number ≤ w.transport.sentUpTo →
    f.number ≤ w.cursor ∨ f ∈ (w.sockets i).up

/-- What the steps in order keep. -/
structure Sound (schema : SupervisorMessage → Bool) (w : World) : Prop where
  sequence : w.frames.Pairwise fun f g => f.number < g.number
  numbered : ∀ f ∈ w.frames, f.seq.isSome ∧ f.number ≤ w.transport.nextSeq
  bare : w.transport.session = none → w.frames = []
  accepted : ∀ f ∈ w.frames, schema f.message
  passed : (w.frames.map Frame.message).filter SupervisorMessage.lasting = w.sent.filter SupervisorMessage.lasting
  buffer : (w.transport.outbound.filter (·.seq.isSome)).Sublist w.frames
  known : ∀ f ∈ w.frames, f ∈ w.transport.outbound ∨ w.settled f
  beats : ∀ f ∈ w.thrown, f.message.kind = "heartbeat" ∨ f ∈ w.received
  received : ∀ f ∈ w.received, f.seq.isSome → f ∈ w.frames ∧ f.number ≤ w.cursor
  applied : ∀ f ∈ w.frames, f.number ≤ w.cursor → f ∈ w.received ∨ f ∈ w.thrown
  delivered : (w.received.filter (·.seq.isSome)).filter (·.message.lasting) =
    (w.frames.filter (·.number ≤ w.cursor)).filter (·.message.lasting)
  sound : ∀ i, ∀ f ∈ (w.sockets i).up, f.seq.isSome → f ∈ w.frames
  ordered : ∀ i, Causal.Ordered w.needs w.settled (w.sockets i).up
  told : ∀ i, ∀ item ∈ (w.sockets i).down, ∀ n ∈ item.position, n ≤ w.cursor
  cursor_le : w.cursor ≤ w.transport.nextSeq
  sent_le : w.transport.sentUpTo ≤ w.transport.nextSeq
  truthful : ∀ i, w.transport.socket = some i → (w.sockets i).handed → w.Truthful i

variable {schema : SupervisorMessage → Bool} {w : World}

theorem Sound.inSequence (h : w.Sound schema) : InSequence w.transport.outbound := h.sequence.sublist h.buffer

variable {f : Frame} {t : Transport} {i : ℕ} {m : SupervisorMessage} {rest : List Frame}

section

variable (h : w.Sound schema)
include h

theorem Sound.mem_frames (hf : f ∈ w.transport.outbound) (hnum : f.seq.isSome) : f ∈ w.frames :=
  h.buffer.subset (mem_filter.mpr ⟨hf, hnum⟩)

/-- Commands are applied in the order of their sends. -/
theorem Sound.inOrder : w.InOrder := by
  have hsame : w.delivered =
      ((w.frames.filter (·.number ≤ w.cursor)).map Frame.message).filter SupervisorMessage.lasting := by
    rw [World.delivered, List.filter_map, List.filter_map]
    exact congrArg _ h.delivered
  rw [InOrder, hsame, ← h.passed]
  exact ((Causal.filter_le_isPrefix h.sequence w.cursor).map Frame.message).filter _

/-- No command is lost that was not refused. -/
theorem Sound.kept : w.Kept := by
  have hthrown (f : Frame) (hf : f ∈ w.thrown) : f ∈ w.received ∨ f ∈ w.thrown ∧ f.message.kind = "heartbeat" :=
    (h.beats f hf).symm.imp_right fun hkind => ⟨hf, hkind⟩
  intro f hf
  rcases h.known f hf with hout | hout | hle
  · exact .inl hout
  · exact .inr (hthrown f hout)
  · exact .inr ((h.applied f hf hle).elim .inl (hthrown f))

/-- Nothing changes for the frames where the transport keeps its buffer and its numbers, or trims the buffer to what
the runner has. -/
theorem Sound.transport (hsess : t.session = w.transport.session) (hnext : t.nextSeq = w.transport.nextSeq)
    (hsent : t.sentUpTo = w.transport.sentUpTo) (hout : t.outbound.Sublist w.transport.outbound)
    (hsettled : ∀ f ∈ w.transport.outbound, f ∈ t.outbound ∨ w.settled f)
    (hsocket : ∀ i, t.socket = some i → w.transport.socket = some i) : { w with transport := t }.Sound schema where
  __ := h
  numbered := fun f hf => hnext ▸ h.numbered f hf
  bare := fun hnone => h.bare (hsess ▸ hnone)
  buffer := (hout.filter _).trans h.buffer
  known := fun f hf => (h.known f hf).elim (hsettled f) Or.inr
  cursor_le := hnext ▸ h.cursor_le
  sent_le := by
    rw [hsent, hnext]
    exact h.sent_le
  truthful := by
    intro i hi hhanded hlost f hf hnum hle
    rw [hsent] at hle
    exact h.truthful i (hsocket i hi) hhanded hlost f (hout.subset hf) hnum hle

/-- Nothing changes for the frames where the sockets keep what is on its way up, or lose the end of it, and bring down
no position that the runner has not reached. -/
theorem Sound.sockets {sockets : ℕ → Socket} (hup : ∀ i, ∃ n, (sockets i).up = (w.sockets i).up.take n)
    (hdown : ∀ i, ∀ item ∈ (sockets i).down, item ∈ (w.sockets i).down ∨ ∀ n ∈ item.position, n ≤ w.cursor)
    (hcur : ∀ i, (sockets i).handed → ¬ (sockets i).lost → (w.sockets i).handed ∧ ¬ (w.sockets i).lost ∧
    (sockets i).up = (w.sockets i).up) :
    { w with sockets := sockets }.Sound schema where
  __ := h
  sound := by
    intro i f hf hnum
    obtain ⟨n, hn⟩ := hup i
    rw [hn] at hf
    exact h.sound i f (mem_of_mem_take hf) hnum
  ordered := by
    intro i
    obtain ⟨n, hn⟩ := hup i
    rw [hn]
    exact (h.ordered i).take n
  told := fun i item hitem n hn => (hdown i item hitem).elim (fun hold => h.told i item hold n hn) fun hnew => hnew n hn
  truthful := by
    intro i hi hhanded hlost f hf hnum hle
    obtain ⟨hhanded', hlost', hsame⟩ := hcur i hhanded hlost
    rw [hsame]
    exact h.truthful i hi hhanded' hlost' f hf hnum hle

/-- One socket changes, the rest stays in order. -/
theorem Sound.socket (i : ℕ) {s : Socket} (hup : ∃ n, s.up = (w.sockets i).up.take n)
    (hdown : ∀ item ∈ s.down, item ∈ (w.sockets i).down ∨ ∀ n ∈ item.position, n ≤ w.cursor)
    (hcur : s.handed → ¬ s.lost → (w.sockets i).handed ∧ ¬ (w.sockets i).lost ∧ s.up = (w.sockets i).up) :
    { w with sockets := update w.sockets i s }.Sound schema := by
  refine h.sockets (fun j => ?_) (fun j => ?_) fun j => ?_ <;> by_cases hj : j = i
  · rw [hj, update_self]
    exact hup
  · rw [update_of_ne hj]
    exact ⟨_, take_length.symm⟩
  · rw [hj, update_self]
    exact hdown
  · rw [update_of_ne hj]
    exact fun item hitem => .inl hitem
  · rw [hj, update_self]
    exact hcur
  · rw [update_of_ne hj]
    exact fun hhanded hlost => ⟨hhanded, hlost, rfl⟩

theorem Sound.write {i sentUpTo : ℕ} {written outbound : List Frame} (hcur : w.transport.socket = some i)
    (hout : outbound.filter (·.seq.isSome) = w.transport.outbound.filter (·.seq.isSome))
    (hwritten : ∀ f ∈ written, f ∈ w.transport.outbound) (hord : ¬ (w.sockets i).lost → Causal.Ordered w.needs
    (fun g => w.settled g ∨ g ∈ (w.sockets i).up) written) (hsent : sentUpTo ≤ w.transport.nextSeq)
    (htruth : ¬ (w.sockets i).lost → ∀ f ∈ outbound, f.seq.isSome → f.number ≤ sentUpTo → f.number ≤ w.cursor ∨ f ∈
    (w.sockets i).up ∨ f ∈ written) :
    { w with
      transport := { w.transport with outbound := outbound, sentUpTo := sentUpTo }
      sockets := update w.sockets i ((w.sockets i).write written) }.Sound schema where
  __ := h
  buffer := by
    rw [hout]
    exact h.buffer
  known := by
    intro f hf
    refine (h.known f hf).imp_left fun hmem => ?_
    have hin : f ∈ w.transport.outbound.filter (·.seq.isSome) := mem_filter.mpr ⟨hmem, (h.numbered f hf).1⟩
    rw [← hout] at hin
    exact (mem_filter.mp hin).1
  sound := by
    intro j f hf hnum
    obtain ⟨-, hf⟩ | ⟨-, hf⟩ := update_holds (f ∈ Socket.up ·) hf
    · rw [Socket.write] at hf
      split at hf
      · exact h.sound i f hf hnum
      · rcases mem_append.mp hf with hf | hf
        · exact h.sound i f hf hnum
        · exact h.mem_frames (hwritten f hf) hnum
    · exact h.sound j f hf hnum
  ordered := by
    intro j
    change Causal.Ordered w.needs w.settled (update w.sockets i ((w.sockets i).write written) j).up
    by_cases hj : j = i
    · rw [hj, update_self, Socket.write]
      split
      · exact h.ordered i
      · rename_i hlost
        exact (Causal.ordered_append_iff _ _).mpr ⟨h.ordered i, hord hlost⟩
    · rw [update_of_ne hj]
      exact h.ordered j
  told := by
    intro j item hitem
    obtain ⟨-, hitem⟩ | ⟨-, hitem⟩ := update_holds (item ∈ Socket.down ·) hitem
    · rw [Socket.write] at hitem
      split at hitem <;> exact h.told i item hitem
    · exact h.told j item hitem
  sent_le := hsent
  truthful := by
    intro j hj hhanded hlost f hf hnum hle
    obtain rfl : i = j := some.inj (hcur.symm.trans hj)
    change ¬ (update w.sockets i ((w.sockets i).write written) i).lost at hlost
    change f.number ≤ w.cursor ∨ f ∈ (update w.sockets i ((w.sockets i).write written) i).up
    rw [update_self, Socket.write] at hlost ⊢
    split at hlost
    · contradiction
    · rename_i hopen
      rw [if_neg hopen]
      exact (htruth hopen f hf hnum hle).imp_right mem_append.mpr

end

theorem socket_of_openSocket (h : w.openSocket = some i) :
    w.transport.socket = some i ∧ (w.sockets i).readyState = .open := by
  obtain ⟨hsocket, hopen⟩ := filter_eq_some_iff.mp h
  exact ⟨hsocket, of_decide_eq_true hopen⟩

/-- `flush` writes in order what the runner lacks, where the write cursor is right for the open socket. -/
theorem Sound.flush (h : w.Sound schema)
    (htruth : ∀ i, w.openSocket = some i → w.transport.session.isSome → w.Truthful i) : w.flush.Sound schema := by
  rw [World.flush]
  cases hopen : w.openSocket with
  | none => exact h
  | some i =>
    have hcur := (socket_of_openSocket hopen).1
    cases hsess : w.transport.session with
    | none =>
      have hframes := h.bare hsess
      have hbare : w.transport.outbound.filter (·.seq.isSome) = [] := by
        have := h.buffer
        rw [hframes] at this
        exact sublist_nil.mp this
      refine h.write hcur hbare.symm (fun f hf => hf) (fun _ => ?_) h.sent_le fun _ f hf => ?_
      · refine Causal.ordered_of_free fun f _ g hneeds => ?_
        have hg := hneeds.2.1
        rw [hframes] at hg
        cases hg
      · cases hf
    | some =>
      have htrue := htruth i hopen (by rw [hsess]; rfl)
      have hout := h.inSequence
      refine h.write hcur ?_ (fun f => mem_of_mem_writes) (fun hlost => ?_) ?_ fun hlost f hf hnum hle => ?_
      · rw [List.filter_filter]
        exact filter_congr fun f _ => Bool.and_self _
      · refine writes_ordered hout fun f hf g hneeds => ?_
        have hnum := (h.numbered g hneeds.2.1).1
        refine ⟨hneeds.1, hnum, hneeds.2.2, ?_⟩
        rcases h.known g hneeds.2.1 with hmem | hsettled
        · by_cases hle : g.number ≤ w.transport.sentUpTo
          · rcases htrue hlost g hmem hnum hle with hpast | hup
            · exact Or.inl (Or.inl (Or.inr hpast))
            · exact Or.inl (Or.inr hup)
          · exact .inr ⟨hmem, Nat.lt_of_not_le hle⟩
        · exact .inl (.inl hsettled)
      · refine writes_le h.sent_le fun f hf => ?_
        cases hseq : f.seq with
        | none =>
          rw [Frame.number, hseq]
          exact zero_le _
        | some => exact (h.numbered f (h.mem_frames hf (by rw [hseq]; rfl))).2
      · have hmem := (mem_filter.mp hf).1
        by_cases hbelow : f.number ≤ w.transport.sentUpTo
        · rcases htrue hlost f hmem hnum hbelow with hpast | hup
          · exact .inl hpast
          · exact .inr (.inl hup)
        · exact .inr (.inr (mem_writes hout hmem hnum (Nat.lt_of_not_le hbelow)))

theorem flush_sent (w : World) (sent : List SupervisorMessage) :
    { w.flush with sent := sent } = World.flush { w with sent := sent } := by
  have hsame : World.openSocket { w with sent := sent } = w.openSocket := rfl
  rw [World.flush, World.flush, hsame]
  cases w.openSocket with
  | none => rfl
  | some => cases w.transport.session <;> rfl

/-- A message is recorded where it is passed to `send`, and nowhere else. -/
theorem sent_transportSend (w : World) (m : SupervisorMessage) : (w.transportSend m).sent = w.sent := by
  have hflush (w : World) : w.flush.sent = w.sent := (congrArg World.sent (flush_sent w w.sent)).symm
  rw [World.transportSend]
  split
  · rfl
  · split <;> exact hflush _

theorem outbound_push (f : Frame) (hroom : t.outbound.length < maxOutboundMessages) :
    (t.push f).outbound = t.outbound ++ [f] := by
  have hnone : t.outbound.length + 1 - maxOutboundMessages = 0 := Nat.sub_eq_zero_of_le hroom
  rw [Transport.push, hnone, drop_zero]

section

variable (h : w.Sound schema)
include h

theorem Sound.bareFrame (hbare : f.seq = none) (hsess : t.session = w.transport.session)
    (hnext : t.nextSeq = w.transport.nextSeq) (hsent : t.sentUpTo = w.transport.sentUpTo)
    (hsocket : t.socket = w.transport.socket) (hout : t.outbound = w.transport.outbound ++ [f]) :
    { w with transport := t }.Sound schema where
  __ := h
  numbered := fun g hg => hnext ▸ h.numbered g hg
  bare := fun hnone => h.bare (hsess ▸ hnone)
  buffer := by
    have hnone : [f].filter (·.seq.isSome) = [] := by
      rw [filter_cons_of_neg (by rw [hbare]; exact Bool.false_ne_true), filter_nil]
    rw [hout, filter_append, hnone, append_nil]
    exact h.buffer
  known := by
    intro g hg
    refine (h.known g hg).imp_left fun hmem => ?_
    rw [hout]
    exact mem_append_left _ hmem
  cursor_le := hnext ▸ h.cursor_le
  sent_le := by
    rw [hsent, hnext]
    exact h.sent_le
  truthful := by
    intro i hi hhanded hlost g hg hnum hle
    rw [hsent] at hle
    rw [hout] at hg
    rcases mem_append.mp hg with hg | hg
    · exact h.truthful i (hsocket ▸ hi) hhanded hlost g hg hnum hle
    · rw [mem_singleton.mp hg, hbare] at hnum
      cases hnum

theorem Sound.numberedFrame {sent : List SupervisorMessage} (haccepts : schema m)
    (hf : f = ⟨some (w.transport.nextSeq + 1), m⟩) (hheld : t.session.isSome)
    (hnext : t.nextSeq = w.transport.nextSeq + 1) (hsentUpTo : t.sentUpTo = w.transport.sentUpTo)
    (hsocket : t.socket = w.transport.socket) (hout : t.outbound = w.transport.outbound ++ [f])
    (hsent : sent.filter SupervisorMessage.lasting = w.sent.filter SupervisorMessage.lasting ++ [m].filter SupervisorMessage.lasting) :
    World.Sound schema { w with transport := t, frames := w.frames ++ [f], sent := sent } := by
  have hnumber : f.number = w.transport.nextSeq + 1 := by rw [hf, Frame.number, getD_some]
  have hsome : f.seq.isSome := by rw [hf]; rfl
  -- the new frame has a number above all others
  have hlast (g : Frame) (hg : g ∈ w.frames) : g.number < f.number := by
    have := (h.numbered g hg).2
    omega
  have hcursor : w.cursor < f.number := by
    have := h.cursor_le
    omega
  have hcases {P : Frame → Prop} (hold : ∀ g ∈ w.frames, P g) (hnew : P f) : ∀ g ∈ w.frames ++ [f], P g := by
    intro g hg
    rcases mem_append.mp hg with hg | hg
    · exact hold g hg
    · rw [mem_singleton.mp hg]
      exact hnew
  constructor
  case sequence =>
    refine pairwise_append.mpr ⟨h.sequence, pairwise_singleton _ _, fun a ha b hb => ?_⟩
    rw [mem_singleton.mp hb]
    exact hlast a ha
  case numbered =>
    refine hcases (fun g hg => ⟨(h.numbered g hg).1, ?_⟩) ⟨hsome, ?_⟩
    · have := (h.numbered g hg).2
      change g.number ≤ t.nextSeq
      omega
    · change f.number ≤ t.nextSeq
      omega
  case bare =>
    intro hnone
    rw [hnone] at hheld
    cases hheld
  case accepted => exact hcases h.accepted (by rw [hf]; exact haccepts)
  case passed =>
    change ((w.frames ++ [f]).map Frame.message).filter SupervisorMessage.lasting =
      sent.filter SupervisorMessage.lasting
    rw [map_append, filter_append, h.passed, hsent, hf]
    rfl
  case buffer =>
    rw [hout, filter_append]
    exact h.buffer.append filter_sublist
  case known =>
    rw [hout]
    exact hcases (fun g hg => (h.known g hg).imp_left (mem_append_left _))
      (.inl (mem_append_right _ (mem_singleton_self f)))
  case beats => exact h.beats
  case received =>
    exact fun g hg hnum => ⟨mem_append_left _ (h.received g hg hnum).1, (h.received g hg hnum).2⟩
  case applied => exact hcases h.applied fun hle => absurd hle (Nat.not_le_of_lt hcursor)
  case delivered =>
    have hnot : [f].filter (·.number ≤ w.cursor) = [] := by
      rw [filter_cons_of_neg (by simpa using hcursor), filter_nil]
    rw [filter_append, hnot, append_nil]
    exact h.delivered
  case sound => exact fun i g hg hnum => mem_append_left _ (h.sound i g hg hnum)
  case ordered =>
    refine fun i => (h.ordered i).imp fun a ha b hneeds => ⟨⟨hneeds.1, ?_, hneeds.2.2⟩, id⟩
    rcases mem_append.mp hneeds.2.1 with hb | hb
    · exact hb
    · have := hlast a (h.sound i a ha hneeds.1)
      have := hneeds.2.2
      rw [mem_singleton.mp hb] at this
      omega
  case told => exact h.told
  case cursor_le =>
    have := h.cursor_le
    change w.cursor ≤ t.nextSeq
    omega
  case sent_le =>
    have := h.sent_le
    change t.sentUpTo ≤ t.nextSeq
    omega
  case truthful =>
    intro i hi hhanded hlost g hg hnum hle
    rw [hsentUpTo] at hle
    rw [hout] at hg
    rcases mem_append.mp hg with hg | hg
    · exact h.truthful i (hsocket ▸ hi) hhanded hlost g hg hnum hle
    · have := h.sent_le
      rw [mem_singleton.mp hg] at hle
      omega

theorem Sound.truthful_of_sendable (hsend : Sendable schema w m) (hopen : w.openSocket = some i)
    (hsess : w.transport.session.isSome) : w.Truthful i := by
  by_cases hhanded : (w.sockets i).handed
  · exact h.truthful i (socket_of_openSocket hopen).1 hhanded
  · intro hlost f hf hnum hle
    have hawaiting : w.awaiting = true := by
      rw [World.awaiting, hopen, hsess, any_some, eq_false_iff.mpr hhanded, eq_false_iff.mpr hlost]
      rfl
    have hcaught := List.all_eq_true.mp (hsend.2.2 hawaiting) f hf
    obtain ⟨seq, hseq⟩ := isSome_iff_exists.mp hnum
    rw [Frame.number, hseq, getD_some] at hle
    rw [hseq, all_some, or_eq_true, decide_eq_true_iff, decide_eq_true_iff] at hcaught
    rcases hcaught with hlt | hreceived
    · omega
    · exact .inl (h.received f hreceived hnum).2

theorem Sound.transportSend (hsend : Sendable schema w m) (sent : List SupervisorMessage)
    (hsent : sent.filter SupervisorMessage.lasting = w.sent.filter SupervisorMessage.lasting ++ if w.transport.session.isSome then [m].filter SupervisorMessage.lasting else []) :
    World.Sound schema { w.transportSend m with sent := sent } := by
  have hkeeps (hnone : (if w.transport.session.isSome then [m].filter SupervisorMessage.lasting else []) = []) :
      World.Sound schema { w with sent := sent } := by
    rw [hnone, append_nil] at hsent
    exact { h with passed := h.passed.trans hsent.symm }
  have hright (i : ℕ) (hopen : w.openSocket = some i) (hsess : w.transport.session.isSome) : w.Truthful i :=
    h.truthful_of_sendable hsend hopen hsess
  rw [World.transportSend]
  split
  · rename_i hdropped
    refine hkeeps ?_
    have hfleeting : m.lasting = false := by
      rw [SupervisorMessage.lasting, (and_eq_true_iff.mp hdropped).1]
      rfl
    rw [filter_cons_of_neg (by simpa using hfleeting), filter_nil, ite_self]
  · split
    · rename_i hsess
      rw [flush_sent]
      have hbare := (hkeeps (by rw [hsess]; rfl)).bareFrame (t := w.transport.push ⟨none, m⟩)
        (f := ⟨none, m⟩) rfl rfl rfl rfl rfl (outbound_push _ hsend.2.1)
      refine hbare.flush fun i _ hheld => ?_
      change w.transport.session.isSome = true at hheld
      rw [hsess] at hheld
      cases hheld
    · rename_i credential hsess
      have hheld : w.transport.session.isSome := by rw [hsess]; rfl
      rw [if_pos hheld] at hsent
      rw [flush_sent]
      have hout := outbound_push (t := { w.transport with nextSeq := w.transport.nextSeq + 1 })
        ⟨some (w.transport.nextSeq + 1), m⟩ hsend.2.1
      have hnum := h.numberedFrame
        (t := { w.transport with nextSeq := w.transport.nextSeq + 1 }.push ⟨some (w.transport.nextSeq + 1), m⟩)
        hsend.1 rfl hheld rfl rfl rfl hout hsent
      refine hnum.flush fun i hopen _ hlost f hf hnum hle => ?_
      rw [hout] at hf
      rcases mem_append.mp hf with hf | hf
      · exact hright i hopen hheld hlost f hf hnum hle
      · have := h.sent_le
        change f.number ≤ w.transport.sentUpTo at hle
        rw [mem_singleton.mp hf, Frame.number, getD_some] at hle
        omega

theorem Sound.acknowledge {ack : ℕ} (hack : ack ≤ w.cursor) (now : ℕ) :
    { w with transport := w.transport.acknowledge ack now }.Sound schema := by
  refine h.transport rfl rfl rfl (dropWhile_sublist _) (fun f hf => ?_) fun _ hi => hi
  rw [← takeWhile_append_dropWhile (p := fun f : Frame => f.seq.any (· ≤ ack)) (l := w.transport.outbound)] at hf
  refine (mem_append.mp hf).symm.imp_right fun htaken => .inr ?_
  have hle := mem_takeWhile_imp htaken
  cases hseq : f.seq with
  | none =>
    rw [hseq] at hle
    cases hle
  | some =>
    rw [hseq, any_some, decide_eq_true_iff] at hle
    rw [Frame.number, hseq]
    exact le_trans hle hack

/-- The transport's other fields do not matter. -/
theorem Sound.flags (hsess : t.session = w.transport.session) (hnext : t.nextSeq = w.transport.nextSeq)
    (hsent : t.sentUpTo = w.transport.sentUpTo) (hout : t.outbound = w.transport.outbound)
    (hsocket : ∀ i, t.socket = some i → w.transport.socket = some i) :
    { w with transport := t }.Sound schema :=
  h.transport hsess hnext hsent (hout ▸ List.Sublist.refl _) (fun _ hf => .inl (hout ▸ hf)) hsocket

end

theorem scheduleReconnect_eq (t : Transport) : ∃ closed reconnectTimer,
    t.scheduleReconnect = { t with closed := closed, reconnectTimer := reconnectTimer } := by
  rw [Transport.scheduleReconnect]
  split
  · exact ⟨t.closed, t.reconnectTimer, rfl⟩
  · split
    · exact ⟨true, t.reconnectTimer, rfl⟩
    · exact ⟨t.closed, true, rfl⟩

section

variable (h : w.Sound schema)
include h

theorem Sound.scheduleReconnect :
    { w with transport := w.transport.stopLiveness.scheduleReconnect }.Sound schema := by
  obtain ⟨closed, reconnectTimer, heq⟩ := scheduleReconnect_eq w.transport.stopLiveness
  rw [heq]
  exact h.flags rfl rfl rfl rfl fun i hi => hi

theorem Sound.connect : w.connect.Sound schema := by
  rw [World.connect]
  split
  · exact h
  · have hdialled : World.Sound schema { w with sockets := update w.sockets w.dialled .dialled } :=
      h.socket w.dialled ⟨0, rfl⟩ (fun item hitem => by cases hitem) fun hhanded => by cases hhanded
    exact {
      sequence := h.sequence
      numbered := h.numbered
      bare := h.bare
      accepted := h.accepted
      passed := h.passed
      buffer := h.buffer
      known := h.known
      beats := h.beats
      received := h.received
      applied := h.applied
      delivered := h.delivered
      sound := hdialled.sound
      ordered := hdialled.ordered
      told := hdialled.told
      cursor_le := h.cursor_le
      sent_le := h.sent_le
      truthful := by
        intro i hi hhanded
        cases hi
        change (update w.sockets w.dialled .dialled w.dialled).handed = true at hhanded
        rw [update_self] at hhanded
        cases hhanded }

/-- A socket's ready state does not matter. -/
theorem Sound.readyState (i : ℕ) (readyState : ReadyState) :
    World.Sound schema { w with
      sockets := update w.sockets i { w.sockets i with readyState := readyState } } :=
  h.socket i ⟨_, take_length.symm⟩ (fun _ hitem => .inl hitem) fun hhanded hlost => ⟨hhanded, hlost, rfl⟩

theorem Sound.onOpen (i now : ℕ) : (w.onOpen i now).Sound schema := by
  have hopened := h.readyState i .open
  rw [World.onOpen]
  dsimp only
  split
  · split
    · rename_i hnone
      refine .flush (hopened.flags rfl rfl rfl rfl fun j hj => hj) fun j _ hheld => ?_
      rw [isNone_iff_eq_none.mp hnone] at hheld
      cases hheld
    · exact hopened.flags rfl rfl rfl rfl fun j hj => hj
  · exact hopened

theorem Sound.onSession (i : ℕ) (credential : String) {ack : ℕ} (hack : ack ≤ w.cursor) (now : ℕ) :
    (w.onSession i credential ack now).Sound schema := by
  have hacked := h.acknowledge hack now
  have hpositioned (t : Transport) (hsess : t.session.isSome) (hnext : t.nextSeq = w.transport.nextSeq)
      (hsent : t.sentUpTo = ack) (hout : t.outbound = (w.transport.acknowledge ack now).outbound) :
      World.Sound schema { w with
        transport := t
        sockets := update w.sockets i { w.sockets i with handed := true } } ∧
      ∀ j, World.Truthful { w with
        transport := t
        sockets := update w.sockets i { w.sockets i with handed := true } } j := by
    have htruthful (j : ℕ) : World.Truthful { w with
        transport := t
        sockets := update w.sockets i { w.sockets i with handed := true } } j := by
      intro _ f _ _ hle
      rw [hsent] at hle
      exact .inl (le_trans hle hack)
    have hup (j : ℕ) : (update w.sockets i { w.sockets i with handed := true } j).up = (w.sockets j).up :=
      update_keeps Socket.up (by rfl) j
    refine ⟨?_, htruthful⟩
    constructor
    case sequence => exact h.sequence
    case numbered => exact fun f hf => hnext ▸ h.numbered f hf
    case bare =>
      intro hnone
      rw [hnone] at hsess
      cases hsess
    case accepted => exact h.accepted
    case passed => exact h.passed
    case buffer =>
      rw [hout]
      exact hacked.buffer
    case known =>
      rw [hout]
      exact hacked.known
    case beats => exact h.beats
    case received => exact h.received
    case applied => exact h.applied
    case delivered => exact h.delivered
    case sound => exact fun j f hf hnum => h.sound j f (hup j ▸ hf) hnum
    case ordered =>
      intro j
      rw [hup]
      exact h.ordered j
    case told =>
      intro j item hitem
      exact (update_holds (item ∈ Socket.down ·) hitem).elim (h.told i item ·.2) (h.told j item ·.2)
    case cursor_le => exact hnext ▸ h.cursor_le
    case sent_le =>
      rw [hsent, hnext]
      exact le_trans hack h.cursor_le
    case truthful => exact fun j _ _ => htruthful j
  rw [World.onSession]
  split
  · obtain ⟨hsound, htruthful⟩ := hpositioned
      { { w.transport with session := some credential }.acknowledge ack now with sentUpTo := ack } rfl rfl rfl rfl
    exact hsound.flush fun j _ _ => htruthful j
  · obtain ⟨hsound, htruthful⟩ := hpositioned
      ({ { w.transport with session := some credential }.acknowledge ack now with sentUpTo := ack }.startLiveness now)
      rfl rfl rfl rfl
    exact hsound.flush fun j _ _ => htruthful j

theorem Sound.onItem (i : ℕ) {item : WorkItem} (hitem : ∀ n ∈ item.position, n ≤ w.cursor) (now : ℕ) :
    (w.onItem i item now).Sound schema := by
  unfold World.onItem
  split
  · cases item with
    | session credential ack => exact h.onSession i credential (hitem ack rfl) now
    | ack seq => exact h.acknowledge (hitem seq rfl) now
    | shutdown => exact h.flags rfl rfl rfl rfl fun j hj => hj
    | other => exact h
  · exact h

theorem Sound.onClose (i : ℕ) : (w.onClose i).Sound schema := by
  have hclosed := h.readyState i .closed
  rw [World.onClose]
  split
  · split
    · exact hclosed.flags rfl rfl rfl rfl fun j hj => hj
    · exact hclosed.scheduleReconnect
  · exact hclosed

theorem Sound.close : w.close.Sound schema := by
  have hflags : World.Sound schema { w with
      transport := { w.transport.stopLiveness with closed := true, reconnectTimer := false } } :=
    h.flags rfl rfl rfl rfl fun i hi => hi
  refine hflags.sockets (fun i => ?_) (fun i item hitem => ?_) fun i hhanded hlost => ?_
  · split <;> exact ⟨_, take_length.symm⟩
  · split at hitem <;> exact .inl hitem
  · split at hhanded
    · rename_i hif
      rw [if_pos hif] at hlost ⊢
      exact ⟨hhanded, hlost, rfl⟩
    · rename_i hif
      rw [if_neg hif] at hlost ⊢
      exact ⟨hhanded, hlost, rfl⟩

theorem Sound.answer (i : ℕ) {item : WorkItem} (hitem : ∀ n ∈ item.position, n ≤ w.cursor) :
    World.Sound schema { w with sockets := update w.sockets i ((w.sockets i).answer item) } := by
  rw [Socket.answer]
  split
  · exact h.socket i ⟨_, take_length.symm⟩ (fun _ hold => .inl hold) fun hhanded hlost => ⟨hhanded, hlost, rfl⟩
  · refine h.socket i ⟨_, take_length.symm⟩ (fun old hold => ?_) fun hhanded hlost => ⟨hhanded, hlost, rfl⟩
    refine (mem_append.mp hold).imp_right fun hnew => ?_
    rw [mem_singleton.mp hnew]
    exact hitem

theorem Sound.attach (credential : String) (i : ℕ) : (w.attach credential i).Sound schema := by
  have hnew : World.Sound schema { w with
      sockets := update w.sockets i
        ({ w.sockets i with attached := true }.answer (.session credential w.cursor)) } := by
    rw [Socket.answer]
    split
    · exact h.socket i ⟨_, take_length.symm⟩ (fun _ hold => .inl hold) fun hhanded hlost => ⟨hhanded, hlost, rfl⟩
    · refine h.socket i ⟨_, take_length.symm⟩ (fun old hold => ?_) fun hhanded hlost => ⟨hhanded, hlost, rfl⟩
      refine (mem_append.mp hold).imp_right fun hitem n hn => ?_
      rw [mem_singleton.mp hitem] at hn
      exact le_of_eq (some.inj hn).symm
  exact { hnew with }

theorem Sound.drained (hup : (w.sockets i).up = f :: rest) (hpast : f.seq.isSome → f.number ≤ w.cursor) :
    World.Sound schema { w with sockets := update w.sockets i { w.sockets i with up := rest } } where
  __ := h
  sound := by
    intro j g hg hnum
    obtain ⟨-, hg⟩ | ⟨-, hg⟩ := update_holds (g ∈ Socket.up ·) hg
    · exact h.sound i g (hup ▸ mem_cons_of_mem f hg) hnum
    · exact h.sound j g hg hnum
  ordered := by
    intro j
    change Causal.Ordered w.needs w.settled (update w.sockets i { w.sockets i with up := rest } j).up
    by_cases hj : j = i
    · rw [hj, update_self]
      have hord := h.ordered i
      rw [hup] at hord
      exact hord.tail fun g _ hneeds => .inr (hpast (h.numbered f hneeds.2.1).1)
    · rw [update_of_ne hj]
      exact h.ordered j
  told := by
    intro j item hitem
    exact (update_holds (item ∈ Socket.down ·) hitem).elim (h.told i item ·.2) (h.told j item ·.2)
  truthful := by
    intro j hj hhanded hlost g hg hnum hle
    change (update w.sockets i { w.sockets i with up := rest } j).handed = true at hhanded
    change ¬ (update w.sockets i { w.sockets i with up := rest } j).lost = true at hlost
    change g.number ≤ w.cursor ∨ g ∈ (update w.sockets i { w.sockets i with up := rest } j).up
    by_cases hji : j = i
    · rw [hji, update_self] at hhanded hlost ⊢
      rcases h.truthful i (hji ▸ hj) hhanded hlost g hg hnum hle with hpassed | hmem
      · exact .inl hpassed
      · rw [hup] at hmem
        rcases mem_cons.mp hmem with rfl | hmem
        · exact .inl (hpast hnum)
        · exact .inr hmem
    · rw [update_of_ne hji] at hhanded hlost ⊢
      exact h.truthful j hj hhanded hlost g hg hnum hle

theorem Sound.applyBare (hbare : f.seq = none) :
    World.Sound schema { w with received := w.received ++ [f] } :=
  { h with
    beats := fun g hg => (h.beats g hg).imp_right (mem_append_left _)
    received := by
      intro g hg hnum
      rcases mem_append.mp hg with hg | hg
      · exact h.received g hg hnum
      · rw [mem_singleton.mp hg, hbare] at hnum
        cases hnum
    applied := fun g hg hle => (h.applied g hg hle).imp_left (mem_append_left _)
    delivered := by
      have hnone : [f].filter (·.seq.isSome) = [] := by
        rw [filter_cons_of_neg (by rw [hbare]; exact Bool.false_ne_true), filter_nil]
      rw [filter_append, hnone, append_nil]
      exact h.delivered }

theorem Sound.applyNumbered {i seq : ℕ} (hup : (w.sockets i).up = f :: rest) (hseq : f.seq = some seq)
    (habove : w.cursor < seq) :
    World.Sound schema { w with cursor := seq, received := w.received ++ [f] } := by
  have hsome : f.seq.isSome := by rw [hseq]; rfl
  have hnumber : f.number = seq := by rw [Frame.number, hseq, getD_some]
  have hf : f ∈ w.frames := h.sound i f (hup ▸ mem_cons_self) hsome
  have hskipped (g : Frame) (hg : g ∈ w.frames) (hlow : w.cursor < g.number) (hlt : g.number < f.number) :
      g ∈ w.thrown := by
    have hord := h.ordered i
    rw [hup] at hord
    rcases hord.1 g ⟨hsome, hg, hlt⟩ with hthrown | hle
    · exact hthrown
    · omega
  have hsettled (g : Frame) (hg : w.settled g) : g ∈ w.thrown ∨ g.number ≤ seq := hg.imp_right fun hle => by omega
  constructor
  case sequence => exact h.sequence
  case numbered => exact h.numbered
  case bare => exact h.bare
  case accepted => exact h.accepted
  case passed => exact h.passed
  case buffer => exact h.buffer
  case known => exact fun g hg => (h.known g hg).imp_right (hsettled g)
  case beats => exact fun g hg => (h.beats g hg).imp_right (mem_append_left _)
  case received =>
    intro g hg hnum
    rcases mem_append.mp hg with hg | hg
    · obtain ⟨hmem, hle⟩ := h.received g hg hnum
      exact ⟨hmem, by change g.number ≤ seq; omega⟩
    · rw [mem_singleton.mp hg]
      exact ⟨hf, le_of_eq hnumber⟩
  case applied =>
    intro g hg hle
    change g.number ≤ seq at hle
    by_cases hold : g.number ≤ w.cursor
    · exact (h.applied g hg hold).imp_left (mem_append_left _)
    · by_cases heq : g.number = f.number
      · rw [Causal.eq_of_key_eq h.sequence hg hf heq]
        exact .inl (mem_append_right _ (mem_singleton_self f))
      · exact .inr (hskipped g hg (Nat.lt_of_not_le hold) (by omega))
  case delivered =>
    have hnone (g : Frame) (hg : g ∈ w.frames) (hlow : w.cursor < g.number) (hlt : g.number < f.number) :
        g.message.lasting = false := by
      rcases h.beats g (hskipped g hg hlow hlt) with hkind | hreceived
      · rw [SupervisorMessage.lasting, SupervisorMessage.fleeting, hkind]
        rfl
      · have := (h.received g hreceived (h.numbered g hg).1).2
        omega
    have hgrows := Causal.filter_le_key h.sequence hf (hnumber ▸ habove) hnone
    change ((w.received ++ [f]).filter (·.seq.isSome)).filter (·.message.lasting) =
      (w.frames.filter (·.number ≤ seq)).filter (·.message.lasting)
    rw [← hnumber, hgrows, ← h.delivered, filter_append, filter_append,
      filter_cons_of_pos (p := fun g : Frame => g.seq.isSome) hsome, filter_nil]
  case sound => exact h.sound
  case ordered => exact fun j => (h.ordered j).imp fun a _ g hneeds => ⟨hneeds, hsettled g⟩
  case told => exact fun j item hitem n hn => le_trans (h.told j item hitem n hn) (le_of_lt habove)
  case cursor_le => exact hnumber ▸ (h.numbered f hf).2
  case sent_le => exact h.sent_le
  case truthful =>
    intro j hj hhanded hlost g hg hnum hle
    refine (h.truthful j hj hhanded hlost g hg hnum hle).imp_left fun hpast => ?_
    exact le_trans hpast (le_of_lt habove)

theorem Sound.receive (hup : (w.sockets i).up = f :: rest) :
    (World.onFrame { w with sockets := update w.sockets i { w.sockets i with up := rest } } schema i f).Sound
      schema := by
  unfold World.onFrame
  cases hseq : f.seq with
  | none =>
    have hdrained := h.drained hup fun hsome => by rw [hseq] at hsome; cases hsome
    split
    · exact hdrained.applyBare hseq
    · exact hdrained
  | some seq =>
    have hnumber : f.number = seq := by rw [Frame.number, hseq, getD_some]
    have hsome : f.seq.isSome := by rw [hseq]; rfl
    split
    · dsimp only
      split
      · rename_i habove
        have happlied := h.applyNumbered hup hseq habove
        have hdrained := happlied.drained hup fun _ => le_of_eq hnumber
        exact hdrained.answer i fun n hn => le_of_eq (some.inj hn).symm
      · rename_i hbelow
        have hdrained := h.drained hup fun _ => hnumber ▸ Nat.le_of_not_lt hbelow
        exact hdrained.answer i fun n hn => le_of_eq (some.inj hn).symm
    · rename_i hrefused
      exact absurd (h.accepted f (h.sound i f (hup ▸ mem_cons_self) hsome)) hrefused

theorem Sound.giveUp (i : ℕ)
    (hbeats : ∀ f ∈ w.transport.outbound, f.saysBeat → f.message.kind = "heartbeat" ∨ f ∈ w.received) :
    (w.giveUp i).Sound schema := by
  have hthrown : World.Sound schema { w with thrown := w.thrown ++ w.transport.outbound.filter (·.saysBeat) } :=
    { h with
      known := fun f hf => (h.known f hf).imp_right (.imp_left (mem_append_left _))
      beats := by
        intro f hf
        rcases mem_append.mp hf with hf | hf
        · exact h.beats f hf
        · exact hbeats f (mem_filter.mp hf).1 (mem_filter.mp hf).2
      applied := fun f hf hle => (h.applied f hf hle).imp_right (mem_append_left _)
      ordered := fun j => (h.ordered j).imp fun _ _ _ hneeds => ⟨hneeds, .imp_left (mem_append_left _)⟩ }
  obtain ⟨closed, reconnectTimer, heq⟩ := scheduleReconnect_eq
    { w.transport.stopLiveness with outbound := w.transport.outbound.filter (! ·.saysBeat), socket := none }
  have hleft := hthrown.transport
    (t := { w.transport.stopLiveness with
      outbound := w.transport.outbound.filter (! ·.saysBeat)
      socket := none
      closed := closed
      reconnectTimer := reconnectTimer }) rfl rfl rfl filter_sublist (fun f hf => ?_) fun j hj => by cases hj
  · rw [World.giveUp, heq]
    exact hleft.readyState i .closing
  · by_cases hbeat : f.saysBeat = true
    · exact .inr (.inl (mem_append_right _ (mem_filter.mpr ⟨hf, hbeat⟩)))
    · exact .inl (mem_filter.mpr ⟨hf, by rw [eq_false_iff.mpr hbeat]; rfl⟩)

theorem Sound.tick {now : ℕ} (horderly : Orderly schema w (.tick now)) : (w.tick now).Sound schema := by
  rw [World.tick]
  cases hopen : w.openSocket with
  | none => exact h
  | some i =>
    dsimp only
    split
    · exact h
    · rename_i hclosed
      rw [Orderly, World.silent, hopen, eq_false_iff.mpr hclosed] at horderly
      split
      · rename_i hsilent
        rw [if_pos (by simpa using hsilent)] at horderly
        exact h.giveUp i horderly
      · rename_i hsilent
        rw [if_neg (by simpa using hsilent)] at horderly
        have hsound := h.transportSend horderly w.sent
          (by simp [SupervisorMessage.lasting, SupervisorMessage.fleeting, heartbeat])
        rw [← sent_transportSend w heartbeat] at hsound
        exact hsound

theorem Sound.send (horderly : Sendable schema w m) : (w.send m).Sound schema := by
  refine h.transportSend horderly _ ?_
  split
  · exact filter_append ..
  · exact (append_nil _).symm

/-- Every event of an orderly run keeps the transport sound. -/
theorem Sound.step {credential : String} {e : Event} {w' : World} (horderly : Orderly schema w e)
    (hstep : Supervisor.step schema credential w e = some w') : w'.Sound schema := by
  cases e with
  | reconnect =>
    obtain ⟨-, hw⟩ := ite_none_right_eq_some.mp hstep
    exact some.inj hw ▸ .connect (h.flags rfl rfl rfl rfl fun i hi => hi)
  | attach i =>
    obtain ⟨-, hw⟩ := ite_none_right_eq_some.mp hstep
    exact some.inj hw ▸ h.attach credential i
  | opened i now =>
    obtain ⟨-, hw⟩ := ite_none_right_eq_some.mp hstep
    exact some.inj hw ▸ h.onOpen i now
  | read i now =>
    rw [Supervisor.step] at hstep
    cases hdown : (w.sockets i).down with
    | nil =>
      rw [hdown] at hstep
      cases hstep
    | cons item rest =>
      rw [hdown] at hstep
      obtain ⟨-, hw⟩ := ite_none_right_eq_some.mp hstep
      have hread : World.Sound schema { w with
          sockets := update w.sockets i { w.sockets i with down := rest } } := by
        refine h.socket i ⟨_, take_length.symm⟩ (fun old hold => .inl ?_) fun hhanded hlost => ⟨hhanded, hlost, rfl⟩
        rw [hdown]
        exact mem_cons_of_mem item hold
      exact some.inj hw ▸ hread.onItem i (h.told i item (hdown ▸ mem_cons_self)) now
  | failed =>
    cases hstep
    rw [World.onError]
    split
    · exact h.scheduleReconnect
    · exact h
  | closed i =>
    obtain ⟨-, hw⟩ := ite_none_right_eq_some.mp hstep
    exact some.inj hw ▸ h.onClose i
  | tick =>
    obtain ⟨-, hw⟩ := ite_none_right_eq_some.mp hstep
    exact some.inj hw ▸ h.tick horderly
  | send => exact some.inj hstep ▸ h.send horderly
  | close => exact some.inj hstep ▸ h.close
  | receive i =>
    rw [Supervisor.step] at hstep
    cases hup : (w.sockets i).up with
    | nil =>
      rw [hup] at hstep
      cases hstep
    | cons =>
      rw [hup] at hstep
      obtain ⟨-, hw⟩ := ite_none_right_eq_some.mp hstep
      exact some.inj hw ▸ h.receive hup
  | push kind =>
    obtain ⟨i, -, rfl⟩ := map_eq_some_iff.mp hstep
    refine h.answer i fun n hn => ?_
    cases kind <;> cases hn
  | lose i ups =>
    cases hstep
    exact h.socket i ⟨ups, rfl⟩ (fun item hitem => .inl (mem_of_mem_take hitem)) fun _ hlost => absurd rfl hlost

end

/-- A fresh boot is sound. -/
theorem sound_boot (schema : SupervisorMessage → Bool) : World.boot.Sound schema := by
  refine .connect ?_
  exact {
    sequence := List.Pairwise.nil
    numbered := fun _ hf => by cases hf
    bare := fun _ => rfl
    accepted := fun _ hf => by cases hf
    passed := rfl
    buffer := List.Sublist.refl []
    known := fun _ hf => by cases hf
    beats := fun _ hf => by cases hf
    received := fun _ hf => by cases hf
    applied := fun _ hf => by cases hf
    delivered := rfl
    sound := fun _ _ hf => by cases hf
    ordered := fun _ => trivial
    told := fun _ _ hitem => by cases hitem
    cursor_le := le_refl 0
    sent_le := le_refl 0
    truthful := fun _ _ hhanded => by cases hhanded }

instance (w : World) : Decidable w.InOrder := inferInstanceAs (Decidable (_ <+: _))

instance (w : World) : Decidable w.Kept := inferInstanceAs (Decidable (∀ f ∈ w.frames, _))

end World

/-- In every run of the channel whose steps are orderly, the runner has got the first of the lasting messages, each
once and in order, and a frame is in the buffer until the runner has it. -/
theorem run_delivers (schema : SupervisorMessage → Bool) (credential : String) (es : List Event)
    (horderly : Runs.Meets (step schema credential) (Orderly schema) World.boot es) :
    Runs.Throughout (step schema credential) (fun w => w.InOrder ∧ w.Kept) World.boot es := by
  intro front back w hsplit hrun
  have hkeeps (w : World) (e : Event) (w' : World) (h : w.Sound schema) (he : Orderly schema w e)
      (hstep : step schema credential w e = some w') : w'.Sound schema := h.step he hstep
  have hsound := Runs.throughout_of_meets _ hkeeps (World.sound_boot schema) horderly front back w hsplit hrun
  exact ⟨hsound.inOrder, hsound.kept⟩

/-- An event of a turn. -/
def event (turnId : String) : SupervisorMessage :=
  ⟨"event", "\x7b\"kind\":\"event\",\"turnId\":\"" ++ turnId ++ "\"\x7d"⟩

/-- A socket goes silent with an event and a beat on it; the watchdog gives it up, and the next one brings the event. -/
def resumed : List Event :=
  [.attach 0, .opened 0 0, .read 0 0, .send (event "a"), .tick 20000, .lose 0 0 0, .tick 80000, .reconnect, .attach 1,
    .opened 1 81000, .read 1 81000, .receive 1, .read 1 81000]

/-- A resumed channel delivers. -/
theorem run_delivers_resumed : Runs.Throughout (step (fun _ => true) "v1") (fun w => w.InOrder ∧ w.Kept)
    World.boot resumed :=
  run_delivers (fun _ => true) "v1" resumed (by decide +kernel)

/-- A socket is lost with two events on it. On the next one a third event goes out before the hand-off is read, and
the replay of the first two comes too late. -/
def overtaken : List Event :=
  [.attach 0, .opened 0 0, .read 0 0, .send (event "a"), .send (event "b"), .lose 0 0 0, .closed 0, .reconnect,
    .attach 1, .opened 1 0, .send (event "c"), .read 1 0, .receive 1, .receive 1, .receive 1, .receive 1, .read 1 0]

/-- A send ahead of the hand-off loses what the last socket has lost. -/
theorem lost_when_overtaken :
    Runs.Meets (step (fun _ => true) "v1") (fun w _ => w.transport.outbound.length < maxOutboundMessages) World.boot
      overtaken ∧
    ∃ w, Runs.run (step (fun _ => true) "v1") World.boot overtaken = some w ∧ ¬ w.InOrder ∧ ¬ w.Kept := by
  have hsome : (Runs.run (step (fun _ => true) "v1") .boot overtaken).isSome := by decide +kernel
  have hbroken : (Runs.run (step (fun _ => true) "v1") .boot overtaken).all
      fun w => decide (¬ w.InOrder ∧ ¬ w.Kept) := by decide +kernel
  obtain ⟨w, hw⟩ := Option.isSome_iff_exists.mp hsome
  rw [hw, Option.all_some, decide_eq_true_iff] at hbroken
  exact ⟨by decide +kernel, w, hw, hbroken⟩

end Onecli.Supervisor
