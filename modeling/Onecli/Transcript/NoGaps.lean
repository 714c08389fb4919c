import Onecli.Foundation.LogTail
import Onecli.Transcript.Stream

/-!
# The live transcript has no gaps

A transaction numbers its events above all that were committed before, so what the bus brings is numbered like the
rows. While nobody has aborted it, the stream has emitted every row from its cursor up to a mark, and the point where
it stands says which mark that is. After an abort it emits nothing more.
-/

namespace Onecli.Transcript

open Api (JsString)
open LogTail List Option Nat

/-! ## The conversation -/

namespace Tables

variable {t t' : Tables} {e : PublishedEvent} {batch : List PublishedEvent}

/-- The rows are numbered in their order, from one up to the counter. -/
structure Sound (t : Tables) : Prop where
  rises : t.turnEvents.Pairwise fun a b => a.seq < b.seq
  within : ∀ row ∈ t.turnEvents, 0 < row.seq ∧ row.seq ≤ t.lastSeq

/-- An event that was numbered by a transaction: a row with its number is its own. -/
structure Knows (t : Tables) (e : PublishedEvent) : Prop where
  pos : 0 < e.seq
  le : e.seq ≤ t.lastSeq
  only : ∀ row ∈ t.turnEvents, row.seq = e.seq → row = e.row

/-- What a transaction does: it numbers a batch above the counter, and writes rows of it. -/
structure Commits (t t' : Tables) (batch : List PublishedEvent) : Prop where
  le : t.lastSeq ≤ t'.lastSeq
  rises : batch.Pairwise fun a b => a.seq < b.seq
  within : ∀ e ∈ batch, t.lastSeq < e.seq ∧ e.seq ≤ t'.lastSeq
  rows : ∃ durable : List PublishedEvent, durable.Sublist batch ∧ t'.turnEvents = t.turnEvents ++ durable.map PublishedEvent.row

end Tables

theorem rises_numbered (firstSeq : ℕ) (turnId : JsString) (events : List AgentEvent) :
    (numbered firstSeq turnId events).Pairwise fun a b => a.seq < b.seq := by
  rw [numbered, pairwise_iff_getElem]
  intro i j hi hj hij
  rw [getElem_mapIdx, getElem_mapIdx]
  exact Nat.add_lt_add_left hij firstSeq

theorem within_numbered {firstSeq : ℕ} {turnId : JsString} {events : List AgentEvent} {e : PublishedEvent}
    (h : e ∈ numbered firstSeq turnId events) : firstSeq ≤ e.seq ∧ e.seq < firstSeq + events.length := by
  obtain ⟨i, hi, rfl⟩ := mem_mapIdx.mp h
  exact ⟨Nat.le_add_right firstSeq i, Nat.add_lt_add_left hi firstSeq⟩

namespace Tables

variable {t t' : Tables} {e : PublishedEvent} {batch : List PublishedEvent}

theorem commits_applyTurnEvents (t : Tables) (turnId : JsString) (clean : List AgentEvent) :
    Commits t (t.applyTurnEvents turnId clean).1 (t.applyTurnEvents turnId clean).2 where
  le := Nat.le_add_right t.lastSeq clean.length
  rises := rises_numbered _ turnId clean
  within := by
    intro e he
    have hrange := within_numbered he
    rw [Nat.add_sub_cancel] at hrange
    change t.lastSeq < e.seq ∧ e.seq ≤ t.lastSeq + clean.length
    omega
  rows := ⟨_, filter_sublist, rfl⟩

theorem commits_materializeBornDoneTurn (t : Tables) (turnId : JsString) (events : List AgentEvent) :
    Commits t (t.materializeBornDoneTurn turnId events).1 (t.materializeBornDoneTurn turnId events).2 where
  le := Nat.le_add_right t.lastSeq (events.length + 1)
  rises := rises_numbered _ turnId _
  within := by
    intro e he
    have hrange := within_numbered he
    rw [Nat.add_sub_cancel, length_append, length_singleton] at hrange
    change t.lastSeq < e.seq ∧ e.seq ≤ t.lastSeq + (events.length + 1)
    omega
  rows := ⟨_, List.Sublist.refl _, rfl⟩

namespace Commits

section

variable (h : Commits t t' batch)
include h

/-- A row is old or of the batch. -/
theorem mem_turnEvents {row : TurnEvent} (hrow : row ∈ t'.turnEvents) : row ∈ t.turnEvents ∨ ∃ e ∈ batch, e.row = row := by
  obtain ⟨durable, hsub, hrows⟩ := h.rows
  rw [hrows] at hrow
  rcases mem_append.mp hrow with hold | hnew
  · exact .inl hold
  · obtain ⟨e, he, hrow⟩ := List.mem_map.mp hnew
    exact .inr ⟨e, hsub.subset he, hrow⟩

theorem grows {row : TurnEvent} (hrow : row ∈ t'.turnEvents) : row ∈ t.turnEvents ∨ t.lastSeq < row.seq := by
  rcases h.mem_turnEvents hrow with hold | ⟨e, he, rfl⟩
  · exact .inl hold
  · exact .inr (h.within e he).1

theorem sound (ht : t.Sound) : t'.Sound where
  rises := by
    obtain ⟨durable, hsub, hrows⟩ := h.rows
    rw [hrows, pairwise_append, pairwise_map]
    refine ⟨ht.rises, h.rises.sublist hsub, fun row hrow later hlater => ?_⟩
    obtain ⟨e, he, rfl⟩ := List.mem_map.mp hlater
    exact lt_of_le_of_lt (ht.within row hrow).2 (h.within e (hsub.subset he)).1
  within := by
    intro row hrow
    rcases h.mem_turnEvents hrow with hold | ⟨e, he, rfl⟩
    · exact ⟨(ht.within row hold).1, (ht.within row hold).2.trans h.le⟩
    · exact ⟨zero_lt_of_lt (h.within e he).1, (h.within e he).2⟩

theorem knows (he : t.Knows e) : t'.Knows e where
  pos := he.pos
  le := he.le.trans h.le
  only := by
    intro row hrow hseq
    rcases h.grows hrow with hold | hnew
    · exact he.only row hold hseq
    · exact absurd (hseq ▸ he.le) (not_le.mpr hnew)

theorem knows_batch (ht : t.Sound) (he : e ∈ batch) : t'.Knows e where
  pos := zero_lt_of_lt (h.within e he).1
  le := (h.within e he).2
  only := by
    intro row hrow hseq
    rcases h.mem_turnEvents hrow with hold | ⟨other, hother, rfl⟩
    · exact absurd ((ht.within row hold).2) (not_le.mpr (hseq ▸ (h.within e he).1))
    · have hnodup : (batch.map PublishedEvent.seq).Nodup := pairwise_map.mpr (h.rises.imp ne_of_lt)
      rw [inj_on_of_nodup_map hnodup hother he hseq]

end

end Commits

theorem readTranscriptEvents_eq (ht : t.Sound) (since limit : Option ℕ) :
    let count := min (limit.getD 200) 500
    let found := t.turnEvents.filter fun row => since.getD 0 < row.seq
    t.readTranscriptEvents since limit =
      ⟨found.take count, (found.take count).getLast?.elim (since.getD 0) TurnEvent.seq, decide (count < found.length)⟩ := by
  intro count found
  have hfound : (t.turnEvents.filter fun row => since.all (· < row.seq)) = found := by
    refine filter_congr fun row hrow => ?_
    cases since with
    | none => exact (decide_eq_true (ht.within row hrow).1).symm
    | some => rfl
  have hsorted : found.insertionSort (fun a b => a.seq ≤ b.seq) = found :=
    List.Pairwise.insertionSort_eq ((ht.rises.filter _).imp le_of_lt)
  have hmore : decide (count < (found.take (count + 1)).length) = decide (count < found.length) := by
    rw [length_take, decide_eq_decide]
    omega
  have hpage : (if decide (count < found.length) then (found.take (count + 1)).take count
      else found.take (count + 1)) = found.take count := by
    by_cases hlong : count < found.length
    · rw [decide_eq_true hlong, if_pos rfl, take_take, min_eq_left (le_succ count)]
    · rw [decide_eq_false hlong, if_neg Bool.false_ne_true, take_of_length_le (by omega),
        take_of_length_le (not_lt.mp hlong)]
  rw [readTranscriptEvents, hfound, hsorted]
  rw [hmore, hpage]
  congr 1
  cases (found.take count).getLast? <;> cases since <;> rfl

end Tables

/-! ## The connection -/

/-- The event that a replay repairs was numbered. -/
def Caller.Known (t : Tables) : Caller → Prop
  | .startup => True
  | .repair event _ => t.Knows event

/-- A replay leaves no row below the event that it repairs. -/
def Caller.Reached (t : Tables) (nextSince : ℕ) : Caller → Prop
  | .startup => True
  | .repair event _ => ∀ row ∈ t.turnEvents, row.seq ≤ event.seq → row.seq ≤ nextSince

section Connection

variable {Sse Outcome : Type} {api : StreamingApi Sse Outcome} {t t' : Tables} {s s' : Stream Sse} {resumed mark mark' : ℕ}

/-- The connection has emitted the rows from its cursor up to a mark. -/
structure Shows (api : StreamingApi Sse Outcome) (resumed : ℕ) (t : Tables) (s : Stream Sse) (mark : ℕ) : Prop where
  covers : Covers TurnEvent.seq t.turnEvents ((api.emitted s.sse).filterMap Chunk.event?) resumed mark
  le : resumed ≤ mark
  bound : mark ≤ max resumed t.lastSeq

/-- A replay writes a page: what is left of it goes on from the mark, and the last page leaves nothing behind. -/
structure Replays (resumed : ℕ) (t : Tables) (s : Stream Sse) (mark : ℕ) (caller : Caller) (page : ℕ) (history : TranscriptPage)
    (rest : List TurnEvent) : Prop where
  lastSeq : s.lastSeq ≤ mark
  inLimit : page < HISTORY_PAGE_LIMIT
  known : caller.Known t
  ends : page + 1 = HISTORY_PAGE_LIMIT → history.hasMore = false
  reached : history.hasMore = false → caller.Reached t history.nextSince
  rest : Covers TurnEvent.seq t.turnEvents rest mark history.nextSince
  le : mark ≤ history.nextSince
  bound : history.nextSince ≤ max resumed t.lastSeq

/-- Where a connection that nobody has aborted stands, when it has emitted the rows up to a mark. -/
def Stands (resumed : ℕ) (t : Tables) (s : Stream Sse) (mark : ℕ) : Prop :=
  match s.point with
  | .idle | .ready => s.lastSeq = 0 ∧ s.since.getD 0 = mark
  | .readHistory caller page cursor => s.lastSeq ≤ mark ∧ cursor.getD 0 = mark ∧ page < HISTORY_PAGE_LIMIT ∧ caller.Known t
  | .writeHistory caller page history rest => Replays resumed t s mark caller page history rest
  | .caughtUp | .firstKeepAlive | .waitForPublish | .heartbeat => s.lastSeq = mark
  | .writeLive event _ => t.Knows event ∧ s.lastSeq = event.seq ∧ mark + 1 = event.seq
  | .ended => True

/-- What holds of a connection: what waits was numbered, and it has emitted the rows up to where it stands. -/
structure Follows (api : StreamingApi Sse Outcome) (resumed : ℕ) (t : Tables) (s : Stream Sse) : Prop where
  pending : ∀ e ∈ s.pending, t.Knows e
  shows : ∃ mark, Shows api resumed t s mark ∧ (api.aborted s.sse = false → Stands resumed t s mark)

theorem Shows.skip (h : Shows api resumed t s mark) (hle : mark ≤ mark') (hbound : mark' ≤ max resumed t.lastSeq)
    (hnone : ∀ row ∈ t.turnEvents, row.seq ≤ mark' → row.seq ≤ mark) : Shows api resumed t s mark' :=
  ⟨h.covers.skip hle hnone, h.le.trans hle, hbound⟩

theorem emitted_writeOrCut (hapi : api.Lawful) (s : Stream Sse) (chunk : Chunk) (outcome : Outcome) :
    (api.aborted (s.writeOrCut api chunk outcome).sse = true ∧
        api.emitted (s.writeOrCut api chunk outcome).sse = api.emitted s.sse) ∨
      (api.aborted s.sse = false ∧
        api.emitted (s.writeOrCut api chunk outcome).sse = api.emitted s.sse ++ [chunk]) := by
  have hemits : api.emitted (s.writeOrCut api chunk outcome).sse = api.emitted (api.write s.sse chunk outcome).1 := by
    unfold Stream.writeOrCut
    split
    · rfl
    · exact hapi.emitted_abort _
  rw [hemits]
  cases habort : api.aborted s.sse with
  | true =>
    obtain ⟨hstays, hsame⟩ := hapi.write_aborted s.sse chunk outcome habort
    refine .inl ⟨?_, hsame⟩
    unfold Stream.writeOrCut
    split
    · exact hstays
    · exact hapi.aborted_abort _
  | false =>
    rcases hapi.write_emits s.sse chunk outcome with hsame | hmore
    · refine .inl ⟨?_, hsame⟩
      unfold Stream.writeOrCut
      split
      · next hended =>
        refine Bool.eq_true_of_not_eq_false fun hlive => ?_
        have hmore := hapi.write_ended s.sse chunk outcome hended hlive
        exact cons_ne_nil chunk [] (append_right_eq_self.mp (hmore.symm.trans hsame))
      · exact hapi.aborted_abort _
    · exact .inr ⟨rfl, hmore⟩

@[simp] theorem pending_writeOrCut (s : Stream Sse) (chunk : Chunk) (outcome : Outcome) :
    (s.writeOrCut api chunk outcome).pending = s.pending := by
  unfold Stream.writeOrCut
  split <;> rfl

@[simp] theorem lastSeq_writeOrCut (s : Stream Sse) (chunk : Chunk) (outcome : Outcome) :
    (s.writeOrCut api chunk outcome).lastSeq = s.lastSeq := by
  unfold Stream.writeOrCut
  split <;> rfl

theorem shows_writeOrCut (hapi : api.Lawful) (h : Shows api resumed t s mark) (chunk : Chunk) (outcome : Outcome)
    (hnext : api.aborted s.sse = false → Covers TurnEvent.seq t.turnEvents chunk.event?.toList mark mark' ∧
      mark ≤ mark' ∧ mark' ≤ max resumed t.lastSeq) :
    ∃ shown, Shows api resumed t (s.writeOrCut api chunk outcome) shown ∧
      (api.aborted (s.writeOrCut api chunk outcome).sse = false → api.aborted s.sse = false ∧ shown = mark') := by
  rcases emitted_writeOrCut hapi s chunk outcome with ⟨habort, hsame⟩ | ⟨hlive, hmore⟩
  · refine ⟨mark, ⟨?_, h.le, h.bound⟩, fun hlive => absurd (habort.symm.trans hlive) Bool.noConfusion⟩
    rw [hsame]
    exact h.covers
  · obtain ⟨hpage, hle, hbound⟩ := hnext hlive
    have hchunk : [chunk].filterMap Chunk.event? = chunk.event?.toList := by
      cases chunk <;> rfl
    refine ⟨mark', ⟨?_, h.le.trans hle, hbound⟩, fun _ => ⟨hlive, rfl⟩⟩
    rw [hmore, filterMap_append, hchunk]
    exact h.covers.append hpage h.le hle

/-- What is shown depends on the stream alone. -/
theorem Shows.same (h : Shows api resumed t s mark) (hsse : s'.sse = s.sse) : Shows api resumed t s' mark :=
  ⟨hsse ▸ h.covers, h.le, h.bound⟩

theorem Stands.same (h : Stands resumed t s mark) (hpoint : s'.point = s.point) (hlast : s'.lastSeq = s.lastSeq)
    (hsince : s'.since = s.since) : Stands resumed t s' mark := by
  unfold Stands at h ⊢
  rw [hpoint, hlast, hsince]
  cases hat : s.point with
  | writeHistory =>
    rw [hat] at h
    obtain ⟨hlastSeq, hpage, hknown, hends, hreached, hrest, hle, hbound⟩ := h
    exact ⟨hlast.trans_le hlastSeq, hpage, hknown, hends, hreached, hrest, hle, hbound⟩
  | _ =>
    rw [hat] at h
    exact h

section

variable (h : Shows api resumed t s mark) (hlast : api.aborted s.sse = false → s.lastSeq = mark)
include h hlast

theorem follows_again (hpend : ∀ e ∈ s.pending, t.Knows e) : Follows api resumed t (s.again api) := by
  unfold Stream.again
  split
  · exact ⟨hpend, mark, h.same rfl, fun _ => trivial⟩
  · exact ⟨hpend, mark, h.same rfl, hlast⟩

theorem follows_endRound (hpend : ∀ e ∈ s.pending, t.Knows e) (woken : Bool) : Follows api resumed t
    (s.endRound api woken) := by
  unfold Stream.endRound
  split
  · exact ⟨hpend, mark, h.same rfl, hlast⟩
  · exact follows_again h hlast hpend

/-- A drain follows what is pending. -/
theorem follows_drain (woken : Bool) {pending : List PublishedEvent} (hpend : ∀ e ∈ pending, t.Knows e) : Follows
    api resumed t (s.drain api woken pending) := by
  induction pending with
  | nil => exact follows_endRound (s := { s with pending := [] }) (h.same rfl) hlast hpend woken
  | cons event pending ih =>
    obtain ⟨hevent, hpend⟩ := forall_mem_cons.mp hpend
    unfold Stream.drain
    split
    · exact ih hpend
    · next hnew =>
      split
      · refine ⟨hpend, mark, h.same rfl, fun hlive => ?_⟩
        exact ⟨(hlast hlive).le, hlast hlive, by decide, hevent⟩
      · next hhole =>
        refine ⟨hpend, mark, h.same rfl, fun hlive => ⟨hevent, rfl, ?_⟩⟩
        have hmark := hlast hlive
        omega

end

variable {caller : Caller}

theorem follows_replayed (h : Shows api resumed t s mark) (hlast : api.aborted s.sse = false → s.lastSeq = mark)
    (hpend : ∀ e ∈ s.pending, t.Knows e) (hknown : api.aborted s.sse = false → caller.Known t)
    (hreached : api.aborted s.sse = false → caller.Reached t mark) : Follows api resumed t (s.replayed api caller) := by
  cases caller with
  | startup => exact ⟨hpend, mark, h.same rfl, hlast⟩
  | repair event woken =>
    rw [Stream.replayed]
    split
    · exact follows_drain h hlast woken hpend
    · next hnew =>
      cases habort : api.aborted s.sse with
      | true => exact ⟨hpend, mark, h.same rfl, fun hlive => absurd (habort.symm.trans hlive) Bool.noConfusion⟩
      | false =>
        have hmark := hlast habort
        have hevent : t.Knows event := hknown habort
        -- no row lies between the mark and the event
        have hskip : Shows api resumed t s (event.seq - 1) := by
          refine h.skip (by omega) ?_ fun row hrow hbelow => hreached habort row hrow (by omega)
          have hle := hevent.le
          omega
        refine ⟨hpend, event.seq - 1, hskip.same rfl, fun _ => ⟨hevent, rfl, ?_⟩⟩
        omega

theorem follows_endPage (h : Shows api resumed t s mark) (hpend : ∀ e ∈ s.pending, t.Knows e) {page : ℕ}
    {history : TranscriptPage}
    (hreplays : api.aborted s.sse = false → Replays resumed t s mark caller page history []) :
    Follows api resumed t (s.endPage api caller page history) := by
  cases habort : api.aborted s.sse with
  | true =>
    unfold Stream.endPage
    rw [habort, Bool.not_true, Bool.and_false, Bool.false_and, if_neg Bool.false_ne_true]
    have hdead {P : Prop} (hlive : api.aborted s.sse = false) : P := absurd (habort.symm.trans hlive) Bool.noConfusion
    exact follows_replayed (s := { s with lastSeq := max s.lastSeq history.nextSince }) (h.same rfl) hdead hpend
      hdead hdead
  | false =>
    obtain ⟨hlast, hpage, hknown, hends, hreached, hrest, hle, hbound⟩ := hreplays habort
    have hcovers := h.covers.append hrest h.le hle
    rw [append_nil] at hcovers
    have hnext : Shows api resumed t s history.nextSince := ⟨hcovers, h.le.trans hle, hbound⟩
    have hmax : max s.lastSeq history.nextSince = history.nextSince := max_eq_right (hlast.trans hle)
    unfold Stream.endPage
    split
    · next hmore =>
      refine ⟨hpend, history.nextSince, hnext.same rfl, fun _ => ⟨hmax.le, rfl, ?_, hknown⟩⟩
      exact of_decide_eq_true (Bool.and_eq_true_iff.mp hmore).2
    · next hlastPage =>
      rw [habort, Bool.not_false, Bool.and_true, Bool.and_eq_true, decide_eq_true_eq, not_and] at hlastPage
      have hdone : history.hasMore = false := by
        cases hmore : history.hasMore with
        | false => rfl
        | true => exact hmore ▸ hends (le_antisymm hpage (not_lt.mp (hlastPage hmore)))
      exact follows_replayed (s := { s with lastSeq := max s.lastSeq history.nextSince }) (hnext.same rfl)
        (fun _ => hmax) hpend (fun _ => hknown) fun _ => hreached hdone

theorem follows_writePage (h : Shows api resumed t s mark) (hpend : ∀ e ∈ s.pending, t.Knows e) {page : ℕ}
    {history : TranscriptPage} {rest : List TurnEvent}
    (hreplays : api.aborted s.sse = false → Replays resumed t s mark caller page history rest) :
    Follows api resumed t (s.writePage api caller page history rest) := by
  cases rest with
  | nil => exact follows_endPage h hpend hreplays
  | cons =>
    refine ⟨hpend, mark, h.same rfl, fun hlive => ?_⟩
    obtain ⟨hlast, hpage, hknown, hends, hreached, hrest, hle, hbound⟩ := hreplays hlive
    exact ⟨hlast, hpage, hknown, hends, hreached, hrest, hle, hbound⟩

theorem replays_readHistory (ht : t.Sound) (h : Shows api resumed t s mark) {page : ℕ} {cursor : Option ℕ}
    (hlast : s.lastSeq ≤ mark) (hcursor : cursor.getD 0 = mark) (hpage : page < HISTORY_PAGE_LIMIT)
    (hknown : caller.Known t)
    (hends : page + 1 = HISTORY_PAGE_LIMIT → (t.readTranscriptEvents cursor (some HISTORY_PAGE_SIZE)).hasMore = false) :
    Replays resumed t s mark caller page (t.readTranscriptEvents cursor (some HISTORY_PAGE_SIZE))
      (t.readTranscriptEvents cursor (some HISTORY_PAGE_SIZE)).events := by
  have hread := Tables.readTranscriptEvents_eq ht cursor (some HISTORY_PAGE_SIZE)
  rw [hcursor] at hread
  set count := min ((some HISTORY_PAGE_SIZE).getD 200) 500
  set found := t.turnEvents.filter fun row => mark < row.seq with hfound
  have hcovers := covers_take ht.rises mark count
  have hall (hmore : decide (count < found.length) = false) (row : TurnEvent) (hrow : row ∈ t.turnEvents) :
      row.seq ≤ (found.take count).getLast?.elim mark TurnEvent.seq :=
    le_of_length_le ht.rises (not_lt.mp (of_decide_eq_false hmore)) hrow
  rw [← hfound] at hcovers
  rw [hread] at hends ⊢
  refine ⟨hlast, hpage, hknown, hends, fun hmore => ?_, hcovers, ?_, ?_⟩
  · cases caller with
    | startup => trivial
    | repair => exact fun row hrow _ => hall hmore row hrow
  · cases hlastRow : (found.take count).getLast? with
    | none => exact le_rfl
    | some row => exact (hcovers.within row (List.mem_of_getLast? hlastRow)).1.le
  · cases hlastRow : (found.take count).getLast? with
    | none => exact h.bound
    | some row =>
      have hrow : row ∈ t.turnEvents := mem_of_mem_filter (mem_of_mem_take (List.mem_of_getLast? hlastRow))
      exact (ht.within row hrow).2.trans (le_max_right _ _)

theorem Follows.goOn (h : Follows api resumed t s) (ht : t.Sound) (hfits : ∀ caller page cursor,
      s.point = .readHistory caller page cursor → page + 1 = HISTORY_PAGE_LIMIT →
      (t.readTranscriptEvents cursor (some HISTORY_PAGE_SIZE)).hasMore = false)
    (hstep : s.goOn api t = some s') : Follows api resumed t s' := by
  obtain ⟨hpend, mark, hshows, hstands⟩ := h
  unfold Stream.goOn at hstep
  unfold Stands at hstands
  cases hpoint : s.point with
  | idle =>
    rw [hpoint] at hstep hstands
    cases hstep
    exact ⟨hpend, mark, hshows.same rfl, hstands⟩
  | ready =>
    rw [hpoint] at hstep hstands
    cases hstep
    refine ⟨hpend, mark, hshows.same rfl, fun hlive => ?_⟩
    obtain ⟨hzero, hcursor⟩ := hstands hlive
    exact ⟨hzero ▸ Nat.zero_le mark, hcursor, by decide, trivial⟩
  | readHistory caller page cursor =>
    rw [hpoint] at hstep hstands
    cases hstep
    refine follows_writePage hshows hpend fun hlive => ?_
    obtain ⟨hlast, hcursor, hpage, hknown⟩ := hstands hlive
    exact replays_readHistory ht hshows hlast hcursor hpage hknown (hfits caller page cursor hpoint)
  | _ =>
    rw [hpoint] at hstep
    cases hstep

theorem covers_keepAlive (h : Shows api resumed t s mark) (chunk : Chunk) (hchunk : chunk.event? = none) :
    Covers TurnEvent.seq t.turnEvents chunk.event?.toList mark mark ∧ mark ≤ mark ∧ mark ≤ max resumed t.lastSeq := by
  rw [hchunk]
  exact ⟨.nil _ mark, le_rfl, h.bound⟩

/-- A write of the keep-alive comment at a point where the connection has emitted the rows up to its `lastSeq`. -/
theorem follows_keepAlive (hapi : api.Lawful) (h : Shows api resumed t s mark)
    (hlast : api.aborted s.sse = false → s.lastSeq = mark) (hpend : ∀ e ∈ s.pending, t.Knows e) (outcome : Outcome) :
    Follows api resumed t ((s.writeOrCut api .keepAlive outcome).again api) := by
  obtain ⟨shown, hshown, hwritten⟩ := shows_writeOrCut hapi h .keepAlive outcome fun _ => covers_keepAlive h .keepAlive rfl
  refine follows_again hshown (fun hlive => ?_) (by rwa [pending_writeOrCut])
  obtain ⟨hbefore, rfl⟩ := hwritten hlive
  rw [lastSeq_writeOrCut]
  exact hlast hbefore

theorem Follows.endWrite (hapi : api.Lawful) (h : Follows api resumed t s) {outcome : Outcome}
    (hstep : s.endWrite api outcome = some s') : Follows api resumed t s' := by
  obtain ⟨hpend, mark, hshows, hstands⟩ := h
  unfold Stream.endWrite at hstep
  unfold Stands at hstands
  split at hstep
  · next caller page history event rest hpoint =>
    rw [hpoint] at hstands
    cases hstep
    have hnext (hlive : api.aborted s.sse = false) : Covers TurnEvent.seq t.turnEvents [event] mark event.seq ∧
        mark ≤ event.seq ∧ event.seq ≤ max resumed t.lastSeq := by
      have hreplays : Replays resumed t s mark caller page history (event :: rest) := hstands hlive
      have hrange := hreplays.rest.within event mem_cons_self
      exact ⟨hreplays.rest.head, hrange.1.le, hrange.2.trans hreplays.bound⟩
    obtain ⟨shown, hshown, hwritten⟩ := shows_writeOrCut hapi hshows (.transcript event) outcome hnext
    have hwaits : ∀ e ∈ (s.writeOrCut api (.transcript event) outcome).pending, t.Knows e := by
      rwa [pending_writeOrCut]
    split
    · next habort =>
      have hdead {P : Prop} (hlive : api.aborted (s.writeOrCut api (.transcript event) outcome).sse = false) : P :=
        absurd (habort.symm.trans hlive) Bool.noConfusion
      exact follows_replayed hshown hdead hwaits hdead hdead
    · refine follows_writePage hshown hwaits fun hlive => ?_
      obtain ⟨hbefore, rfl⟩ := hwritten hlive
      have hreplays : Replays resumed t s mark caller page history (event :: rest) := hstands hbefore
      have hrange := hreplays.rest.within event mem_cons_self
      refine ⟨?_, hreplays.inLimit, hreplays.known, hreplays.ends, hreplays.reached, hreplays.rest.tail, hrange.2,
        hreplays.bound⟩
      rw [lastSeq_writeOrCut]
      exact hreplays.lastSeq.trans hrange.1.le
  · next hpoint =>
    rw [hpoint] at hstands
    cases hstep
    obtain ⟨shown, hshown, hwritten⟩ := shows_writeOrCut hapi hshows (.caughtUp s.lastSeq) outcome fun _ =>
      covers_keepAlive hshows (.caughtUp s.lastSeq) rfl
    refine ⟨by rwa [pending_writeOrCut], shown, hshown.same rfl, fun hlive => ?_⟩
    obtain ⟨hbefore, rfl⟩ := hwritten hlive
    change (s.writeOrCut api (.caughtUp s.lastSeq) outcome).lastSeq = _
    rw [lastSeq_writeOrCut]
    exact hstands hbefore
  · next hpoint =>
    rw [hpoint] at hstands
    cases hstep
    exact follows_keepAlive hapi hshows hstands hpend outcome
  · next event woken hpoint =>
    rw [hpoint] at hstands
    cases hstep
    have hnext (hlive : api.aborted s.sse = false) : Covers TurnEvent.seq t.turnEvents [event.row] mark event.seq ∧
        mark ≤ event.seq ∧ event.seq ≤ max resumed t.lastSeq := by
      obtain ⟨hknown, -, hnext⟩ := hstands hlive
      exact ⟨.single hnext hknown.only, by omega, hknown.le.trans (le_max_right _ _)⟩
    obtain ⟨shown, hshown, hwritten⟩ := shows_writeOrCut hapi hshows (.transcript event.row) outcome hnext
    have hwaits : ∀ e ∈ (s.writeOrCut api (.transcript event.row) outcome).pending, t.Knows e := by
      rwa [pending_writeOrCut]
    have hlast (hlive : api.aborted (s.writeOrCut api (.transcript event.row) outcome).sse = false) :
        (s.writeOrCut api (.transcript event.row) outcome).lastSeq = shown := by
      obtain ⟨hbefore, rfl⟩ := hwritten hlive
      rw [lastSeq_writeOrCut]
      exact (hstands hbefore).2.1
    split
    · exact follows_endRound hshown hlast hwaits woken
    · exact follows_drain hshown hlast woken hwaits
  · next hpoint =>
    rw [hpoint] at hstands
    cases hstep
    exact follows_keepAlive hapi hshows hstands hpend outcome
  · cases hstep

section

variable (h : Follows api resumed t s)
include h

theorem Follows.finish : Follows api resumed t s.finish := by
  obtain ⟨hpend, mark, hshows, -⟩ := h
  exact ⟨hpend, mark, hshows.same rfl, fun _ => trivial⟩

theorem Follows.wake {woken : Bool} (hstep : s.wake api woken = some s') : Follows api resumed t s' := by
  unfold Stream.wake at hstep
  split at hstep
  · next hpoint =>
    split at hstep
    · cases hstep
    · cases hstep
      split
      · exact h.finish
      · obtain ⟨hpend, mark, hshows, hstands⟩ := h
        unfold Stands at hstands
        rw [hpoint] at hstands
        exact follows_drain hshows hstands woken hpend
  · cases hstep

theorem Follows.fail (hstep : s.fail = some s') : Follows api resumed t s' := by
  unfold Stream.fail at hstep
  split at hstep
  · cases hstep
    exact h.finish
  · cases hstep
    exact h.finish
  · cases hstep

theorem Follows.listener {events : List PublishedEvent} (hevents : ∀ e ∈ events, t.Knows e) : Follows api resumed t
    (s.listener events) := by
  obtain ⟨hpend, mark, hshows, hstands⟩ := h
  unfold Stream.listener
  split
  · exact ⟨nofun, mark, hshows.same rfl, fun hlive => (hstands hlive).same rfl rfl rfl⟩
  · refine ⟨fun e he => ?_, mark, hshows.same rfl, fun hlive => (hstands hlive).same rfl rfl rfl⟩
    rcases mem_append.mp he with he | he
    · exact hpend e he
    · exact hevents e he

end

theorem Follows.abort (hapi : api.Lawful) (h : Follows api resumed t s) : Follows api resumed t (s.abort api) := by
  obtain ⟨hpend, mark, hshows, -⟩ := h
  refine ⟨hpend, mark, ⟨?_, hshows.le, hshows.bound⟩, fun hlive => ?_⟩
  · change Covers _ _ ((api.emitted (api.abort s.sse)).filterMap _) _ _
    rw [hapi.emitted_abort]
    exact hshows.covers
  · exact absurd ((hapi.aborted_abort s.sse).symm.trans hlive) Bool.noConfusion

theorem Follows.commits (h : Follows api resumed t s) {batch : List PublishedEvent} (hcommits : t.Commits t' batch) :
    Follows api resumed t' s := by
  obtain ⟨hpend, mark, hshows, hstands⟩ := h
  have hgrows {low high : ℕ} {rows : List TurnEvent} (hrows : Covers TurnEvent.seq t.turnEvents rows low high)
      (hhigh : high ≤ low ∨ high ≤ t.lastSeq) : Covers TurnEvent.seq t'.turnEvents rows low high := by
    refine hrows.grows fun row hrow => (hcommits.grows hrow).imp_right fun hnew => ?_
    rcases hhigh with hhigh | hhigh
    · omega
    · exact Or.inr (lt_of_le_of_lt hhigh hnew)
  have hle := hcommits.le
  refine ⟨fun e he => hcommits.knows (hpend e he), mark, ⟨hgrows hshows.covers ?_, hshows.le, ?_⟩, fun hlive => ?_⟩
  · have hbound := hshows.bound
    omega
  · have hbound := hshows.bound
    omega
  · have hknown {caller : Caller} (hcaller : caller.Known t) : caller.Known t' := by
      cases caller with
      | startup => trivial
      | repair => exact hcommits.knows hcaller
    have hat := hstands hlive
    unfold Stands at hat ⊢
    cases hpoint : s.point with
    | readHistory =>
      rw [hpoint] at hat
      exact ⟨hat.1, hat.2.1, hat.2.2.1, hknown hat.2.2.2⟩
    | writeHistory caller =>
      rw [hpoint] at hat
      obtain ⟨hlast, hpage, hcaller, hends, hreached, hrest, hmark, hbound⟩ := hat
      have hcursor := hshows.le
      refine ⟨hlast, hpage, hknown hcaller, hends, fun hmore => ?_, hgrows hrest (by omega), hmark, by omega⟩
      cases caller with
      | startup => trivial
      | repair event =>
        intro row hrow hbelow
        rcases hcommits.grows hrow with hold | hnew
        · exact hreached hmore row hold hbelow
        · have hevent : event.seq ≤ t.lastSeq := Tables.Knows.le hcaller
          omega
    | writeLive =>
      rw [hpoint] at hat
      exact ⟨hcommits.knows hat.1, hat.2⟩
    | _ =>
      rw [hpoint] at hat
      exact hat

end Connection

/-! ## Every run -/

/-- What holds of a world: the rows are in order, what is published was numbered, and the connection follows. -/
structure World.Sound {Sse Outcome : Type} (api : StreamingApi Sse Outcome) (resumed : ℕ) (w : World Sse) : Prop where
  tables : w.tables.Sound
  committed : ∀ batch ∈ w.committed, ∀ e ∈ batch, w.tables.Knows e
  published : ∀ batch ∈ w.published, ∀ e ∈ batch, w.tables.Knows e
  follows : Follows api resumed w.tables w.stream

namespace World.Sound

variable {Sse Outcome : Type} {api : StreamingApi Sse Outcome} {resumed : ℕ} {w w' : World Sse}

/-- A new stream is sound. -/
theorem initial (hapi : api.Lawful) (since : Option ℕ) : Sound api (since.getD 0) (initial api since) where
  tables := ⟨List.Pairwise.nil, nofun⟩
  committed := nofun
  published := nofun
  follows := by
    refine ⟨nofun, since.getD 0, ⟨?_, le_rfl, le_max_left _ _⟩, fun _ => ⟨rfl, rfl⟩⟩
    change Covers _ _ ((api.emitted api.opened).filterMap _) _ _
    rw [hapi.emitted_opened]
    exact .nil _ _

theorem commit (h : Sound api resumed w) {change : Tables × List PublishedEvent}
    (hcommits : w.tables.Commits change.1 change.2) : Sound api resumed (w.commit change) where
  tables := hcommits.sound h.tables
  committed := by
    intro batch hbatch e he
    rcases mem_cons.mp hbatch with rfl | hbatch
    · exact hcommits.knows_batch h.tables he
    · exact hcommits.knows (h.committed batch hbatch e he)
  published := fun batch hbatch e he => hcommits.knows (h.published batch hbatch e he)
  follows := h.follows.commits hcommits

theorem stream (h : Sound api resumed w) {next : Option (Stream Sse)}
    (hfol : ∀ s, next = some s → Follows api resumed w.tables s)
    (hstep : (next.map fun stream => { w with stream }) = some w') : Sound api resumed w' := by
  obtain ⟨s, hs, rfl⟩ := map_eq_some_iff.mp hstep
  exact ⟨h.tables, h.committed, h.published, hfol s hs⟩

/-- Every step keeps the stream sound. -/
theorem step (hapi : api.Lawful) (h : Sound api resumed w) (hfits : w.Fits) {choice : Choice Outcome}
    (hstep : w.step api choice = some w') : Sound api resumed w' := by
  cases choice with
  | applyTurnEvents turnId clean =>
    obtain ⟨-, hstep⟩ := ite_none_left_eq_some.mp hstep
    cases hstep
    exact h.commit (w.tables.commits_applyTurnEvents turnId clean)
  | materializeBornDoneTurn turnId events =>
    cases hstep
    exact h.commit (w.tables.commits_materializeBornDoneTurn turnId events)
  | publish =>
    obtain ⟨batch, hbatch, rfl⟩ := map_eq_some_iff.mp hstep
    refine ⟨h.tables, fun other hother => h.committed other (mem_of_mem_eraseIdx hother), fun other hother => ?_,
      h.follows⟩
    rcases mem_cons.mp hother with rfl | hother
    · exact h.committed other (mem_of_getElem? hbatch)
    · exact h.published other hother
  | deliver =>
    obtain ⟨-, hstep⟩ := ite_none_right_eq_some.mp hstep
    obtain ⟨batch, hbatch, rfl⟩ := map_eq_some_iff.mp hstep
    exact ⟨h.tables, h.committed, h.published, h.follows.listener (h.published batch (mem_of_getElem? hbatch))⟩
  | goOn =>
    refine h.stream (fun _ hs => h.follows.goOn h.tables (fun caller page cursor hpoint => ?_) hs) hstep
    unfold World.Fits at hfits
    rw [hpoint] at hfits
    exact hfits
  | endWrite => exact h.stream (fun _ hs => h.follows.endWrite hapi hs) hstep
  | wake => exact h.stream (fun _ hs => h.follows.wake hs) hstep
  | fail => exact h.stream (fun _ hs => h.follows.fail hs) hstep
  | leave =>
    cases hstep
    exact ⟨h.tables, h.committed, h.published, h.follows.abort hapi⟩

end World.Sound

/-- The transcript frames of a connection rise, and none is emitted before a row that lies above the cursor and below
it; so a reader who resumes from the last frame that arrived has missed no row. -/
theorem live_transcript_no_gaps {Sse Outcome : Type} (api : StreamingApi Sse Outcome) (hapi : api.Lawful)
    (since : Option ℕ) (choices : List (Choice Outcome)) {w : World Sse}
    (hfits : Runs.Meets (World.step api) (fun w _ => w.Fits) (World.initial api since) choices)
    (hrun : Runs.run (World.step api) (World.initial api since) choices = some w) :
    (w.transcript api).Pairwise (fun a b => a.seq < b.seq) ∧
      (∀ front frame back, w.transcript api = front ++ frame :: back →
        ∀ row ∈ w.tables.turnEvents, since.getD 0 < row.seq → row.seq < frame.seq → row ∈ front) ∧
      ∀ received, received <+: w.transcript api →
        ∀ row ∈ w.tables.turnEvents, since.getD 0 < row.seq →
          row.seq ≤ received.getLast?.elim (since.getD 0) TurnEvent.seq → row ∈ received := by
  have hsound := Runs.run_invariant_of_meets (World.step api) (I := World.Sound api (since.getD 0))
    (fun _ _ _ h hfits hstep => h.step hapi hfits hstep) (World.Sound.initial hapi since) hfits hrun
  obtain ⟨-, mark, hshows, -⟩ := hsound.follows
  exact ⟨hshows.covers.rises, fun _ _ _ htranscript _ hrow habove hbelow => hshows.covers.mem_front htranscript hrow habove hbelow,
    fun _ hreceived _ hrow habove hbelow => hshows.covers.mem_of_front hreceived hrow habove hbelow⟩

/-- A stream in memory. A write ends in time, or it stalls, and its chunk has got through or not. -/
def memory : StreamingApi (List Chunk × Bool) (Option Bool) where
  opened := ([], false)
  aborted := Prod.snd
  emitted := Prod.fst
  write sse chunk
    | none => (if sse.2 then sse else (sse.1 ++ [chunk], false), true)
    | some through => (if through && !sse.2 then (sse.1 ++ [chunk], false) else sse, false)
  abort sse := (sse.1, true)

/-- The transcript in memory answers its pages as the API does. -/
theorem memory_lawful : memory.Lawful where
  aborted_opened := rfl
  emitted_opened := rfl
  aborted_abort := fun _ => rfl
  emitted_abort := fun _ => rfl
  write_aborted := by
    rintro ⟨chunks, aborted⟩ chunk outcome (rfl : aborted = true)
    cases outcome with
    | none => exact ⟨rfl, rfl⟩
    | some through => cases through <;> exact ⟨rfl, rfl⟩
  write_emits := by
    rintro ⟨chunks, aborted⟩ chunk outcome
    cases outcome with
    | none => cases aborted <;> simp [memory]
    | some through => cases aborted <;> cases through <;> simp [memory]
  write_ended := by
    rintro ⟨chunks, aborted⟩ chunk outcome hended hlive
    cases outcome with
    | none =>
      cases aborted with
      | false => rfl
      | true => cases hlive
    | some => cases hended

/-- The second batch arrives and the first does not: the drain reads the first one back, the first event of which was
never stored. -/
def dropped : List (Choice (Option Bool)) :=
  [.goOn, .goOn, .goOn, .endWrite none, .endWrite none, .applyTurnEvents [] [⟨.textDelta, []⟩, ⟨.toolStarted, []⟩],
    .applyTurnEvents [] [⟨.toolFinished, []⟩], .publish 0, .deliver 0, .wake true, .goOn, .endWrite none, .endWrite none]

/-- A dropped publish. -/
theorem live_transcript_no_gaps_dropped : ∃ w, Runs.run (World.step memory) (World.initial memory none) dropped = some w ∧
    (w.transcript memory).map TurnEvent.seq = [2, 3] ∧ (w.transcript memory).Pairwise fun a b => a.seq < b.seq :=
  ⟨_, rfl, rfl, (live_transcript_no_gaps memory memory_lawful none dropped (by decide +kernel) rfl).1⟩

end Onecli.Transcript
