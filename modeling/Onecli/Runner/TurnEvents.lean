import Onecli.Foundation.JsonText
import Onecli.Transcript.Stream
import Mathlib.Data.List.SplitBy

/-!
# The turn event collector

`turn-events.ts`: events are buffered by turn, and a flush merges, bounds, splits and posts them. Of `JSON.stringify`
only the length of its text is read. A timer is pending or not; when it fires is a choice.
-/

namespace Onecli.Runner.TurnEvents

open Api (JsString)
open Transcript (AgentEvent EventType)
open Function (update update_apply)
open Utf16 (js)
open List

/-- `MAX_EVENTS_PER_POST`. -/
def MAX_EVENTS_PER_POST : ℕ := 100

/-- `MAX_EVENT_TEXT_CHARS`. -/
def MAX_EVENT_TEXT_CHARS : ℕ := 16000

/-- `MAX_BATCH_CHARS`. -/
def MAX_BATCH_CHARS : ℕ := 256000

/-- The texts of the kinds. -/
def typeName : EventType → String
  | .turnStarted => "turn.started"
  | .textDelta => "text.delta"
  | .thinkingDelta => "thinking.delta"
  | .text => "text"
  | .toolStarted => "tool.started"
  | .toolFinished => "tool.finished"
  | .approvalPending => "approval.pending"
  | .notice => "notice"
  | .messageJoined => "message.joined"
  | .messageSentNow => "message.sent_now"
  | .turnDone => "turn.done"
  | .error => "error"

/-- `isTerminalEvent`. -/
def isTerminalEvent (event : AgentEvent) : Bool := event.type matches .turnDone | .error

/-- `isTextual`. -/
def isTextual (event : AgentEvent) : Bool := event.type matches .textDelta | .thinkingDelta

/-- Whether an event merges into the one before it. -/
def merges (previous event : AgentEvent) : Bool :=
  isTextual event && isTextual previous && typeName previous.type == typeName event.type

/-- `event.text`. -/
def textOf (event : AgentEvent) : JsString := ((event.fields.lookup (js "text")).bind Json.asStr).getD []

/-- An event with one of its strings changed. -/
def mapString (change : JsString → JsString) (keys : List String) (event : AgentEvent) : AgentEvent :=
  { event with fields := event.fields.map fun field =>
      (field.1, match field.2 with
        | .str s => if field.1 ∈ keys.map js then .str (change s) else .str s
        | value => value) }

/-- A delta with the text of the next one. -/
def join (previous event : AgentEvent) : AgentEvent := mapString (· ++ textOf event) ["text"] previous

/-- A step of the loop of `coalesce`, on what is out. -/
def coalesceStep (out : List AgentEvent) (event : AgentEvent) : List AgentEvent :=
  match out.getLast?.filter (merges · event) with
  | some previous => out.dropLast ++ [join previous event]
  | none => out ++ [event]

/-- `coalesce`. -/
def coalesce (events : List AgentEvent) : List AgentEvent := events.foldl coalesceStep []

/-- `chunk`. -/
def chunk {A : Type} (size : ℕ) : List A → List (List A)
  | [] => []
  | item :: items => (item :: items.take (size - 1)) :: chunk size (items.drop (size - 1))
termination_by items => items.length
decreasing_by
  rw [length_drop, length_cons]
  omega

/-- `clean`. -/
def clean (value : JsString) : JsString :=
  let withoutNul := value.filter (· ≠ 0)
  if withoutNul.length ≤ MAX_EVENT_TEXT_CHARS then withoutNul
  else withoutNul.take MAX_EVENT_TEXT_CHARS ++ js "\n… [truncated " ++
    js (toString (withoutNul.length - MAX_EVENT_TEXT_CHARS)) ++ js " characters]"

/-- The strings of an event that `clamp` bounds. -/
def clamped : EventType → List String
  | .textDelta | .thinkingDelta | .text | .notice => ["text"]
  | .toolStarted => ["callId", "name"]
  | .toolFinished => ["callId", "name", "input", "output"]
  | .approvalPending => ["description"]
  | .error => ["message", "code"]
  | .messageJoined => ["followUpId"]
  | .messageSentNow => ["toolName"]
  | .turnStarted | .turnDone => []

/-- `clamp`. -/
def clamp (event : AgentEvent) : AgentEvent := mapString clean (clamped event.type) event

/-- The length of a code unit in JSON, outside of a surrogate pair. -/
def unitLength (u : UInt16) : ℕ :=
  if JsonText.escapes.any fun e => e.1 ≠ '/' && e.2 = u then 2
  else if u < 0x20 ∨ (0xD800 ≤ u ∧ u < 0xE000) then 6
  else 1

/-- The length of code units in JSON, where the first may end a surrogate pair. -/
def unitsLength : Bool → JsString → ℕ
  | _, [] => 0
  | true, _ :: rest => 1 + unitsLength false rest
  | false, u :: rest =>
    if 0xD800 ≤ u ∧ u < 0xDC00 ∧ rest.head?.any (fun v => 0xDC00 ≤ v && v < 0xE000) then 1 + unitsLength true rest
    else unitLength u + unitsLength false rest

/-- The length of a string in JSON. -/
def stringLength (s : JsString) : ℕ := unitsLength false s + 2

/-- The length of a value in JSON. -/
def jsonLength : Json JsString → ℕ
  | .null => 4
  | .bool b => if b then 4 else 5
  | .num literal => literal.length
  | .str s => stringLength s
  | .arr items => max 2 ((items.map fun item => jsonLength item + 1).sum + 1)
  | .obj members => max 2 ((members.map fun member => stringLength member.1 + jsonLength member.2 + 2).sum + 1)
decreasing_by
  · simp_wf
    have := sizeOf_lt_of_mem ‹_ ∈ _›
    omega
  · simp_wf
    have hmember := sizeOf_lt_of_mem ‹_ ∈ _›
    rcases member with ⟨key, value⟩
    simp at hmember ⊢
    omega

/-- `JSON.stringify(event).length + 1`. -/
def cost (event : AgentEvent) : ℕ :=
  jsonLength (.obj ((js "type", .str (js (typeName event.type))) :: event.fields)) + 1

/-- The costs of events together. -/
def costs (events : List AgentEvent) : ℕ := (events.map cost).sum

/-- The loop of `chunkBySize`; the size is what the current events cost. -/
def chunkLoop (maxChars : ℕ) (current : List AgentEvent) : List AgentEvent → List (List AgentEvent)
  | [] => if current = [] then [] else [current]
  | event :: events =>
    if current ≠ [] ∧ maxChars < costs current + cost event then current :: chunkLoop maxChars [event] events
    else chunkLoop maxChars (current ++ [event]) events

/-- `chunkBySize`. -/
def chunkBySize (events : List AgentEvent) (maxChars : ℕ) : List (List AgentEvent) := chunkLoop maxChars [] events

/-- `RunnerEvent` of the kind `turn.events`. -/
structure TurnPost where
  sandboxId : ℕ
  conversationId : ℕ
  turnId : ℕ
  events : List AgentEvent

/-- The length of the serialized events of a post. -/
def TurnPost.serialized (post : TurnPost) : ℕ := costs post.events + 1

/-- `Buffered`, with whether its timer is set. -/
structure Buffered where
  sandboxId : ℕ
  conversationId : ℕ
  events : List AgentEvent
  timer : Bool

/-- The collector: its buffers, their keys in the order of their insertion, and what it has posted. -/
structure Collector where
  buffers : ℕ → Option Buffered
  order : List ℕ
  posts : List TurnPost

/-- What a flush makes of the events of a buffer. -/
def prepare (events : List AgentEvent) : List AgentEvent := (coalesce events).map clamp

/-- The batches of prepared events. -/
def batches (prepared : List AgentEvent) : List (List AgentEvent) :=
  (chunk MAX_EVENTS_PER_POST prepared).flatMap fun byCount => chunkBySize byCount MAX_BATCH_CHARS

namespace Collector

/-- `flush`. -/
def flush (w : Collector) (turnId : ℕ) : Collector :=
  match w.buffers turnId with
  | none => w
  | some buffered =>
    { buffers := update w.buffers turnId none
      order := w.order.filter (· ≠ turnId)
      posts := w.posts ++ (batches (prepare buffered.events)).map fun batch =>
        ⟨buffered.sandboxId, buffered.conversationId, turnId, batch⟩ }

/-- `flushConversation`. -/
def flushConversation (w : Collector) (conversationId except : ℕ) : Collector :=
  (w.order.filter fun turnId =>
    turnId ≠ except && (w.buffers turnId).any (·.conversationId = conversationId)).foldl flush w

/-- A buffer with an event, put back under its key. -/
def buffer (w : Collector) (sandboxId conversationId turnId : ℕ) (event : AgentEvent) (timer : Bool) : Collector :=
  let buffered := (w.buffers turnId).getD ⟨sandboxId, conversationId, [], false⟩
  { w with
    buffers := update w.buffers turnId (some { buffered with
      events := buffered.events ++ [event], timer := buffered.timer || timer })
    order := if (w.buffers turnId).isSome then w.order else w.order ++ [turnId] }

/-- `add`. -/
def add (w : Collector) (sandboxId conversationId turnId : ℕ) (event : AgentEvent) : Collector :=
  if isTerminalEvent event then
    ((w.buffer sandboxId conversationId turnId event false).flushConversation conversationId turnId).flush turnId
  else w.buffer sandboxId conversationId turnId event true

end Collector

/-- A call of the collector, or a timer that fires. -/
inductive Call where
  | add (sandboxId conversationId turnId : ℕ) (event : AgentEvent)
  | flush (turnId : ℕ)
  | flushAll
  | timer (turnId : ℕ)

/-- A step of the collector. -/
def step (w : Collector) : Call → Option Collector
  | .add sandboxId conversationId turnId event => some (w.add sandboxId conversationId turnId event)
  | .flush turnId => some (w.flush turnId)
  | .flushAll => some (w.order.foldl Collector.flush w)
  | .timer turnId => if (w.buffers turnId).any (·.timer) then some (w.flush turnId) else none

/-- `createTurnEventCollector`. -/
def start : Collector := ⟨fun _ => none, [], []⟩

/-! ## What a flush posts -/

theorem chunk_spec (size : ℕ) (items : List AgentEvent) :
    (chunk size items).flatten = items ∧ ∀ part ∈ chunk size items, part.length ≤ max 1 size := by
  induction items using chunk.induct size with
  | case1 =>
    rw [chunk]
    exact ⟨rfl, nofun⟩
  | case2 item items ih =>
    rw [chunk]
    refine ⟨?_, fun part hpart => ?_⟩
    · rw [flatten_cons, ih.1, cons_append, take_append_drop]
    · cases hpart with
      | head =>
        rw [length_cons, length_take]
        omega
      | tail _ hpart => exact ih.2 part hpart

theorem chunkLoop_spec (maxChars : ℕ) (current events : List AgentEvent)
    (hcurrent : costs current ≤ maxChars ∨ ∃ event, current = [event]) :
    (chunkLoop maxChars current events).flatten = current ++ events ∧
      ∀ batch ∈ chunkLoop maxChars current events, costs batch ≤ maxChars ∨ ∃ event, batch = [event] := by
  induction events generalizing current with
  | nil =>
    rw [chunkLoop, append_nil]
    split_ifs with hempty
    · exact ⟨hempty.symm, nofun⟩
    · exact ⟨flatten_singleton, fun batch hbatch => mem_singleton.mp hbatch ▸ hcurrent⟩
  | cons event events ih =>
    rw [chunkLoop]
    split_ifs with hfull
    · obtain ⟨hflatten, hsizes⟩ := ih [event] (Or.inr ⟨event, rfl⟩)
      exact ⟨congrArg (current ++ ·) hflatten, forall_mem_cons.mpr ⟨hcurrent, hsizes⟩⟩
    · have hnext : costs (current ++ [event]) ≤ maxChars ∨ ∃ e, current ++ [event] = [e] := by
        by_cases hempty : current = []
        · exact Or.inr ⟨event, by rw [hempty, nil_append]⟩
        · rw [costs, map_append, sum_append, map_singleton, sum_singleton]
          exact Or.inl (Nat.le_of_not_lt fun hlt => hfull ⟨hempty, hlt⟩)
      obtain ⟨hflatten, hsizes⟩ := ih (current ++ [event]) hnext
      exact ⟨by rw [hflatten, append_assoc, singleton_append], hsizes⟩

/-- Batching keeps the events in order. -/
theorem batches_flatten (prepared : List AgentEvent) : (batches prepared).flatten = prepared := by
  have hsizes : (fun byCount => (chunkBySize byCount MAX_BATCH_CHARS).flatten) = id :=
    funext fun byCount => (chunkLoop_spec MAX_BATCH_CHARS [] byCount (Or.inl (Nat.zero_le _))).1
  rw [batches, flatMap_def, flatten_flatten, map_map, ← flatMap_def]
  exact (congrArg (flatMap · _) hsizes).trans (flatMap_id.trans (chunk_spec _ _).1)

/-- No prepared event fills a post by itself, and no run of them misses its last bracket. -/
def Fits (prepared : List AgentEvent) : Prop :=
  (∀ event ∈ prepared, cost event < MAX_BATCH_CHARS) ∧ ∀ stretch, stretch <:+: prepared → costs stretch ≠ MAX_BATCH_CHARS

theorem costs_le {stretch events : List AgentEvent} (h : stretch <:+: events) : costs stretch ≤ costs events := by
  obtain ⟨front, back, rfl⟩ := h
  rw [costs, costs, map_append, map_append, sum_append, sum_append]
  omega

/-- No event of a batch costs more than the batch. -/
theorem cost_le {event : AgentEvent} {events : List AgentEvent} (h : event ∈ events) : cost event ≤ costs events :=
  costs_le ((singleton_infix_iff event events).mpr h)

/-- A batch below the limit fits its post. -/
theorem fits_of_costs {prepared : List AgentEvent} (h : costs prepared < MAX_BATCH_CHARS) : Fits prepared :=
  ⟨fun _ hevent => (cost_le hevent).trans_lt h, fun _ hpart => ((costs_le hpart).trans_lt h).ne⟩

theorem batch_legal {prepared batch : List AgentEvent} (hfits : Fits prepared) (hbatch : batch ∈ batches prepared) :
    batch.length ≤ MAX_EVENTS_PER_POST ∧ costs batch < MAX_BATCH_CHARS := by
  have hpart := batches_flatten prepared ▸ infix_of_mem_flatten hbatch
  obtain ⟨byCount, hcount, hsize⟩ := mem_flatMap.mp hbatch
  obtain ⟨hflatten, hsizes⟩ := chunkLoop_spec MAX_BATCH_CHARS [] byCount (Or.inl (Nat.zero_le _))
  have hlength := (hflatten ▸ infix_of_mem_flatten hsize).length_le
  refine ⟨hlength.trans ((chunk_spec _ _).2 byCount hcount), ?_⟩
  cases hsizes batch hsize with
  | inl hle => exact lt_of_le_of_ne hle (hfits.2 batch hpart)
  | inr hone =>
    obtain ⟨event, rfl⟩ := hone
    exact hfits.1 event (hpart.subset mem_cons_self)

/-- A run of deltas as one event. -/
def merged : List AgentEvent → List AgentEvent
  | [] => []
  | event :: events => [events.foldl join event]

theorem merged_concat {group : List AgentEvent} {p : AgentEvent} (h : merged group = [p]) (event : AgentEvent) :
    merged (group ++ [event]) = [join p event] := by
  cases group with
  | nil => cases h
  | cons first rest =>
    cases h
    exact congrArg (fun e => [e]) (foldl_concat join first event rest)

theorem merges_join {p event : AgentEvent} (h : merges p event) (next : AgentEvent) :
    merges (join p event) next = merges event next := by
  obtain ⟨htextual, hname⟩ := Bool.and_eq_true_iff.mp h
  obtain ⟨hevent, hp⟩ := Bool.and_eq_true_iff.mp htextual
  rw [merges, merges, hevent, ← beq_iff_eq.mp hname]
  exact congrArg (isTextual next && · && typeName p.type == typeName next.type) hp

theorem foldl_coalesceStep (events : List AgentEvent) (p a : AgentEvent) (group : List AgentEvent)
    (groups : List (List AgentEvent)) (hp : merged (a :: group).reverse = [p])
    (hlike : ∀ next, merges p next = merges a next) :
    events.foldl coalesceStep (groups.reverse.flatMap merged ++ [p]) =
      (splitBy.loop merges events a group groups).flatMap merged := by
  induction events generalizing p a group groups with
  | nil =>
    rw [splitBy.loop, reverse_cons, flatMap_append, flatMap_singleton, hp]
    rfl
  | cons event events ih =>
    rw [foldl_cons, splitBy.loop, coalesceStep, getLast?_concat, dropLast_concat]
    cases hmerges : merges a event with
    | true =>
      have hnext : merges p event = true := (hlike event).trans hmerges
      have hjoin := merged_concat hp event
      rw [Option.filter_some, if_pos hnext]
      rw [← reverse_cons] at hjoin
      exact ih (join p event) event (a :: group) groups hjoin (merges_join hnext)
    | false =>
      rw [Option.filter_some, if_neg (ne_true_of_eq_false ((hlike event).trans hmerges))]
      have hrest := ih event event [] ((a :: group).reverse :: groups) rfl fun _ => rfl
      rw [reverse_cons, flatMap_append, flatMap_singleton, hp] at hrest
      exact hrest

/-- Adjacent deltas of one kind are merged, and nothing else. -/
theorem coalesce_eq (events : List AgentEvent) : coalesce events = (events.splitBy merges).flatMap merged := by
  cases events with
  | nil => rfl
  | cons event events => exact foldl_coalesceStep events event event [] [] rfl fun _ => rfl

/-! ## What is held and what is posted -/

namespace Collector

variable (w : Collector) (s t : ℕ)

/-- The events of a turn that are buffered. -/
def held : List AgentEvent := ((w.buffers t).map (·.events)).getD []

/-- The events of a turn that are posted. -/
def posted : List AgentEvent := (w.posts.filter (·.turnId = t)).flatMap (·.events)

/-- A flush empties its buffer. -/
theorem buffers_flush : (w.flush s).buffers = update w.buffers s none := by
  unfold flush
  split
  · rename_i hnone
    exact (Function.update_eq_self_iff.mpr hnone.symm).symm
  · rfl

/-- A flush adds the posts of its batches. -/
theorem posts_flush : ∃ sandboxId conversationId, (w.flush s).posts =
    w.posts ++ (batches (prepare (w.held s))).map fun batch => ⟨sandboxId, conversationId, s, batch⟩ := by
  unfold flush held
  split
  · rename_i hnone
    have hempty : batches (prepare []) = [] := by
      rw [batches, prepare, coalesce, foldl_nil, map_nil, chunk, flatMap_nil]
    rw [hnone, Option.map_none, Option.getD_none, hempty]
    exact ⟨0, 0, (append_nil _).symm⟩
  · rename_i buffered hsome
    rw [hsome]
    exact ⟨buffered.sandboxId, buffered.conversationId, rfl⟩

theorem held_flush : (w.flush s).held t = if t = s then [] else w.held t := by
  rw [held, buffers_flush, update_apply]
  split_ifs <;> rfl

/-- A flush posts what the turn holds. -/
theorem events_flush : (w.flush s).posts.flatMap (·.events) = w.posts.flatMap (·.events) ++ prepare (w.held s) := by
  obtain ⟨sandboxId, conversationId, hposts⟩ := posts_flush w s
  rw [hposts, flatMap_append, flatMap_map]
  exact congrArg _ (flatMap_id'.trans (batches_flatten _))

theorem posted_flush : (w.flush s).posted t = w.posted t ++ if t = s then prepare (w.held s) else [] := by
  obtain ⟨sandboxId, conversationId, hposts⟩ := posts_flush w s
  rw [posted, hposts, filter_append, flatMap_append, filter_map, flatMap_map]
  refine congrArg _ ?_
  by_cases h : t = s
  · simp [Function.comp_def, h, flatMap_def, batches_flatten]
  · simp [Function.comp_def, h, Ne.symm h]

theorem buffers_foldl (ids : List ℕ) :
    (ids.foldl flush w).buffers t = if t ∈ ids then none else w.buffers t := by
  induction ids generalizing w with
  | nil => rfl
  | cons id ids ih =>
    rw [foldl_cons, ih, buffers_flush, update_apply]
    by_cases hid : t = id
    · rw [if_pos hid, ite_self, if_pos (mem_cons.mpr (Or.inl hid))]
    · simp only [mem_cons, hid, false_or, if_false]

theorem buffers_buffer (sandboxId conversationId : ℕ) (event : AgentEvent) (timer : Bool) :
    ∃ b : Buffered, b.events = w.held t ++ [event] ∧
      (w.buffer sandboxId conversationId t event timer).buffers = update w.buffers t (some b) := by
  refine ⟨_, ?_, rfl⟩
  unfold held
  cases w.buffers t <;> rfl

theorem held_buffer (sandboxId conversationId turnId : ℕ) (event : AgentEvent) (timer : Bool) :
    (w.buffer sandboxId conversationId turnId event timer).held t =
      w.held t ++ if t = turnId then [event] else [] := by
  obtain ⟨b, hevents, hbuffers⟩ := buffers_buffer w turnId sandboxId conversationId event timer
  rw [held, hbuffers, update_apply]
  split_ifs with h
  · exact h ▸ hevents
  · exact (append_nil _).symm

/-- A buffered turn is listed. -/
theorem listed_buffer (hlisted : ∀ id, (w.buffers id).isSome → id ∈ w.order) (sandboxId conversationId : ℕ)
    (event : AgentEvent) (timer : Bool) (id : ℕ)
    (hsome : ((w.buffer sandboxId conversationId t event timer).buffers id).isSome) :
    id ∈ (w.buffer sandboxId conversationId t event timer).order := by
  obtain ⟨b, -, hbuffers⟩ := buffers_buffer w t sandboxId conversationId event timer
  rw [hbuffers, update_apply] at hsome
  unfold buffer
  split_ifs at hsome ⊢ with hold hid hid
  · exact hid ▸ hlisted t hold
  · exact hlisted id hsome
  · exact hid ▸ mem_append_right _ mem_cons_self
  · exact mem_append_left _ (hlisted id hsome)

end Collector

/-- The events of a turn that are added. -/
def added (turnId : ℕ) (calls : List Call) : List AgentEvent :=
  calls.flatMap fun
    | .add _ _ id event => if turnId = id then [event] else []
    | _ => []

/-- What the calls make of a turn: the stretches that were flushed, and the one that is buffered with its conversation. -/
structure Stretches where
  flushed : List (List AgentEvent)
  buffered : Option (ℕ × List AgentEvent)

namespace Stretches

/-- The turn is flushed. -/
def close (s : Stretches) : Stretches := ⟨s.flushed ++ (s.buffered.map Prod.snd).toList, none⟩

/-- An event is buffered. -/
def push (s : Stretches) (conversationId : ℕ) (event : AgentEvent) : Stretches :=
  let held := s.buffered.getD (conversationId, [])
  { s with buffered := some (held.1, held.2 ++ [event]) }

/-- A call: a turn is flushed by name, with all others, by its timer, by its own terminal event, and by one of another
turn of its conversation. -/
def next (turnId : ℕ) (s : Stretches) : Call → Stretches
  | .add _ conversationId id event =>
    if turnId = id then
      if isTerminalEvent event then (s.push conversationId event).close else s.push conversationId event
    else if isTerminalEvent event ∧ s.buffered.any (·.1 = conversationId) then s.close else s
  | .flush id => if turnId = id then s.close else s
  | .flushAll => s.close
  | .timer id => if turnId = id then s.close else s

/-- The events of the turn, in order. -/
def events (s : Stretches) : List AgentEvent := s.flushed.flatten ++ (s.buffered.map Prod.snd).getD []

theorem close_of_none {s : Stretches} (h : s.buffered = none) : s.close = s := by
  rcases s with ⟨flushed, buffered⟩
  cases h
  exact congrArg (Stretches.mk · none) (append_nil flushed)

theorem events_close (s : Stretches) : s.close.events = s.events := by
  rcases s with ⟨flushed, _ | b⟩ <;> simp [close, events]

theorem events_push (s : Stretches) (conversationId : ℕ) (event : AgentEvent) :
    (s.push conversationId event).events = s.events ++ [event] := by
  rcases s with ⟨flushed, _ | b⟩ <;> simp [push, events]

end Stretches

/-- The stretches of a turn, read off the calls. -/
def stretches (turnId : ℕ) (calls : List Call) : Stretches := calls.foldl (Stretches.next turnId) ⟨[], none⟩

/-- The stretches are the added events, cut at the flushes. -/
theorem events_stretches (turnId : ℕ) (calls : List Call) : (stretches turnId calls).events = added turnId calls := by
  induction calls using List.reverseRecOn with
  | nil => rfl
  | append_singleton calls call ih =>
    rw [stretches, foldl_concat, ← stretches, added, flatMap_append, flatMap_singleton, ← added, ← ih]
    cases call with
    | add _ _ id event =>
      simp only [Stretches.next]
      split_ifs <;> simp [Stretches.events_close, Stretches.events_push]
    | flushAll => simp [Stretches.next, Stretches.events_close]
    | _ =>
      simp only [Stretches.next]
      split_ifs <;> simp [Stretches.events_close]

/-- The collector buffers a turn's last stretch and has posted the others. -/
structure Accounts (w : Collector) (turnId : ℕ) (s : Stretches) : Prop where
  buffered : (w.buffers turnId).map (fun b => (b.conversationId, b.events)) = s.buffered
  posted : w.posted turnId = s.flushed.flatMap prepare

/-- What always holds of a collector: what it has posted is legal, what it holds will be, and its buffers are listed. -/
structure Sound (w : Collector) : Prop where
  legal : ∀ post ∈ w.posts, post.events.length ≤ MAX_EVENTS_PER_POST ∧ post.serialized ≤ MAX_BATCH_CHARS
  fits : ∀ turnId, Fits (prepare (w.held turnId))
  listed : ∀ turnId, (w.buffers turnId).isSome → turnId ∈ w.order

variable {calls : List Call} {w w' : Collector} {s : Stretches} {t : ℕ}

/-- What a turn holds is its last stretch. -/
theorem Accounts.held (h : Accounts w t s) : w.held t = (s.buffered.map Prod.snd).getD [] := by
  rw [← h.buffered, Option.map_map]
  rfl

theorem Accounts.flush (h : Accounts w t s) (id : ℕ) : Accounts (w.flush id) t (if t = id then s.close else s) := by
  have hheld := h.held
  refine ⟨?_, ?_⟩
  · rw [Collector.buffers_flush, update_apply]
    split_ifs
    · rfl
    · exact h.buffered
  · rw [Collector.posted_flush, h.posted]
    split_ifs with hid
    · subst hid
      rw [hheld, Stretches.close, flatMap_append]
      cases s.buffered with
      | none => rfl
      | some b => exact congrArg _ (flatMap_singleton prepare b.2).symm
    · exact append_nil _

theorem Accounts.foldl (h : Accounts w t s) (ids : List ℕ) :
    Accounts (ids.foldl Collector.flush w) t (if t ∈ ids then s.close else s) := by
  induction ids generalizing w s with
  | nil => exact h
  | cons id ids ih =>
    have hrest := ih (h.flush id)
    rw [foldl_cons]
    split_ifs at hrest ⊢ <;> simp_all [Stretches.close]

theorem Accounts.buffer (h : Accounts w t s) (sandboxId conversationId id : ℕ) (event : AgentEvent) (timer : Bool) :
    Accounts (w.buffer sandboxId conversationId id event timer) t (if t = id then s.push conversationId event else s) := by
  refine ⟨?_, ?_⟩
  · have hbuffered := h.buffered
    unfold Collector.buffer
    by_cases hid : t = id
    · subst hid
      rw [if_pos rfl, Stretches.push, ← hbuffered]
      cases w.buffers t <;> simp
    · rw [if_neg hid]
      simpa [update_apply, hid] using hbuffered
  · have hsame : (if t = id then s.push conversationId event else s).flushed = s.flushed := by split_ifs <;> rfl
    rw [hsame]
    exact h.posted

theorem Accounts.flushConversation (h : Accounts w t s) (hlisted : (w.buffers t).isSome → t ∈ w.order)
    (conversationId except : ℕ) :
    Accounts (w.flushConversation conversationId except) t
      (if t ≠ except ∧ s.buffered.any (·.1 = conversationId) then s.close else s) := by
  have hiff : t ∈ w.order.filter (fun turnId =>
        turnId ≠ except && (w.buffers turnId).any (·.conversationId = conversationId)) ↔
      t ≠ except ∧ s.buffered.any (·.1 = conversationId) := by
    rw [mem_filter, ← h.buffered]
    cases hb : w.buffers t with
    | none => simp
    | some b => simp [hlisted (hb ▸ rfl)]
  have hflushed := h.foldl (w.order.filter fun turnId =>
    turnId ≠ except && (w.buffers turnId).any (·.conversationId = conversationId))
  simp only [hiff] at hflushed
  exact hflushed

/-- A call of the collector does with every turn what it does with its stretches. -/
theorem Accounts.step {call : Call} (h : Accounts w t s) (hsound : Sound w) (hstep : step w call = some w') :
    Accounts w' t (s.next t call) := by
  cases call with
  | add sandboxId conversationId turnId event =>
    cases hstep
    have hbuffer := h.buffer sandboxId conversationId turnId event
    have hrest := (hbuffer false).flushConversation (w.listed_buffer turnId hsound.listed _ _ _ _ t) conversationId turnId
    unfold Collector.add
    simp only [Stretches.next]
    by_cases hterminal : isTerminalEvent event
    · rw [if_pos hterminal]
      have hlast := hrest.flush turnId
      by_cases hid : t = turnId <;> simpa [hid, hterminal] using hlast
    · rw [if_neg hterminal]
      simpa [hterminal] using hbuffer true
  | flush turnId => exact Option.some.inj hstep ▸ h.flush turnId
  | flushAll =>
    have hall := h.foldl w.order
    cases hstep
    split_ifs at hall with hmem
    · exact hall
    · have hnone := Option.not_isSome_iff_eq_none.mp fun hsome => hmem (hsound.listed t hsome)
      rw [Stretches.next, Stretches.close_of_none (h.buffered ▸ hnone ▸ rfl)]
      exact hall
  | timer turnId =>
    cases (Option.ite_none_right_eq_some.mp hstep).2
    exact h.flush turnId

theorem Sound.flush (h : Sound w) (turnId : ℕ) : Sound (w.flush turnId) := by
  refine ⟨fun post hpost => ?_, fun id => ?_, fun id hsome => ?_⟩
  · obtain ⟨sandboxId, conversationId, hposts⟩ := Collector.posts_flush w turnId
    cases mem_append.mp (hposts ▸ hpost) with
    | inl hold => exact h.legal post hold
    | inr hnew =>
      obtain ⟨batch, hbatch, rfl⟩ := mem_map.mp hnew
      exact batch_legal (h.fits turnId) hbatch
  · rw [Collector.held_flush]
    split_ifs
    · exact @fits_of_costs [] (by decide)
    · exact h.fits id
  · rw [Collector.buffers_flush, update_apply] at hsome
    have hne : id ≠ turnId := fun heq => by rw [if_pos heq] at hsome; cases hsome
    rw [if_neg hne] at hsome
    have hlisted := h.listed id hsome
    unfold Collector.flush
    split
    · exact hlisted
    · exact mem_filter.mpr ⟨hlisted, decide_eq_true hne⟩

theorem Sound.foldl (h : Sound w) (ids : List ℕ) : Sound (ids.foldl Collector.flush w) := by
  induction ids generalizing w with
  | nil => exact h
  | cons id ids ih => exact ih (h.flush id)

theorem Sound.buffer (h : Sound w) (sandboxId conversationId : ℕ) {turnId : ℕ} {event : AgentEvent}
    (hfits : Fits (prepare (w.held turnId ++ [event]))) (timer : Bool) :
    Sound (w.buffer sandboxId conversationId turnId event timer) := by
  refine ⟨h.legal, fun id => ?_, w.listed_buffer turnId h.listed _ _ _ _⟩
  rw [Collector.held_buffer]
  split_ifs with hid
  · exact hid ▸ hfits
  · rw [append_nil]
    exact h.fits id

/-- The condition on a call: with a new event, what its turn holds still fits. -/
def Fitting (w : Collector) : Call → Prop
  | .add _ _ turnId event => Fits (prepare (w.held turnId ++ [event]))
  | _ => True

/-- Every fitting call keeps the batcher sound. -/
theorem Sound.step {call : Call} (h : Sound w) (hfits : Fitting w call) (hstep : step w call = some w') : Sound w' := by
  cases call with
  | add sandboxId conversationId turnId event =>
    cases hstep
    unfold Collector.add
    split_ifs
    · exact ((h.buffer sandboxId conversationId hfits false).foldl _).flush turnId
    · exact h.buffer sandboxId conversationId hfits true
  | flush turnId => exact Option.some.inj hstep ▸ h.flush turnId
  | flushAll => exact Option.some.inj hstep ▸ h.foldl _
  | timer turnId => exact Option.some.inj (Option.ite_none_right_eq_some.mp hstep).2 ▸ h.flush turnId

/-- What holds after calls. -/
def Holds (calls : List Call) (w : Collector) : Prop := Sound w ∧ ∀ turnId, Accounts w turnId (stretches turnId calls)

/-- Every fitting call keeps the events in order. -/
theorem holds_step {call : Call} (h : Holds calls w) (hfits : Fitting w call) (hstep : step w call = some w') :
    Holds (calls ++ [call]) w' := by
  refine ⟨h.1.step hfits hstep, fun turnId => ?_⟩
  rw [stretches, foldl_concat]
  exact (h.2 turnId).step h.1 hstep

/-- Before any call nothing is held. -/
theorem holds_start : Holds [] start :=
  ⟨⟨nofun, fun _ => @fits_of_costs [] (by decide), nofun⟩, fun _ => ⟨rfl, rfl⟩⟩

/-- A terminal event flushes its turn and is the last posted. -/
theorem add_terminal (hlisted : ∀ id, (w.buffers id).isSome → id ∈ w.order) (sandboxId : ℕ)
    {conversationId turnId : ℕ} {event : AgentEvent} (hterminal : isTerminalEvent event) :
    (∀ id b, (w.add sandboxId conversationId turnId event).buffers id = some b → b.conversationId ≠ conversationId) ∧
      (w.add sandboxId conversationId turnId event).held turnId = [] ∧
      ((w.add sandboxId conversationId turnId event).posts.flatMap (·.events)).getLast? = some (clamp event) := by
  unfold Collector.add
  rw [if_pos hterminal]
  have hbuffer := w.listed_buffer turnId hlisted sandboxId conversationId event false
  generalize hw' : w.buffer sandboxId conversationId turnId event false = w' at hbuffer
  have hheld : (w'.flushConversation conversationId turnId).held turnId = w.held turnId ++ [event] := by
    rw [Collector.held, Collector.flushConversation, Collector.buffers_foldl, if_neg fun hmem => ?_, ← Collector.held]
    · rw [← hw', Collector.held_buffer, if_pos rfl]
    · exact absurd rfl (of_decide_eq_true (Bool.and_eq_true_iff.mp (mem_filter.mp hmem).2).1)
  refine ⟨fun id b hb heq => ?_, ?_, ?_⟩
  · rw [Collector.buffers_flush, update_apply, Collector.flushConversation, Collector.buffers_foldl] at hb
    split_ifs at hb with hid hmem
    refine hmem (mem_filter.mpr ⟨hbuffer id (hb ▸ rfl), Bool.and_eq_true_iff.mpr ⟨decide_eq_true hid, ?_⟩⟩)
    rw [hb]
    exact decide_eq_true heq
  · rw [Collector.held_flush, if_pos rfl]
  · have hprepare : prepare (w.held turnId ++ [event]) = (coalesce (w.held turnId)).map clamp ++ [clamp event] := by
      have htextual (previous : AgentEvent) : merges previous event = false := by
        unfold isTerminalEvent at hterminal
        unfold merges isTextual
        cases htype : event.type <;> simp_all
      rw [prepare, coalesce, foldl_concat, coalesceStep]
      have hnone : (coalesce (w.held turnId)).getLast?.filter (merges · event) = none :=
        Option.filter_eq_none_iff.mpr fun previous _ => Bool.eq_false_iff.mp (htextual previous)
      rw [← coalesce, hnone, map_append, map_singleton]
    rw [Collector.events_flush, hheld, hprepare, ← append_assoc, getLast?_concat]

/-- Where what is added always fits, every post is legal, each turn's posts are its events in order with what was
buffered together merged, and a terminal event is posted after all that its conversation held. -/
theorem posts_legal_faithful (hfits : Runs.Meets step Fitting start calls) (hrun : Runs.run step start calls = some w) :
    (∀ post ∈ w.posts, post.events.length ≤ MAX_EVENTS_PER_POST ∧ post.serialized ≤ MAX_BATCH_CHARS) ∧
      (∀ turnId, (stretches turnId calls).flushed.flatten ++ w.held turnId = added turnId calls ∧
        w.posted turnId =
          (stretches turnId calls).flushed.flatMap fun stretch => ((stretch.splitBy merges).flatMap merged).map clamp) ∧
      ∀ front sandboxId conversationId turnId event, calls = front ++ [.add sandboxId conversationId turnId event] →
        isTerminalEvent event →
          (∀ id b, w.buffers id = some b → b.conversationId ≠ conversationId) ∧ w.held turnId = [] ∧
            (w.posts.flatMap (·.events)).getLast? = some (clamp event) := by
  have hholds := Runs.history_of_meets step (fun _ _ _ _ => holds_step) holds_start hfits hrun
  refine ⟨hholds.1.legal, fun turnId => ?_, ?_⟩
  · have haccounts := hholds.2 turnId
    refine ⟨?_, haccounts.posted.trans (congrArg (flatMap · _) (funext fun stretch => ?_))⟩
    · rw [haccounts.held, ← events_stretches]
      rfl
    · rw [prepare, coalesce_eq]
  · intro front sandboxId conversationId turnId event hcalls hterminal
    subst hcalls
    rw [Runs.run_append] at hrun
    obtain ⟨before, hfront, hlast⟩ := Option.bind_eq_some_iff.mp hrun
    obtain ⟨after, hstep, hend⟩ := (Runs.run_cons_eq_some_iff step _ _ _ _).mp hlast
    cases hend
    cases hstep
    have hbefore := Runs.history_of_meets step (fun _ _ _ _ => holds_step) holds_start (hfits.front step) hfront
    exact add_terminal hbefore.1.listed sandboxId hterminal

/-- The end of a tool that reads control characters. -/
def controlCharacters : AgentEvent :=
  let text := replicate MAX_EVENT_TEXT_CHARS (1 : UInt16)
  ⟨.toolFinished, [(js "callId", .str text), (js "name", .str text), (js "output", .str text)]⟩

/-- A control character takes six units. -/
theorem unitsLength_replicate (n : ℕ) : unitsLength false (replicate n 1) = 6 * n := by
  induction n with
  | zero => rfl
  | succ n ih =>
    have hunit : unitLength 1 = 6 := by decide
    rw [replicate_succ, unitsLength, if_neg fun h => absurd h.1 (by decide), ih, hunit]
    omega

/-- Cleaning keeps these control characters. -/
theorem clean_replicate : clean (replicate MAX_EVENT_TEXT_CHARS 1) = replicate MAX_EVENT_TEXT_CHARS 1 := by
  generalize hn : MAX_EVENT_TEXT_CHARS = n
  have hfilter : (replicate n (1 : UInt16)).filter (· ≠ 0) = replicate n 1 :=
    filter_eq_self.mpr fun u hu => eq_of_mem_replicate hu ▸ rfl
  rw [clean, hfilter, if_pos (length_replicate.trans hn.symm).le]

/-- One event alone can exceed the limit of a post. -/
theorem oversized_post : ∃ calls w, Runs.run step start calls = some w ∧
    ∃ post ∈ w.posts, MAX_BATCH_CHARS < post.serialized := by
  refine ⟨[.add 0 0 0 controlCharacters, .flush 0], _, rfl, ?_⟩
  have hclamp : clamp controlCharacters = controlCharacters := by
    simp [clamp, clamped, mapString, controlCharacters, clean_replicate]
  have hevents := (start.add 0 0 0 controlCharacters).events_flush 0
  have hmem : controlCharacters ∈ ((start.add 0 0 0 controlCharacters).flush 0).posts.flatMap (·.events) := by
    have hprepare : prepare ((start.add 0 0 0 controlCharacters).held 0) = [clamp controlCharacters] := rfl
    rw [hevents, hprepare, hclamp]
    exact mem_append_right _ mem_cons_self
  obtain ⟨post, hpost, hmem⟩ := mem_flatMap.mp hmem
  refine ⟨post, hpost, Nat.lt_succ_of_lt (lt_of_lt_of_le ?_ (cost_le hmem))⟩
  rw [cost, jsonLength]
  simp only [controlCharacters, map_cons, map_nil, sum_cons, sum_nil, jsonLength, stringLength, unitsLength_replicate]
  unfold MAX_BATCH_CHARS MAX_EVENT_TEXT_CHARS
  omega

/-- A delta. -/
def delta (type : EventType) (text : String) : AgentEvent := ⟨type, [(js "text", .str (js text))]⟩

/-- A turn streams deltas of two kinds over a flush, and ends. -/
def streamed : List Call :=
  [.add 0 0 0 (delta .textDelta "a"), .add 0 0 0 (delta .textDelta "b"), .add 0 0 0 (delta .thinkingDelta "c"), .flush 0,
    .add 0 0 0 (delta .thinkingDelta "d"), .add 0 0 0 ⟨.turnDone, []⟩]

/-- The deltas of one kind that no flush parts are merged. -/
theorem posts_legal_faithful_streamed :
    ∃ w, Runs.run step start streamed = some w ∧
      w.posted 0 = [delta .textDelta "ab", delta .thinkingDelta "c", delta .thinkingDelta "d", ⟨.turnDone, []⟩] := by
  have hsmall : Fits [delta .textDelta "a"] ∧ Fits [delta .textDelta "ab"] ∧
      Fits [delta .textDelta "ab", delta .thinkingDelta "c"] ∧ Fits [delta .thinkingDelta "d"] ∧
      Fits [delta .thinkingDelta "d", ⟨.turnDone, []⟩] := by
    refine ⟨fits_of_costs ?_, fits_of_costs ?_, fits_of_costs ?_, fits_of_costs ?_, fits_of_costs ?_⟩ <;>
      simp only [costs, cost, jsonLength, delta, map_cons, map_nil, sum_cons, sum_nil] <;> decide
  obtain ⟨hone, hmerged, hkinds, hother, hlast⟩ := hsmall
  have hmeets : Runs.Meets step Fitting start streamed := by
    refine Runs.meets_cons_of_eq step rfl hone ?_
    refine Runs.meets_cons_of_eq step rfl hmerged ?_
    refine Runs.meets_cons_of_eq step rfl hkinds ?_
    refine Runs.meets_cons_of_eq step rfl trivial ?_
    refine Runs.meets_cons_of_eq step rfl hother ?_
    exact Runs.meets_cons_of_eq step rfl hlast trivial
  exact ⟨_, rfl, ((posts_legal_faithful hmeets rfl).2.1 0).2.trans rfl⟩

end Onecli.Runner.TurnEvents
