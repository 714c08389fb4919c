import Onecli.Foundation.Decoder
import Onecli.Postgres.Unit

/-!
# Reading frames off the wire

`Frame` and `FrameReader` of `dbproxy-postgres/src/wire.rs`. A message is a type byte, a four-byte
big-endian length that counts itself and not the type byte, and a body. The reader keeps what it
read of a frame in a buffer, also when a call is cancelled while it waits for the stream. The
capacity that the buffer reserves is left out.
-/

namespace Onecli.Postgres.Wire

open Onecli.Foundation (Decoder Arrival received Pulled)
open Gateway (Str)
open List

/-- `MAX_MESSAGE_BYTES`. -/
def maxMessageBytes : ℕ := 16 * 1024 * 1024

/-- `std::io::Error`, as the reader returns it. -/
inductive IoError where
  /-- `invalid`. -/
  | invalid (message : Str)
  | unexpectedEof
  /-- What the stream fails with. -/
  | stream (text : Str)

/-- A `Frame` as it travels. -/
structure RawFrame where
  raw : List UInt8

/-- `u32::from_be_bytes`. -/
def fromBeBytes (a b c d : UInt8) : ℕ := ((a.toNat * 256 + b.toNat) * 256 + c.toNat) * 256 + d.toNat

/-- The length field of a buffer that holds one: the bytes 1 to 4. -/
def lengthField (buf : List UInt8) : ℕ := fromBeBytes (buf.getD 1 0) (buf.getD 2 0) (buf.getD 3 0) (buf.getD 4 0)

/-- The message of a length below four. -/
def lengthTooShort : Str := "message length shorter than its own header".toList

/-- The message of a body past the limit. -/
def messageTooLarge : Str := "message larger than the gateway relays (16 MiB)".toList

/-- `FrameReader::buffered`: the frame, and the buffer without it. -/
def buffered (buf : List UInt8) : Except IoError (Option (RawFrame × List UInt8)) :=
  if buf.length < 5 then .ok none
  else if lengthField buf < 4 then .error (.invalid lengthTooShort)
  else
    let bodyLen := lengthField buf - 4
    if maxMessageBytes < bodyLen then .error (.invalid messageTooLarge)
    else
      let total := 5 + bodyLen
      if buf.length < total then .ok none
      else .ok (some (⟨buf.take total⟩, buf.drop total))

/-- `FrameReader::has_frame`. -/
def hasFrame (buf : List UInt8) : Bool := decide (5 ≤ buf.length ∧ lengthField buf < buf.length)

/-- What the stream does once everything has arrived. -/
inductive StreamEnd where
  | closes
  | fails (text : Str)
  /-- Nothing more arrives yet. -/
  | waits

/-- A stop of the reader that is no error. -/
inductive Stop where
  /-- `Ok(None)`. -/
  | ended
  | waiting

/-- A `read_buf` that adds nothing to the buffer. -/
def atEnd (ending : StreamEnd) (buf : List UInt8) : Except IoError Stop :=
  match ending with
  | .closes => if buf = [] then .ok .ended else .error .unexpectedEof
  | .fails text => .error (.stream text)
  | .waits => .ok .waiting

section Headers

variable (tag a b c d : UInt8) (rest : List UInt8)

/-- A buffer is short, or has a header. -/
theorem short_or_header (buf : List UInt8) :
    buf.length < 5 ∨ ∃ tag a b c d rest, buf = tag :: a :: b :: c :: d :: rest := by
  rcases buf with _ | ⟨tag, _ | ⟨a, _ | ⟨b, _ | ⟨c, _ | ⟨d, rest⟩⟩⟩⟩⟩
  · exact .inl (by decide)
  iterate 4 exact .inl (by simp)
  · exact .inr ⟨tag, a, b, c, d, rest, rfl⟩

theorem lengthField_header :
    lengthField (tag :: a :: b :: c :: d :: rest) = fromBeBytes a b c d := rfl

/-- What a header announces. -/
theorem buffered_header :
    buffered (tag :: a :: b :: c :: d :: rest) = if fromBeBytes a b c d < 4 then .error (.invalid lengthTooShort)
      else if maxMessageBytes < fromBeBytes a b c d - 4 then .error (.invalid messageTooLarge)
      else if rest.length < fromBeBytes a b c d - 4 then .ok none
      else .ok (some (⟨tag :: a :: b :: c :: d :: rest.take (fromBeBytes a b c d - 4)⟩,
        rest.drop (fromBeBytes a b c d - 4))) := by
  have hlong : ¬ (tag :: a :: b :: c :: d :: rest).length < 5 := by
    simp only [length_cons]
    omega
  unfold buffered
  rw [if_neg hlong, lengthField_header]
  simp only [Nat.add_comm 5 (fromBeBytes a b c d - 4), take_succ_cons, drop_succ_cons,
    length_cons, Nat.add_lt_add_iff_right]

/-- A short buffer holds no frame. -/
theorem buffered_short {buf : List UInt8} (h : buf.length < 5) : buffered buf = .ok none := if_pos h

end Headers

section Extending

variable {buf rest : List UInt8} {frame : RawFrame} {e : IoError}

theorem buffered_append_error (more : List UInt8) (h : buffered buf = .error e) :
    buffered (buf ++ more) = .error e := by
  cases short_or_header buf with
  | inl hshort =>
    rw [buffered_short hshort] at h
    cases h
  | inr hheader =>
    obtain ⟨tag, a, b, c, d, tail, rfl⟩ := hheader
    simp only [cons_append]
    rw [buffered_header] at h ⊢
    split
    · next hless =>
      rw [if_pos hless] at h
      exact h
    · next hless =>
      rw [if_neg hless] at h
      split
      · next hlarge =>
        rw [if_pos hlarge] at h
        exact h
      · next hlarge =>
        rw [if_neg hlarge] at h
        by_cases hunfinished : tail.length < fromBeBytes a b c d - 4
        · rw [if_pos hunfinished] at h
          cases h
        · rw [if_neg hunfinished] at h
          cases h

theorem buffered_ok (h : buffered buf = .ok (some (frame, rest))) :
    ∃ tag a b c d body, buf = tag :: a :: b :: c :: d :: (body ++ rest) ∧
      frame = ⟨tag :: a :: b :: c :: d :: body⟩ ∧ fromBeBytes a b c d = body.length + 4 ∧
      body.length ≤ maxMessageBytes := by
  cases short_or_header buf with
  | inl hshort =>
    rw [buffered_short hshort] at h
    cases h
  | inr hheader =>
    obtain ⟨tag, a, b, c, d, tail, rfl⟩ := hheader
    rw [buffered_header] at h
    by_cases hless : fromBeBytes a b c d < 4
    · rw [if_pos hless] at h
      cases h
    rw [if_neg hless] at h
    by_cases hlarge : maxMessageBytes < fromBeBytes a b c d - 4
    · rw [if_pos hlarge] at h
      cases h
    rw [if_neg hlarge] at h
    by_cases hunfinished : tail.length < fromBeBytes a b c d - 4
    · rw [if_pos hunfinished] at h
      cases h
    rw [if_neg hunfinished] at h
    cases h
    have hlength : (tail.take (fromBeBytes a b c d - 4)).length = fromBeBytes a b c d - 4 := by
      rw [length_take]
      omega
    refine ⟨tag, a, b, c, d, _, ?_, rfl, ?_, ?_⟩
    · rw [take_append_drop]
    · omega
    · omega

theorem buffered_whole {tag a b c d : UInt8} {body : List UInt8}
    (hlength : fromBeBytes a b c d = body.length + 4) (hbody : body.length ≤ maxMessageBytes)
    (rest : List UInt8) :
    buffered (tag :: a :: b :: c :: d :: (body ++ rest)) = .ok (some (⟨tag :: a :: b :: c :: d :: body⟩, rest)) := by
  have hwhole : ¬ (body ++ rest).length < body.length := by
    rw [length_append]
    omega
  rw [buffered_header, hlength, if_neg (by omega), Nat.add_sub_cancel, if_neg (by omega),
    if_neg hwhole, take_left, drop_left]

theorem buffered_append_frame (more : List UInt8) (h : buffered buf = .ok (some (frame, rest))) :
    buffered (buf ++ more) = .ok (some (frame, rest ++ more)) := by
  obtain ⟨tag, a, b, c, d, body, rfl, rfl, hlength, hbody⟩ := buffered_ok h
  simp only [cons_append, append_assoc]
  exact buffered_whole hlength hbody (rest ++ more)

theorem length_lt_of_buffered (h : buffered buf = .ok (some (frame, rest))) :
    rest.length < buf.length := by
  obtain ⟨tag, a, b, c, d, body, rfl, rfl, hlength, hbody⟩ := buffered_ok h
  simp only [length_cons, length_append]
  omega

end Extending

/-- The decoder of frames. -/
def frameDecoder : Decoder UInt8 RawFrame IoError :=
  ⟨buffered, length_lt_of_buffered, buffered_append_frame, buffered_append_error⟩

/-- `FrameReader::next`, from a buffer. -/
def next (ending : StreamEnd) (buf : List UInt8) (arrivals : List (Arrival UInt8)) :
    Pulled RawFrame IoError Stop × List UInt8 × List (Arrival UInt8) :=
  frameDecoder.pull (atEnd ending) buf arrivals

/-- The calls of `FrameReader::next` until one returns no frame. -/
def frames (ending : StreamEnd) (arrivals : List (Arrival UInt8)) :
    List RawFrame × Except IoError Stop :=
  frameDecoder.pulls (atEnd ending) [] arrivals

/-- The parse of a whole stream. -/
def parse (ending : StreamEnd) : List UInt8 → List RawFrame × Except IoError Stop
  | tag :: a :: b :: c :: d :: rest =>
    let len := fromBeBytes a b c d
    if len < 4 then ([], .error (.invalid lengthTooShort))
    else if maxMessageBytes < len - 4 then ([], .error (.invalid messageTooLarge))
    else if rest.length < len - 4 then ([], atEnd ending (tag :: a :: b :: c :: d :: rest))
    else
      let later := parse ending (rest.drop (len - 4))
      (⟨tag :: a :: b :: c :: d :: rest.take (len - 4)⟩ :: later.1, later.2)
  | bytes => ([], atEnd ending bytes)
termination_by bytes => bytes.length
decreasing_by
  simp only [List.length_cons, List.length_drop]
  omega

/-- A frame is its tag, its length and its body. -/
def RawFrame.Whole (frame : RawFrame) : Prop :=
  ∃ tag a b c d body, frame.raw = tag :: a :: b :: c :: d :: body ∧
    fromBeBytes a b c d = body.length + 4 ∧ body.length ≤ maxMessageBytes

/-- The bytes begin with a header of this length, with these after it. -/
def Announces (bytes : List UInt8) (len : ℕ) (rest : List UInt8) : Prop :=
  ∃ tag a b c d, bytes = tag :: a :: b :: c :: d :: rest ∧ fromBeBytes a b c d = len

/-- How a stream stops behind its last whole frame. -/
inductive StopsAt (ending : StreamEnd) (bytes : List UInt8) : Except IoError Stop → Prop
  | short {len : ℕ} {rest : List UInt8} (h : Announces bytes len rest) (hlen : len < 4) :
    StopsAt ending bytes (.error (.invalid lengthTooShort))
  | large {len : ℕ} {rest : List UInt8} (h : Announces bytes len rest)
      (hlen : maxMessageBytes < len - 4) :
    StopsAt ending bytes (.error (.invalid messageTooLarge))
  | header (h : bytes.length < 5) : StopsAt ending bytes (atEnd ending bytes)
  | body {len : ℕ} {rest : List UInt8} (h : Announces bytes len rest) (hlen : 4 ≤ len)
      (hlimit : len - 4 ≤ maxMessageBytes) (hrest : rest.length < len - 4) :
    StopsAt ending bytes (atEnd ending bytes)

section Streams

variable (ending : StreamEnd)

theorem parse_short {bytes : List UInt8} (h : bytes.length < 5) :
    parse ending bytes = ([], atEnd ending bytes) := by
  rw [parse]
  intro tag a b c d rest hheader
  rw [hheader] at h
  simp only [length_cons] at h
  omega

theorem parse_header (tag a b c d : UInt8) (rest : List UInt8) :
    parse ending (tag :: a :: b :: c :: d :: rest) =
      if fromBeBytes a b c d < 4 then ([], .error (.invalid lengthTooShort))
      else if maxMessageBytes < fromBeBytes a b c d - 4 then ([], .error (.invalid messageTooLarge))
      else if rest.length < fromBeBytes a b c d - 4 then
        ([], atEnd ending (tag :: a :: b :: c :: d :: rest))
      else
        (⟨tag :: a :: b :: c :: d :: rest.take (fromBeBytes a b c d - 4)⟩ ::
            (parse ending (rest.drop (fromBeBytes a b c d - 4))).1,
          (parse ending (rest.drop (fromBeBytes a b c d - 4))).2) := by
  rw [parse]

/-- Parsing drains the frames. -/
theorem parse_eq_drain (bytes : List UInt8) :
    parse ending bytes = frameDecoder.drain (atEnd ending) bytes := by
  induction hn : bytes.length using Nat.strongRecOn generalizing bytes with
  | ind n ih =>
    cases short_or_header bytes with
    | inl hshort =>
      have hstep : frameDecoder.step bytes = .ok none := buffered_short hshort
      rw [parse_short ending hshort, frameDecoder.drain_none (atEnd ending) hstep]
    | inr hheader =>
      obtain ⟨tag, a, b, c, d, rest, rfl⟩ := hheader
      have hstep : frameDecoder.step (tag :: a :: b :: c :: d :: rest) = _ := buffered_header tag a b c d rest
      rw [parse_header]
      by_cases hless : fromBeBytes a b c d < 4
      · rw [if_pos hless] at hstep ⊢
        exact (frameDecoder.drain_error (atEnd ending) hstep).symm
      rw [if_neg hless] at hstep ⊢
      by_cases hlarge : maxMessageBytes < fromBeBytes a b c d - 4
      · rw [if_pos hlarge] at hstep ⊢
        exact (frameDecoder.drain_error (atEnd ending) hstep).symm
      rw [if_neg hlarge] at hstep ⊢
      by_cases hunfinished : rest.length < fromBeBytes a b c d - 4
      · rw [if_pos hunfinished] at hstep ⊢
        exact (frameDecoder.drain_none (atEnd ending) hstep).symm
      rw [if_neg hunfinished] at hstep ⊢
      have hlater : (rest.drop (fromBeBytes a b c d - 4)).length < n := by
        simp only [length_cons] at hn
        rw [length_drop]
        omega
      rw [frameDecoder.drain_item (atEnd ending) hstep, ← ih _ hlater _ rfl]

/-- The frames and a rest make up the bytes. -/
theorem parse_spec (bytes : List UInt8) :
    ∃ rest, bytes = (parse ending bytes).1.flatMap RawFrame.raw ++ rest ∧
      (∀ frame ∈ (parse ending bytes).1, frame.Whole) ∧ StopsAt ending rest (parse ending bytes).2 := by
  have hnone (frame : RawFrame) (h : frame ∈ ([] : List RawFrame)) : frame.Whole := absurd h not_mem_nil
  induction hn : bytes.length using Nat.strongRecOn generalizing bytes with
  | ind n ih =>
    cases short_or_header bytes with
    | inl hshort =>
      rw [parse_short ending hshort]
      exact ⟨bytes, rfl, hnone, .header hshort⟩
    | inr hheader =>
      obtain ⟨tag, a, b, c, d, tail, rfl⟩ := hheader
      have hannounces : Announces (tag :: a :: b :: c :: d :: tail) (fromBeBytes a b c d) tail :=
        ⟨tag, a, b, c, d, rfl, rfl⟩
      rw [parse_header]
      by_cases hless : fromBeBytes a b c d < 4
      · rw [if_pos hless]
        exact ⟨_, rfl, hnone, .short hannounces hless⟩
      rw [if_neg hless]
      by_cases hlarge : maxMessageBytes < fromBeBytes a b c d - 4
      · rw [if_pos hlarge]
        exact ⟨_, rfl, hnone, .large hannounces hlarge⟩
      rw [if_neg hlarge]
      by_cases hunfinished : tail.length < fromBeBytes a b c d - 4
      · rw [if_pos hunfinished]
        exact ⟨_, rfl, hnone, .body hannounces (not_lt.mp hless) (not_lt.mp hlarge) hunfinished⟩
      rw [if_neg hunfinished]
      have hlater : (tail.drop (fromBeBytes a b c d - 4)).length < n := by
        simp only [length_cons] at hn
        rw [length_drop]
        omega
      obtain ⟨rest, hbytes, hwhole, hstops⟩ := ih _ hlater _ rfl
      have hbody : (tail.take (fromBeBytes a b c d - 4)).length = fromBeBytes a b c d - 4 := by
        rw [length_take]
        omega
      refine ⟨rest, ?_, forall_mem_cons.mpr ⟨⟨tag, a, b, c, d, _, rfl, ?_, ?_⟩, hwhole⟩, hstops⟩
      · rw [flatMap_cons, append_assoc, ← hbytes]
        simp only [cons_append, take_append_drop]
      · omega
      · omega

/-- A frame that is there is returned without a look at the stream, as is the error of its
length. -/
theorem next_of_hasFrame {buf : List UInt8} (h : hasFrame buf = true) :
    ∃ pulled buf', (∀ ending arrivals, next ending buf arrivals = (pulled, buf', arrivals)) ∧
      ((∃ frame, pulled = .item frame ∧ buf = frame.raw ++ buf') ∨
        ∃ message, pulled = .stopped (.error (.invalid message))) := by
  obtain ⟨hheader, hlength⟩ := of_decide_eq_true h
  cases short_or_header buf with
  | inl hshort => exact absurd hheader (not_le.mpr hshort)
  | inr hsplit =>
    obtain ⟨tag, a, b, c, d, rest, rfl⟩ := hsplit
    rw [lengthField_header] at hlength
    have hstep : frameDecoder.step (tag :: a :: b :: c :: d :: rest) = _ := buffered_header tag a b c d rest
    have hstop {e : IoError}
        (herror : frameDecoder.step (tag :: a :: b :: c :: d :: rest) = .error e)
        (ending : StreamEnd) (arrivals : List (Arrival UInt8)) :
        next ending (tag :: a :: b :: c :: d :: rest) arrivals =
          (.stopped (.error e), tag :: a :: b :: c :: d :: rest, arrivals) := by
      unfold next Decoder.pull
      cases arrivals <;> rw [herror]
    by_cases hless : fromBeBytes a b c d < 4
    · rw [if_pos hless] at hstep
      exact ⟨_, _, hstop hstep, .inr ⟨_, rfl⟩⟩
    rw [if_neg hless] at hstep
    by_cases hlarge : maxMessageBytes < fromBeBytes a b c d - 4
    · rw [if_pos hlarge] at hstep
      exact ⟨_, _, hstop hstep, .inr ⟨_, rfl⟩⟩
    have hwhole : ¬ rest.length < fromBeBytes a b c d - 4 := by
      simp only [length_cons] at hlength
      omega
    rw [if_neg hlarge, if_neg hwhole] at hstep
    refine ⟨.item ⟨tag :: a :: b :: c :: d :: rest.take (fromBeBytes a b c d - 4)⟩,
      rest.drop (fromBeBytes a b c d - 4), fun ending arrivals => ?_, .inl ⟨_, rfl, ?_⟩⟩
    · unfold next Decoder.pull
      cases arrivals <;> rw [hstep]
    · simp only [cons_append, take_append_drop]

/-- The frames that the calls of `next` return, and how they stop, are the parse of the stream,
however it was split into reads and whichever waits were given up: the frames are its bytes, whole
and in order, and what follows them stops the reader. A frame that `has_frame` sees is returned
without a read. -/
theorem frame_reader_exact (arrivals : List (Arrival UInt8)) :
    frames ending arrivals = parse ending (received arrivals) ∧
    (∀ arrivals', received arrivals' = received arrivals → frames ending arrivals' = frames ending arrivals) ∧
    (∃ rest, received arrivals = (frames ending arrivals).1.flatMap RawFrame.raw ++ rest ∧
      (∀ frame ∈ (frames ending arrivals).1, frame.Whole) ∧ StopsAt ending rest (frames ending arrivals).2) ∧
    ∀ buf, hasFrame buf = true →
      ∃ pulled buf', (∀ ending arrivals, next ending buf arrivals = (pulled, buf', arrivals)) ∧
        ((∃ frame, pulled = .item frame ∧ buf = frame.raw ++ buf') ∨
          ∃ message, pulled = .stopped (.error (.invalid message))) := by
  have hparse (arrivals : List (Arrival UInt8)) :
      frames ending arrivals = parse ending (received arrivals) := by
    rw [parse_eq_drain]
    exact frameDecoder.pulls_eq_drain (atEnd ending) [] arrivals
  refine ⟨hparse arrivals, fun arrivals' hsame => ?_, ?_, fun buf h => next_of_hasFrame h⟩
  · rw [hparse, hparse, hsame]
  · rw [hparse]
    exact parse_spec ending (received arrivals)

end Streams

section Written

/-- `u32::to_be_bytes`. -/
def toBeBytes (n : ℕ) : List UInt8 :=
  [(n / 256 / 256 / 256).toUInt8, (n / 256 / 256).toUInt8, (n / 256).toUInt8, n.toUInt8]

/-- `Frame::new`; the length is `u32::MAX` where it does not fit. -/
def RawFrame.ofFrame (frame : Frame) : RawFrame :=
  ⟨frame.tag :: toBeBytes (min (frame.body.length + 4) 4294967295) ++ frame.body⟩

theorem fromBeBytes_toBeBytes {n : ℕ} (h : n < 4294967296) :
    fromBeBytes (n / 256 / 256 / 256).toUInt8 (n / 256 / 256).toUInt8 (n / 256).toUInt8 n.toUInt8 = n := by
  unfold fromBeBytes
  simp only [Nat.toUInt8, UInt8.toNat_ofNat']
  omega

/-- A written frame is read back. -/
theorem buffered_ofFrame {frame : Frame} (h : frame.body.length ≤ maxMessageBytes)
    (rest : List UInt8) :
    buffered ((RawFrame.ofFrame frame).raw ++ rest) = .ok (some (.ofFrame frame, rest)) := by
  have hlimit : maxMessageBytes = 16777216 := rfl
  have hmin : min (frame.body.length + 4) 4294967295 = frame.body.length + 4 := by omega
  have hsmall : frame.body.length + 4 < 4294967296 := by omega
  have hlength := fromBeBytes_toBeBytes hsmall
  unfold RawFrame.ofFrame
  rw [hmin]
  exact buffered_whole hlength h rest

/-- The frames that `write_frames` writes are read back, however they arrive. -/
theorem frames_round_trip {written : List Frame}
    (hwritten : ∀ frame ∈ written, frame.body.length ≤ maxMessageBytes)
    {arrivals : List (Arrival UInt8)}
    (harrivals : received arrivals = written.flatMap fun frame => (RawFrame.ofFrame frame).raw) :
    frames .closes arrivals = (written.map .ofFrame, .ok .ended) := by
  have hdrain := frameDecoder.pulls_eq_drain (atEnd .closes) [] arrivals
  rw [nil_append, harrivals] at hdrain
  refine hdrain.trans ?_
  clear hdrain harrivals
  induction written with
  | nil =>
    have hstep : frameDecoder.step [] = .ok none := rfl
    exact frameDecoder.drain_none (atEnd .closes) hstep
  | cons frame written ih =>
    obtain ⟨hframe, hlater⟩ := forall_mem_cons.mp hwritten
    have hstep : frameDecoder.step ((frame :: written).flatMap fun frame =>
        (RawFrame.ofFrame frame).raw) =
          .ok (some (.ofFrame frame, written.flatMap fun frame => (RawFrame.ofFrame frame).raw)) :=
      buffered_ofFrame hframe _
    rw [frameDecoder.drain_item (atEnd .closes) hstep, ih hlater]
    rfl

/-- A `Query`, a `Describe` and a `Sync` are read back from reads that cut their headers and bodies, with a wait given up
in between. -/
theorem frames_round_trip_unit :
    frames .closes [.data ⟨[81, 0, 0], by decide⟩, .data ⟨[0, 6, 120], by decide⟩, .cancelled,
        .data ⟨[0, 68, 0, 0, 0, 6, 83], by decide⟩, .data ⟨[0, 83, 0, 0, 0, 4], by decide⟩] =
      ([.ofFrame ⟨81, [120, 0]⟩, .ofFrame ⟨68, [83, 0]⟩, .ofFrame ⟨83, []⟩], .ok .ended) :=
  @frames_round_trip [⟨81, [120, 0]⟩, ⟨68, [83, 0]⟩, ⟨83, []⟩] (by decide) _ rfl

end Written

end Onecli.Postgres.Wire
