import Onecli.Gateway.Condition

/-!
# Buffering the beginning of a body

`buffer_prefix` of `policy/src/condition_match.rs` reads chunks until the body ends or provably exceeds the limit, copies
the first bytes and puts what it read back in front of the rest. A stream is the list of the items that it still yields:
chunks, and errors by the text that they display. A stream that has ended yields nothing more.
-/

namespace Onecli.Gateway

open List

/-- `hyper::body::Bytes`. -/
abbrev Chunk := List UInt8

/-- The items that a stream still yields. -/
abbrev ByteStream := List (Except Str Chunk)

/-- `BufferedBody`. -/
structure BufferedBody where
  bytes : List UInt8
  truncated : Bool

/-- The first loop: the chunks read, their length, and the stream after them. -/
def readChunks (limit totalLen : ℕ) : ByteStream → Except Str (List Chunk × ℕ × ByteStream)
  | [] => .ok ([], totalLen, [])
  | item :: rest =>
    if totalLen ≤ limit then
      match item with
      | .ok data => (readChunks limit (totalLen + data.length) rest).map fun read => (data :: read.1, read.2)
      | .error e => .error ("reading request body for condition check: ".toList ++ e)
    else .ok ([], totalLen, item :: rest)

/-- The second loop. -/
def copyChunks (limit : ℕ) (buf : List UInt8) : List Chunk → List UInt8
  | [] => buf
  | chunk :: chunks =>
    let remaining := limit - buf.length
    let take := min remaining chunk.length
    let buf := buf ++ chunk.take take
    if limit ≤ buf.length then buf else copyChunks limit buf chunks

/-- What `buffer_prefix` returns. -/
structure Buffered where
  body : BufferedBody
  observedLen : ℕ
  reassembled : ByteStream

/-- `buffer_prefix`. -/
def bufferPrefix (stream : ByteStream) (limit : ℕ) : Except Str Buffered :=
  (readChunks limit 0 stream).map fun read =>
    { body := ⟨copyChunks limit [] read.1, decide (limit < read.2.1)⟩
      observedLen := read.2.1
      reassembled := read.1.map .ok ++ read.2.2 }

/-- `ConditionBody::from_buffered`. -/
def ConditionBody.fromBuffered : Option BufferedBody → ConditionBody
  | Option.none => .none
  | some b => if b.truncated then .truncated b.bytes else .full b.bytes

/-- The bytes that a stream yields until it ends or fails. -/
def bodyOf : ByteStream → List UInt8
  | [] => []
  | .ok data :: rest => data ++ bodyOf rest
  | .error _ :: _ => []

section Reading

theorem readChunks_cons {limit totalLen length : ℕ} {item : Except Str Chunk} {stream rest : ByteStream}
    {chunks : List Chunk} (h : readChunks limit totalLen (item :: stream) = .ok (chunks, length, rest)) :
    (∃ data later, item = .ok data ∧ chunks = data :: later ∧
      readChunks limit (totalLen + data.length) stream = .ok (later, length, rest)) ∨
    (limit < totalLen ∧ chunks = [] ∧ length = totalLen ∧ rest = item :: stream) := by
  unfold readChunks at h
  split at h
  · split at h
    · next data =>
      cases hread : readChunks limit (totalLen + data.length) stream with
      | error =>
        rw [hread] at h
        cases h
      | ok read =>
        obtain ⟨later, observed, left⟩ := read
        rw [hread] at h
        cases h
        exact Or.inl ⟨data, later, rfl, rfl, hread⟩
    · cases h
  · next hover =>
    cases h
    exact Or.inr ⟨Nat.lt_of_not_le hover, rfl, rfl, rfl⟩

/-- The chunks that are read are the first of the stream, their length is what was observed, and reading stops only behind
the limit or at the end. -/
theorem readChunks_spec {limit totalLen length : ℕ} {stream rest : ByteStream} {chunks : List Chunk}
    (h : readChunks limit totalLen stream = .ok (chunks, length, rest)) :
    chunks.map .ok ++ rest = stream ∧ length = totalLen + chunks.flatten.length ∧ (limit < length ∨ rest = []) := by
  induction stream generalizing totalLen chunks with
  | nil =>
    cases h
    exact ⟨rfl, rfl, Or.inr rfl⟩
  | cons item stream ih =>
    cases readChunks_cons h with
    | inl htaken =>
      obtain ⟨data, later, rfl, rfl, hread⟩ := htaken
      obtain ⟨hstream, hlength, hstops⟩ := ih hread
      refine ⟨congrArg (Except.ok data :: ·) hstream, ?_, hstops⟩
      rw [hlength, flatten_cons, length_append, Nat.add_assoc]
    | inr hover =>
      obtain ⟨hlimit, rfl, rfl, rfl⟩ := hover
      exact ⟨rfl, rfl, Or.inl hlimit⟩

/-- A stream without errors is read. -/
theorem readChunks_isOk {limit totalLen : ℕ} {stream : ByteStream} (h : ∀ item ∈ stream, item.isOk = true) :
    ∃ read, readChunks limit totalLen stream = .ok read := by
  induction stream generalizing totalLen with
  | nil => exact ⟨_, rfl⟩
  | cons item stream ih =>
    obtain ⟨hitem, hrest⟩ := forall_mem_cons.mp h
    unfold readChunks
    split
    · cases item with
      | error => cases hitem
      | ok data =>
        obtain ⟨read, hread⟩ := @ih (totalLen + data.length) hrest
        dsimp only
        rw [hread]
        exact ⟨_, rfl⟩
    · exact ⟨_, rfl⟩

theorem copyChunks_eq {limit : ℕ} {buf : List UInt8} (hbuf : buf.length ≤ limit) (chunks : List Chunk) :
    copyChunks limit buf chunks = buf ++ chunks.flatten.take (limit - buf.length) := by
  induction chunks generalizing buf with
  | nil => rw [copyChunks, flatten_nil, take_nil, append_nil]
  | cons chunk chunks ih =>
    have htake : chunk.take (min (limit - buf.length) chunk.length) = chunk.take (limit - buf.length) := by
      rw [← take_take, take_length]
    have hlength : (buf ++ chunk.take (limit - buf.length)).length = min limit (buf.length + chunk.length) := by
      rw [length_append, length_take]
      omega
    unfold copyChunks
    dsimp only
    rw [htake, flatten_cons, take_append]
    split
    · next hfull =>
      have hnone : limit - buf.length - chunk.length = 0 := by omega
      rw [hnone, take_zero, append_nil]
    · rw [ih (by rw [hlength]; exact Nat.min_le_left _ _), hlength, append_assoc]
      have hleft : limit - min limit (buf.length + chunk.length) = limit - buf.length - chunk.length := by omega
      rw [hleft]

theorem bodyOf_append (chunks : List Chunk) (rest : ByteStream) :
    bodyOf (chunks.map .ok ++ rest) = chunks.flatten ++ bodyOf rest := by
  induction chunks with
  | nil => rfl
  | cons chunk chunks ih => rw [map_cons, cons_append, bodyOf, ih, flatten_cons, append_assoc]

/-- What `buffer_prefix` returns is the beginning of the stream up to the limit, truncated exactly where the stream has more,
and the reassembled stream yields the items of the stream. -/
theorem bufferPrefix_spec {stream : ByteStream} {limit : ℕ} {buffered : Buffered}
    (h : bufferPrefix stream limit = .ok buffered) :
    buffered.body.bytes = (bodyOf stream).take limit ∧
    (buffered.body.truncated = true ↔ limit < (bodyOf stream).length) ∧ buffered.reassembled = stream := by
  unfold bufferPrefix at h
  cases hread : readChunks limit 0 stream with
  | error =>
    rw [hread] at h
    cases h
  | ok read =>
    obtain ⟨chunks, length, rest⟩ := read
    rw [hread] at h
    cases h
    obtain ⟨rfl, rfl, hstops⟩ := readChunks_spec hread
    rw [Nat.zero_add] at hstops
    refine ⟨?_, ?_, rfl⟩
    · dsimp only
      rw [copyChunks_eq (Nat.zero_le limit), bodyOf_append, nil_append, length_nil, Nat.sub_zero]
      cases hstops with
      | inl hover => rw [take_append_of_le_length (Nat.le_of_lt hover)]
      | inr hend => rw [hend, bodyOf, append_nil]
    · rw [decide_eq_true_iff, Nat.zero_add, bodyOf_append, length_append]
      cases hstops with
      | inl hover => exact iff_of_true hover (Nat.lt_of_lt_of_le hover (Nat.le_add_right _ _))
      | inr hend => rw [hend, bodyOf, length_nil, Nat.add_zero]

/-- Conditions see the whole body where it is within the limit, and else its beginning as a truncated one. -/
theorem fromBuffered_bufferPrefix {stream : ByteStream} {limit : ℕ} {buffered : Buffered}
    (h : bufferPrefix stream limit = .ok buffered) :
    ConditionBody.fromBuffered (some buffered.body) =
      if limit < (bodyOf stream).length then .truncated ((bodyOf stream).take limit) else .full (bodyOf stream) := by
  obtain ⟨hbytes, htruncated, -⟩ := bufferPrefix_spec h
  unfold ConditionBody.fromBuffered
  dsimp only
  rw [hbytes]
  by_cases hlimit : limit < (bodyOf stream).length
  · rw [if_pos hlimit, if_pos (htruncated.mpr hlimit)]
  · rw [if_neg hlimit, if_neg (mt htruncated.mp hlimit), take_of_length_le (Nat.le_of_not_lt hlimit)]

/-- Without a read error `buffer_prefix` returns the first bytes up to the limit, says that it truncated exactly where the
body is longer, and reassembles the stream; a stream without errors has no read error. -/
theorem buffer_prefix_exact (stream : ByteStream) (limit : ℕ) :
    (∀ buffered, bufferPrefix stream limit = .ok buffered → buffered.body.bytes = (bodyOf stream).take limit ∧
      (buffered.body.truncated = true ↔ limit < (bodyOf stream).length) ∧ buffered.reassembled = stream) ∧
    ((∀ item ∈ stream, item.isOk = true) → ∃ buffered, bufferPrefix stream limit = .ok buffered) := by
  refine ⟨fun _ => bufferPrefix_spec, fun hok => ?_⟩
  obtain ⟨read, hread⟩ := @readChunks_isOk limit 0 stream hok
  unfold bufferPrefix
  rw [hread]
  exact ⟨_, rfl⟩

end Reading

end Onecli.Gateway
