import Mathlib.Data.List.Forall2
import Onecli.Gateway.Text
import Onecli.Json

/-!
# The meter of a stream

`SseAccumulator` of `budget/anthropic.rs` and `cost_nanos` of `pricing.rs`. An unterminated line that has grown past
the cap is dropped where a chunk ends, and what follows of it is read as a line of its own. Parsing a text as JSON and
reading a number as a `u64` are left open.
-/

namespace Onecli.Budget

open Gateway (Str asBytes fromUtf8Lossy trim containsStr)
open List

abbrev Bytes := List UInt8

/-- `TokenUsage`. -/
structure TokenUsage where
  input : ℕ := 0
  output : ℕ := 0
  cacheCreation : ℕ := 0
  cacheRead : ℕ := 0
  model : Option Str := none
  deriving DecidableEq

/-- `ModelRate`, in nano-dollars for each token. -/
structure ModelRate where
  input : ℕ
  output : ℕ
  cacheWrite : ℕ
  cacheRead : ℕ

def OPUS : ModelRate := ⟨5000, 25000, 6250, 500⟩

def SONNET : ModelRate := ⟨3000, 15000, 3750, 300⟩

def HAIKU : ModelRate := ⟨1000, 5000, 1250, 100⟩

/-- `rate_for`. -/
def rateFor : Option Str → ModelRate
  | none => OPUS
  | some model =>
    if containsStr model "opus".toList then OPUS
    else if containsStr model "sonnet".toList then SONNET
    else if containsStr model "haiku".toList then HAIKU
    else OPUS

/-- A `u64` that saturates. -/
def saturating (n : ℕ) : ℕ := min n (2 ^ 64 - 1)

/-- `cost_nanos`, an `i64`. -/
def costNanos (usage : TokenUsage) : ℕ :=
  if usage.input = 0 ∧ usage.output = 0 ∧ usage.cacheCreation = 0 ∧ usage.cacheRead = 0 then 0
  else
    let r := rateFor usage.model
    let total := saturating (saturating (saturating (saturating (usage.input * r.input) +
      saturating (usage.output * r.output)) + saturating (usage.cacheCreation * r.cacheWrite)) +
      saturating (usage.cacheRead * r.cacheRead))
    min total (2 ^ 63 - 1)

/-- `serde_json`: `from_str` of a value, and `as_u64` of a number. -/
structure Serde where
  fromStr : Str → Option (Json Str)
  asU64 : Str → Option ℕ

/-- `MAX_SSE_LINE_BYTES`. -/
def MAX_SSE_LINE_BYTES : ℕ := 512 * 1024

/-- `\n`. -/
def newline : UInt8 := 10

/-- `str::from_utf8`. -/
def fromUtf8 (bytes : Bytes) : Option Str :=
  let s := fromUtf8Lossy bytes
  if asBytes s = bytes then some s else none

/-- The lines that a text ends with `\n`, and what is left; `line` is the line that has begun. -/
def splitLines (line : Bytes) : Bytes → List Bytes × Bytes
  | [] => ([], line)
  | b :: bs =>
    if b = newline then (line :: (splitLines [] bs).1, (splitLines [] bs).2) else splitLines (line ++ [b]) bs

/-- `SseAccumulator`. -/
structure SseAccumulator where
  lineBuf : Bytes := []
  usage : TokenUsage := {}

variable (serde : Serde)

/-- `json_u64`. -/
def jsonU64 (v : Json Str) (key : String) : ℕ :=
  match v.get key.toList with
  | some (.num literal) => (serde.asU64 literal).getD 0
  | _ => 0

/-- `parse_data`. -/
def parseData (usage : TokenUsage) (data : Str) : TokenUsage :=
  match serde.fromStr data with
  | none => usage
  | some v =>
    let kind := (v.get "type".toList).bind Json.asStr
    if kind = some "message_start".toList then
      match v.get "message".toList with
      | none => usage
      | some msg =>
        let usage := { usage with model := ((msg.get "model".toList).bind Json.asStr).or usage.model }
        match msg.get "usage".toList with
        | none => usage
        | some u => { usage with
            input := jsonU64 serde u "input_tokens"
            cacheCreation := jsonU64 serde u "cache_creation_input_tokens"
            cacheRead := jsonU64 serde u "cache_read_input_tokens" }
    else if kind = some "message_delta".toList then
      match v.get "usage".toList with
      | none => usage
      | some u =>
        let out := jsonU64 serde u "output_tokens"
        if 0 < out then { usage with output := out } else usage
    else usage

/-- What `feed` does with a complete line. -/
def parseLine (usage : TokenUsage) (line : Bytes) : TokenUsage :=
  match ((line.dropSuffix? [13]).getD line).dropPrefix? (asBytes "data:".toList) with
  | none => usage
  | some rest => (fromUtf8 rest).elim usage fun s => parseData serde usage (trim s)

/-- `feed`. -/
def SseAccumulator.feed (acc : SseAccumulator) (chunk : Bytes) : SseAccumulator where
  usage := (splitLines [] (acc.lineBuf ++ chunk)).1.foldl (parseLine serde) acc.usage
  lineBuf :=
    let lineBuf := (splitLines [] (acc.lineBuf ++ chunk)).2
    if MAX_SSE_LINE_BYTES < lineBuf.length then [] else lineBuf

/-- `finish`. -/
def SseAccumulator.finish (acc : SseAccumulator) : ℕ := costNanos acc.usage

/-- The price of the usage fields on some lines, taken in order. -/
def priceOf (lines : List Bytes) : ℕ := costNanos (lines.foldl (parseLine serde) {})

/-- The newline-terminated lines of a stream. -/
def linesOf (stream : Bytes) : List Bytes := (splitLines [] stream).1

/-- What may be parsed of a line: all of it, or what is left once more than `MAX_SSE_LINE_BYTES` bytes are dropped. -/
inductive Parsed (line : Bytes) : Bytes → Prop
  | whole : Parsed line line
  | tail {n : ℕ} (hmax : MAX_SSE_LINE_BYTES < n) (hn : n ≤ line.length) : Parsed line (line.drop n)

section Lines

variable {line parsed bytes : Bytes}

theorem Parsed.snoc (h : Parsed line parsed) (b : UInt8) : Parsed (line ++ [b]) (parsed ++ [b]) := by
  cases h with
  | whole => exact .whole
  | tail hmax hn =>
    rw [← drop_append_of_le_length hn]
    exact .tail hmax (hn.trans (length_append ▸ Nat.le_add_right _ _))

theorem Parsed.cleared (h : Parsed line parsed) (hlong : MAX_SSE_LINE_BYTES < parsed.length) : Parsed line [] := by
  rw [← drop_length (l := line)]
  refine .tail ?_ le_rfl
  cases h with
  | whole => exact hlong
  | tail => exact hlong.trans_le (length_drop ▸ Nat.sub_le _ _)

theorem parsed_splitLines (bytes : Bytes) (h : Parsed line parsed) :
    List.Forall₂ Parsed (splitLines line bytes).1 (splitLines parsed bytes).1 ∧
      Parsed (splitLines line bytes).2 (splitLines parsed bytes).2 := by
  induction bytes generalizing line parsed with
  | nil => exact ⟨.nil, h⟩
  | cons b bytes ih =>
    unfold splitLines
    split
    · exact ⟨.cons h (ih .whole).1, (ih .whole).2⟩
    · exact ih (h.snoc b)

theorem splitLines_append (line xs ys : Bytes) :
    splitLines line (xs ++ ys) = ((splitLines line xs).1 ++ (splitLines (splitLines line xs).2 ys).1,
      (splitLines (splitLines line xs).2 ys).2) := by
  induction xs generalizing line with
  | nil => rfl
  | cons x xs ih =>
    by_cases hx : x = newline
    · simp only [cons_append, splitLines, if_pos hx, ih]
    · simp only [cons_append, splitLines, if_neg hx, ih]

/-- Without a newline no line ends. -/
theorem splitLines_of_notMem (h : newline ∉ bytes) : splitLines line bytes = ([], line ++ bytes) := by
  induction bytes generalizing line with
  | nil => rw [append_nil]; rfl
  | cons b bytes ih =>
    obtain ⟨hb, hbytes⟩ := ne_and_not_mem_of_not_mem_cons h
    rw [splitLines, if_neg hb.symm, ih hbytes, append_assoc, singleton_append]

/-- A line that ends is complete. -/
theorem splitLines_line (h : newline ∉ bytes) : splitLines [] (bytes ++ [newline]) = ([bytes], []) := by
  rw [splitLines_append, splitLines_of_notMem h]
  rfl

/-- The lines and the rest make up the bytes. -/
theorem of_splitLines {line : Bytes} (bytes : Bytes) (hline : newline ∉ line) :
    line ++ bytes = (splitLines line bytes).1.flatMap (· ++ [newline]) ++ (splitLines line bytes).2 ∧
      (∀ l ∈ (splitLines line bytes).1, newline ∉ l) ∧ newline ∉ (splitLines line bytes).2 := by
  induction bytes generalizing line with
  | nil => exact ⟨append_nil line, nofun, hline⟩
  | cons b bytes ih =>
    unfold splitLines
    split
    · rename_i hb
      obtain ⟨hjoin, hfree, hrest⟩ := ih not_mem_nil
      rw [flatMap_cons, append_assoc, ← hjoin, hb]
      exact ⟨by simp, forall_mem_cons.2 ⟨hline, hfree⟩, hrest⟩
    · rename_i hb
      have hsnoc : newline ∉ line ++ [b] := by simp [hline, Ne.symm hb]
      obtain ⟨hjoin, hfree⟩ := ih hsnoc
      exact ⟨by rw [← hjoin, append_assoc, singleton_append], hfree⟩

end Lines

namespace SseAccumulator

variable {serde}

/-- Where a meter stands after a stream: each line was parsed whole or in part, and the buffer holds the rest. -/
structure Seen (serde : Serde) (acc : SseAccumulator) (stream : Bytes) : Prop where
  usage : ∃ parsed, List.Forall₂ Parsed (linesOf stream) parsed ∧ acc.usage = parsed.foldl (parseLine serde) {}
  rest : Parsed (splitLines [] stream).2 acc.lineBuf
  free : newline ∉ acc.lineBuf

theorem Seen.feed {acc : SseAccumulator} {stream : Bytes} (h : acc.Seen serde stream) (chunk : Bytes) :
    (acc.feed serde chunk).Seen serde (stream ++ chunk) := by
  obtain ⟨⟨parsed, hparsed, husage⟩, hrest, hfree⟩ := h
  have hbuf : splitLines [] (acc.lineBuf ++ chunk) = splitLines acc.lineBuf chunk := by
    rw [splitLines_append, splitLines_of_notMem hfree]
    rfl
  obtain ⟨hlines, hlast⟩ := parsed_splitLines chunk hrest
  refine ⟨⟨parsed ++ (splitLines acc.lineBuf chunk).1, ?_, ?_⟩, ?_, ?_⟩
  · rw [linesOf, splitLines_append]
    exact rel_append hparsed hlines
  · rw [SseAccumulator.feed, hbuf, husage, foldl_append]
  · rw [SseAccumulator.feed, hbuf, splitLines_append]
    dsimp only
    split
    · exact hlast.cleared ‹_›
    · exact hlast
  · rw [SseAccumulator.feed, hbuf]
    dsimp only
    split
    · exact not_mem_nil
    · exact (of_splitLines chunk hfree).2.2

/-- A meter has seen what its chunks hold. -/
theorem seen_foldl (serde : Serde) (chunks : List Bytes) : (chunks.foldl (feed serde) {}).Seen serde chunks.flatten := by
  induction chunks using List.reverseRecOn with
  | nil => exact ⟨⟨[], .nil, rfl⟩, .whole, not_mem_nil⟩
  | append_singleton chunks chunk ih =>
    rw [foldl_append, flatten_append, flatten_singleton]
    exact ih.feed chunk

/-- A line that does not end is held up to the limit. -/
theorem feed_of_notMem (usage : TokenUsage) {bytes : Bytes} (h : newline ∉ bytes) :
    feed serde ⟨[], usage⟩ bytes = ⟨if MAX_SSE_LINE_BYTES < bytes.length then [] else bytes, usage⟩ := by
  rw [feed, nil_append, splitLines_of_notMem h]
  rfl

/-- A line in one chunk is parsed. -/
theorem feed_line (usage : TokenUsage) {bytes : Bytes} (h : newline ∉ bytes) :
    feed serde ⟨[], usage⟩ (bytes ++ [newline]) = ⟨[], parseLine serde usage bytes⟩ := by
  rw [feed, nil_append, splitLines_line h]
  rfl

/-- Any choice of lost tails has its chunks. -/
theorem exists_chunks (serde : Serde) {lines parsed : List Bytes} (h : List.Forall₂ Parsed lines parsed)
    (hfree : ∀ line ∈ lines, newline ∉ line) (usage : TokenUsage) :
    ∃ chunks : List Bytes, chunks.flatten = lines.flatMap (· ++ [newline]) ∧
      chunks.foldl (feed serde) ⟨[], usage⟩ = ⟨[], parsed.foldl (parseLine serde) usage⟩ := by
  induction h generalizing usage with
  | nil => exact ⟨[], rfl, rfl⟩
  | @cons line p lines parsed hp _ ih =>
    obtain ⟨hline, hlines⟩ := forall_mem_cons.1 hfree
    obtain ⟨chunks, hflatten, hfold⟩ := ih hlines (parseLine serde usage p)
    cases hp with
    | whole =>
      refine ⟨(line ++ [newline]) :: chunks, ?_, ?_⟩
      · rw [flatten_cons, hflatten, flatMap_cons]
      · rw [foldl_cons, feed_line usage hline, hfold, foldl_cons]
    | @tail n hmax hn =>
      -- the first chunk of the line ends where the buffer is dropped
      refine ⟨line.take n :: (line.drop n ++ [newline]) :: chunks, ?_, ?_⟩
      · rw [flatten_cons, flatten_cons, hflatten, flatMap_cons, ← append_assoc, ← append_assoc, take_append_drop]
      · have hcut : MAX_SSE_LINE_BYTES < (line.take n).length := by rwa [length_take_of_le hn]
        rw [foldl_cons, foldl_cons, feed_of_notMem usage fun hmem => hline (mem_of_mem_take hmem),
          if_pos hcut, feed_line usage fun hmem => hline (mem_of_mem_drop hmem), hfold, foldl_cons]

/-- Under every chunking the price is that of the lines within the cap, exactly where it is so whatever is parsed of the
lines past the cap. -/
theorem finish_eq_iff (serde : Serde) (stream : Bytes) :
    (∀ chunks : List Bytes, chunks.flatten = stream →
      (chunks.foldl (feed serde) {}).finish =
        priceOf serde ((linesOf stream).filter (·.length ≤ MAX_SSE_LINE_BYTES))) ↔
    ∀ parsed, List.Forall₂ Parsed (linesOf stream) parsed →
      priceOf serde parsed = priceOf serde ((linesOf stream).filter (·.length ≤ MAX_SSE_LINE_BYTES)) := by
  constructor
  · intro h parsed hparsed
    obtain ⟨hjoin, hfree, hrest⟩ := of_splitLines stream List.not_mem_nil
    obtain ⟨chunks, hflatten, hfold⟩ := exists_chunks serde hparsed hfree {}
    rw [← h (chunks ++ [(splitLines [] stream).2])]
    · rw [List.foldl_append, hfold, List.foldl_cons, feed_of_notMem _ hrest]
      rfl
    · rw [List.flatten_append, hflatten, List.flatten_singleton]
      exact hjoin.symm
  · rintro h chunks rfl
    obtain ⟨parsed, hparsed, husage⟩ := (seen_foldl serde chunks).usage
    rw [finish, husage]
    exact h parsed hparsed

/-- The `data` of an event that the model wrote into a line. -/
def deltaText : Str := "\x7b\"type\":\"message_delta\",\"usage\":\x7b\"output_tokens\":100\x7d\x7d".toList

/-- A reading of that event alone. -/
def deltaSerde : Serde where
  fromStr s := if s = deltaText then some (.obj [("type".toList, .str "message_delta".toList),
    ("usage".toList, .obj [("output_tokens".toList, .num "100".toList)])]) else none
  asU64 literal := if literal = "100".toList then some 100 else none

/-- An event at the end of a line past the cap is charged where a chunk ends before it. -/
theorem finish_ne : ¬ ∀ (serde : Serde) (stream : Bytes) (chunks : List Bytes), chunks.flatten = stream →
    (chunks.foldl (feed serde) {}).finish =
      priceOf serde ((linesOf stream).filter (·.length ≤ MAX_SSE_LINE_BYTES)) := by
  intro h
  have hjunk : newline ∉ List.replicate 524289 (97 : UInt8) := fun hmem => absurd (List.eq_of_mem_replicate hmem) (by decide)
  have hdata : newline ∉ asBytes ("data:".toList ++ deltaText) := by decide +kernel
  have hcharged : parseLine deltaSerde {} (asBytes ("data:".toList ++ deltaText)) = { output := 100 } := by decide +kernel
  have hall := h deltaSerde _ [List.replicate 524289 97, asBytes ("data:".toList ++ deltaText) ++ [newline]] rfl
  rw [List.foldl_cons, List.foldl_cons, feed_of_notMem {} hjunk, if_pos (by rw [List.length_replicate]; decide),
    feed_line {} hdata, List.foldl_nil, hcharged, List.flatten_cons, List.flatten_singleton, ← List.append_assoc, linesOf,
    splitLines_line (fun hmem => (List.mem_append.1 hmem).elim hjunk hdata), List.filter_cons_of_neg, List.filter_nil] at hall
  · exact absurd hall (by decide)
  · rw [List.length_append, List.length_replicate]
    decide +kernel

end SseAccumulator

end Onecli.Budget
