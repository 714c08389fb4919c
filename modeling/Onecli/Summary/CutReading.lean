import Onecli.Summary.JsonReading

/-!
# A cut JSON body reads as a beginning of the whole

A reading goes through a JSON text in document order: it enters containers, steps through their items, and reads keys and
values whole. Of a body that is cut anywhere the same calls answer a beginning of what they answer of the whole body, each
from the same bytes, and what stops them is the cut.
-/

namespace Onecli.Summary.JsonPrefix

open Nat

open CodeUnits JsonText List Option Bool
open Gateway (Str asBytes byteLen asBytes_cons_of_ascii)

variable {K T : Type}

/-! ## Readings -/

/-- What is read: a value, or what is left of the items of an array or the members of an object. -/
inductive Scope where
  | value
  | items (first : Bool)
  | members (first : Bool)

/-- The comma before an item that is not the first. -/
def comma (first : Bool) : List Char := if first then [] else [',']

/-- The calls that go through a text in document order, and what they answer from how many bytes. White space before the
first item of a container is passed with the step to that item. -/
inductive Reading (decodeKey : List Char → Option K) (decode : List Char → Option T) :
    Scope → List Op → List Char → List (Event K T × ℕ) → Prop where
  | whole (ws v : List Char) (t : T) (hws : IsSpaces ws) (hv : Derives .value v) (ht : decode v = some t) :
    Reading decodeKey decode .value [.value] (ws ++ v) [(.value t, byteLen (ws ++ v))]
  | array (ws : List Char) (ops : List Op) (rest : List Char) (events : List (Event K T × ℕ)) (hws : IsSpaces ws)
    (hrest : Reading decodeKey decode (.items true) ops rest events) :
    Reading decodeKey decode .value (.enter 0x5B :: ops) (ws ++ ['['] ++ rest)
      ((.entered, byteLen (ws ++ ['['])) :: events)
  | object (ws : List Char) (ops : List Op) (rest : List Char) (events : List (Event K T × ℕ)) (hws : IsSpaces ws)
    (hrest : Reading decodeKey decode (.members true) ops rest events) :
    Reading decodeKey decode .value (.enter 0x7B :: ops) (ws ++ ['\x7b'] ++ rest)
      ((.entered, byteLen (ws ++ ['\x7b'])) :: events)
  | endItems (first : Bool) (ws : List Char) (hws : IsSpaces ws) :
    Reading decodeKey decode (.items first) [.next] (ws ++ [']']) [(.item false, byteLen (ws ++ [']']))]
  | endMembers (first : Bool) (ws : List Char) (hws : IsSpaces ws) :
    Reading decodeKey decode (.members first) [.next] (ws ++ ['\x7d']) [(.item false, byteLen (ws ++ ['\x7d']))]
  | item (first : Bool) (ws : List Char) (ops ops' : List Op) (value rest : List Char)
    (events events' : List (Event K T × ℕ)) (hws : IsSpaces ws)
    (hfirst : first = true → ∀ c ∈ value.head?, isSpace c = false)
    (hvalue : Reading decodeKey decode .value ops value events)
    (hrest : Reading decodeKey decode (.items false) ops' rest events') :
    Reading decodeKey decode (.items first) (.next :: (ops ++ ops')) (ws ++ comma first ++ (value ++ rest))
      ((.item true, byteLen (ws ++ comma first)) :: (events ++ events'))
  | member (first : Bool) (ws between : List Char) (key : Text) (k : K) (colon : List Char) (ops ops' : List Op)
    (value rest : List Char) (events events' : List (Event K T × ℕ)) (hws : IsSpaces ws)
    (hfirst : first = true → between = []) (hbetween : IsSpaces between) (hkey : decodeKey key.quoted = some k)
    (hcolon : IsSpaces colon) (hvalue : Reading decodeKey decode .value ops value events)
    (hrest : Reading decodeKey decode (.members false) ops' rest events') :
    Reading decodeKey decode (.members first) (.next :: .key :: (ops ++ ops'))
      (ws ++ comma first ++ (between ++ key.quoted ++ (colon ++ [':']) ++ (value ++ rest)))
      ((.item true, byteLen (ws ++ comma first)) :: (.key k, byteLen (between ++ key.quoted ++ (colon ++ [':']))) ::
        (events ++ events'))

/-- The items that the cursor is in where a scope is read. -/
def Scope.within (outer : List Items) : Scope → List Items
  | .value => outer
  | .items first => ⟨0x5D, first⟩ :: outer
  | .members first => ⟨0x7D, first⟩ :: outer

/-! ## Runs -/

/-- Calls that answer `events` past `text` where the body holds `text`, and that a cut within it stops after the first of
them. -/
def Reads (r : Readers K T) (ops : List Op) (text tail : List UInt8) (events : List (Event K T × ℕ))
    (inside inside' : List Items) : Prop :=
  ∀ c k, c.rest = (text ++ tail).take k →
    (text.length ≤ k ∧ run r ops ⟨c, inside⟩ = (events, none, ⟨c.advance text.length, inside'⟩)) ∨
      (k ≤ text.length ∧ ∃ read c' outer, run r ops ⟨c, inside⟩ = (read, some .cut, ⟨c', outer⟩) ∧ read <+: events ∧
        CutWithin text tail c c')

variable {r : Readers K T} {op : Op} {text tail : List UInt8} {ws : List UInt8}

theorem run_cons_of_ok {s s' : State} {event : Event K T} (h : step r op s = (.ok event, s')) (ops : List Op) :
    run r (op :: ops) s = ((event, s'.cursor.pos - s.cursor.pos) :: (run r ops s').1, (run r ops s').2) := by
  rw [run, h]

theorem run_cons_of_error {s s' : State} {stop : Stop} (h : step r op s = (.error stop, s')) (ops : List Op) :
    run r (op :: ops) s = ([], some stop, s') := by
  rw [run, h]

theorem run_append (ops ops' : List Op) (s : State) :
    run r (ops ++ ops') s = match run r ops s with
      | (events, none, s') => (events ++ (run r ops' s').1, (run r ops' s').2)
      | (events, some stop, s') => (events, some stop, s') := by
  induction ops generalizing s with
  | nil => rfl
  | cons op ops ih =>
    rw [cons_append]
    cases hstep : step r op s with
    | mk answer next =>
      cases answer with
      | error => rw [run_cons_of_error hstep, run_cons_of_error hstep]
      | ok =>
        rw [run_cons_of_ok hstep, run_cons_of_ok hstep, ih next]
        cases run r ops next with
        | mk read rest =>
          cases rest with
          | mk stop => cases stop <;> rfl

theorem Reads.append {ops ops' : List Op} {text text' tail : List UInt8} {events events' : List (Event K T × ℕ)}
    {inside between inside' : List Items} (h : Reads r ops text (text' ++ tail) events inside between)
    (h' : Reads r ops' text' tail events' between inside') :
    Reads r (ops ++ ops') (text ++ text') tail (events ++ events') inside inside' := by
  intro c k hrest
  rw [append_assoc] at hrest
  rw [length_append]
  obtain ⟨hlong, hrun⟩ | ⟨hshort, read, c', outer, hrun, hread, d, hd, hopen⟩ := h c k hrest
  · obtain ⟨j, rfl⟩ := Nat.exists_eq_add_of_le hlong
    have hafter : (c.advance text.length).rest = (text' ++ tail).take j := by
      rw [rest_advance, hrest, take_length_add_append, drop_left]
    rw [run_append, hrun]
    dsimp only
    obtain ⟨hlong', hrun'⟩ | ⟨hshort', read, c', outer, hrun', hread, d, hd, hopen⟩ := h' _ j hafter
    · refine .inl ⟨by omega, ?_⟩
      rw [hrun', advance_advance]
    · refine .inr ⟨by omega, events ++ read, c', outer, ?_, ?_, text.length + d, ?_, fun n hn => ?_⟩
      · rw [hrun']
      · exact (prefix_append_right_inj events).mpr hread
      · rw [hd, advance_advance]
      · rw [append_assoc, ← drop_drop, drop_left]
        exact hopen n hn
  · refine .inr ⟨by omega, read, c', outer, ?_, ?_, d, hd, fun n hn => ?_⟩
    · rw [run_append, hrun]
    · exact hread.trans (prefix_append events events')
    · rw [append_assoc]
      exact hopen n hn

theorem Reads.cons {ops : List Op} {text text' tail : List UInt8} {event : Event K T × ℕ}
    {events : List (Event K T × ℕ)} {inside between inside' : List Items}
    (h : Reads r [op] text (text' ++ tail) [event] inside between)
    (h' : Reads r ops text' tail events between inside') :
    Reads r (op :: ops) (text ++ text') tail (event :: events) inside inside' :=
  h.append h'

/-- A reader of one event. -/
theorem Reads.single {event : Event K T} {inside inside' : List Items}
    (h : ∀ c k, c.rest = (text ++ tail).take k → (text.length ≤ k ∧ step r op ⟨c, inside⟩ = (.ok event, ⟨c.advance text.length, inside'⟩)) ∨ (k ≤ text.length ∧ ∃ c' outer, step r op ⟨c, inside⟩ = (.error .cut, ⟨c', outer⟩) ∧ CutWithin text tail c c')) :
    Reads r [op] text tail [(event, text.length)] inside inside' := by
  intro c k hrest
  obtain ⟨hlong, hstep⟩ | ⟨hshort, c', outer, hstep, hcut⟩ := h c k hrest
  · refine .inl ⟨hlong, ?_⟩
    have hsub : (c.advance text.length).pos - c.pos = text.length := Nat.add_sub_cancel_left c.pos text.length
    rw [run_cons_of_ok hstep, hsub]
    rfl
  · refine .inr ⟨hshort, [], c', outer, ?_, nil_prefix, hcut⟩
    rw [run_cons_of_error hstep]

/-! ## The calls of a reading -/

/-- A text has its byte length of bytes. -/
theorem length_asBytes (s : Str) : (asBytes s).length = byteLen s := by
  unfold asBytes byteLen
  rw [length_encode]
  exact congrArg (width · s) (funext String.length_utf8EncodeChar)

theorem reads_value {t : T} (h : Answers (value r.value) text tail t) (inside : List Items) :
    Reads r [.value] text tail [(.value t, text.length)] inside inside := by
  refine .single fun c k hrest => ?_
  obtain ⟨hlong, hcall⟩ | ⟨hshort, c', hcall, hcut⟩ := h c k hrest
  · refine .inl ⟨hlong, ?_⟩
    unfold step
    rw [hcall]
  · refine .inr ⟨hshort, c', inside, ?_, hcut⟩
    unfold step
    rw [hcall]

theorem reads_key {k : K} (h : Answers (key r.key) text tail k) (inside : List Items) :
    Reads r [.key] text tail [(.key k, text.length)] inside inside := by
  refine .single fun c k hrest => ?_
  obtain ⟨hlong, hcall⟩ | ⟨hshort, c', hcall, hcut⟩ := h c k hrest
  · refine .inl ⟨hlong, ?_⟩
    unfold step
    rw [hcall]
  · refine .inr ⟨hshort, c', inside, ?_, hcut⟩
    unfold step
    rw [hcall]

theorem reads_enter {opening : UInt8} {items : Items} (h : Answers (enter opening) text tail items)
    (inside : List Items) : Reads r [.enter opening] text tail [(.entered, text.length)] inside (items :: inside) := by
  refine .single fun c k hrest => ?_
  obtain ⟨hlong, hcall⟩ | ⟨hshort, c', hcall, hcut⟩ := h c k hrest
  · refine .inl ⟨hlong, ?_⟩
    unfold step
    dsimp only
    rw [hcall]
  · refine .inr ⟨hshort, c', inside, ?_, hcut⟩
    unfold step
    dsimp only
    rw [hcall]

section

variable (hws : ∀ b ∈ ws, isJsonSpace b = true)
include hws

theorem reads_end {close : UInt8} (hclose : isJsonSpace close = false) (first : Bool) (tail : List UInt8)
    (outer : List Items) : Reads r [.next] (ws ++ [close]) tail [(.item false, (ws ++ [close]).length)]
    (⟨close, first⟩ :: outer) outer := by
  refine .single fun c k hrest => ?_
  rw [append_assoc] at hrest
  have hlength : (ws ++ [close]).length = ws.length + 1 := length_append
  rw [hlength]
  unfold step next
  obtain ⟨hk, hbyte⟩ | ⟨hk, hbyte, hnil⟩ := byte_answers hws hclose tail c hrest
  · refine .inl ⟨hk, ?_⟩
    rw [hbyte]
    dsimp only
    rw [if_pos rfl]
    rw [advance_advance]
  · refine .inr ⟨le_succ_of_le hk, c.advance k, ⟨close, first⟩ :: outer, ?_, cutWithin_byte hnil⟩
    rw [hbyte]

theorem reads_first {close b : UInt8} (hb : isJsonSpace b = false) (hne : b ≠ close) (tail : List UInt8)
    (outer : List Items) : Reads r [.next] ws (b :: tail) [(.item true, ws.length)] (⟨close, true⟩ :: outer)
    (⟨close, false⟩ :: outer) := by
  refine .single fun c k hrest => ?_
  unfold step next
  obtain ⟨hk, hbyte⟩ | ⟨hk, hbyte, hnil⟩ := byte_answers hws hb tail c hrest
  · refine .inl ⟨le_of_lt hk, ?_⟩
    rw [hbyte]
    dsimp only
    rw [if_neg hne, if_pos rfl]
  · refine .inr ⟨hk, c.advance k, ⟨close, true⟩ :: outer, ?_, cutWithin_byte hnil⟩
    rw [hbyte]

theorem reads_more {close : UInt8} (hne : 0x2C ≠ close) (tail : List UInt8) (outer : List Items) : Reads r [.next]
    (ws ++ [0x2C]) tail [(.item true, (ws ++ [0x2C]).length)] (⟨close, false⟩ :: outer) (⟨close, false⟩ :: outer) := by
  refine .single fun c k hrest => ?_
  rw [append_assoc] at hrest
  have hlength : (ws ++ [0x2C]).length = ws.length + 1 := length_append
  rw [hlength]
  unfold step next
  obtain ⟨hk, hbyte⟩ | ⟨hk, hbyte, hnil⟩ := byte_answers hws (by decide) tail c hrest
  · refine .inl ⟨hk, ?_⟩
    rw [hbyte]
    dsimp only
    rw [if_neg hne, if_neg Bool.false_ne_true, if_pos rfl]
    rw [advance_advance]
  · refine .inr ⟨le_succ_of_le hk, c.advance k, ⟨close, false⟩ :: outer, ?_, cutWithin_byte hnil⟩
    rw [hbyte]

end

/-- The text of a value that is a container: its first mark opens it. -/
def IsContainer (text : List Char) : Prop := ∃ c ∈ ['[', '\x7b'], (text.dropWhile isSpace).head? = some c

theorem isContainer_append {ws : List Char} (hws : IsSpaces ws) (v : List Char) : IsContainer (ws ++ v) ↔ IsContainer v := by
  unfold IsContainer
  rw [dropWhile_append_of_pos hws]

theorem not_isContainer {first : Char} (hspace : isSpace first = false) (hmark : first ∉ ['[', '\x7b'])
    (rest : List Char) : ¬ IsContainer (first :: rest) := by
  rintro ⟨c, hc, hhead⟩
  rw [dropWhile_cons_of_neg (by rw [hspace]; exact Bool.false_ne_true)] at hhead
  exact hmark (some.inj hhead ▸ hc)

theorem not_isContainer_scalar {v : List Char}
    (h : (∃ word ∈ ["null", "true", "false"], v = word.toList) ∨ IsNumber v ∨ ∃ s : Text, v = s.quoted) :
    ¬ IsContainer v := by
  obtain ⟨word, hword, rfl⟩ | hnumber | ⟨s, rfl⟩ := h
  · have hwords : ∀ word ∈ ["null", "true", "false"], ∀ c ∈ ['[', '\x7b'],
        (word.toList.dropWhile isSpace).head? ≠ some c := by decide
    rintro ⟨c, hc, hhead⟩
    exact hwords word hword c hc hhead
  · obtain ⟨first, rest, rfl, hfirst⟩ := exists_number_first hnumber
    have hdigits : ∀ c ∈ [' ', '\t', '\n', '\r', '[', '\x7b'], c.isDigit = false ∧ c ≠ '-' := by decide
    have hnone {c : Char} (hc : c ∈ [' ', '\t', '\n', '\r', '[', '\x7b']) (heq : first = c) : False := by
      rw [heq] at hfirst
      cases hfirst with
      | inl hdigit =>
        rw [(hdigits c hc).1] at hdigit
        cases hdigit
      | inr hminus => exact (hdigits c hc).2 hminus
    refine not_isContainer (eq_false_iff.mpr fun hs => ?_) (fun hmark => ?_) rest
    · exact hnone (mem_append_left ['[', '\x7b'] ((isSpace_iff first).mp hs)) rfl
    · exact hnone (mem_append_right [' ', '\t', '\n', '\r'] hmark) rfl
  · exact not_isContainer rfl (by decide) _

theorem getLast?_container {v : List Char} (hv : Derives .value v) (h : IsContainer v) :
    (asBytes v).getLast?.any isAsciiDigit = false := by
  have hlast (front : List Char) {c : Char} (hc : c ∈ [']', '\x7d']) :
      (asBytes (front ++ [c])).getLast?.any isAsciiDigit = false := by
    have hbyte : ∀ c ∈ [']', '\x7d'], c.toNat ≤ 127 ∧ isAsciiDigit c.val.toUInt8 = false := by decide
    rw [asBytes_append, asBytes_cons_of_ascii (hbyte c hc).1, List.getLast?_append]
    exact (hbyte c hc).2
  obtain hword | hnumber | hstring | ⟨inner, rfl⟩ | ⟨inner, rfl⟩ := value_cases hv
  · exact absurd h (not_isContainer_scalar (.inl hword))
  · exact absurd h (not_isContainer_scalar (.inr (.inl hnumber)))
  · exact absurd h (not_isContainer_scalar (.inr (.inr hstring)))
  · exact hlast ('[' :: inner) (by decide)
  · exact hlast ('\x7b' :: inner) (by decide)

section Main

variable {decodeKey : List Char → Option K} {decode : List Char → Option T} {r : Readers K T}

variable {ops : List Op} {text : List Char} {events : List (Event K T × ℕ)}

theorem exists_reading_byte (h : Reading decodeKey decode .value ops text events)
    (hhead : ∀ c ∈ text.head?, isSpace c = false) :
    ∃ b rest, asBytes text = b :: rest ∧ isJsonSpace b = false ∧ b ≠ 0x5D := by
  have hnil {ws rest : List Char} (hws : IsSpaces ws) (hhead : ∀ c ∈ (ws ++ rest).head?, isSpace c = false) : ws = [] := by
    cases ws with
    | nil => rfl
    | cons c =>
      have htrue := hws c mem_cons_self
      rw [hhead c rfl] at htrue
      cases htrue
  cases h with
  | whole ws v t hws hv =>
    obtain rfl := hnil hws hhead
    obtain ⟨b, rest, hbytes, hspace, hbracket, -, -⟩ := exists_value_byte hv
    exact ⟨b, rest, hbytes, hspace, hbracket⟩
  | array ws ops rest events hws =>
    rw [append_assoc] at hhead
    obtain rfl := hnil hws hhead
    exact ⟨0x5B, asBytes rest, asBytes_cons_of_ascii (by decide) rest, by decide, by decide⟩
  | object ws ops rest events hws =>
    rw [append_assoc] at hhead
    obtain rfl := hnil hws hhead
    exact ⟨0x7B, asBytes rest, asBytes_cons_of_ascii (by decide) rest, by decide, by decide⟩

theorem endsValue_reading {scope : Scope} (h : Reading decodeKey decode scope ops text events)
    (hscope : scope = .items false ∨ scope = .members false) (tail : List UInt8) :
    EndsValue (asBytes text ++ tail) ∧ asBytes text ++ tail ≠ [] := by
  have hends {ws rest : List Char} {c : Char} (hws : IsSpaces ws) (hc : c ∈ [',', ']', '\x7d']) :
      EndsValue (asBytes (ws ++ [c] ++ rest) ++ tail) ∧ asBytes (ws ++ [c] ++ rest) ++ tail ≠ [] := by
    have hbyte : ∀ c ∈ [',', ']', '\x7d'], c.toNat ≤ 127 ∧ c.val.toUInt8 ∈ valueEnds := by decide
    obtain ⟨hascii, hb⟩ := hbyte c hc
    have htext : asBytes (ws ++ [c] ++ rest) ++ tail = asBytes ws ++ c.val.toUInt8 :: (asBytes rest ++ tail) := by
      rw [append_assoc, singleton_append, asBytes_append, asBytes_cons_of_ascii hascii, append_assoc, cons_append]
    rw [htext]
    exact ⟨endsValue_spaces hws hb _, append_ne_nil_of_right_ne_nil _ (cons_ne_nil _ _)⟩
  cases h with
  | whole | array | object => simp at hscope
  | endItems first ws hws =>
    rw [← append_nil (ws ++ [']'])]
    exact hends hws (by decide)
  | endMembers first ws hws =>
    rw [← append_nil (ws ++ ['\x7d'])]
    exact hends hws (by decide)
  | item first ws ops ops' value rest events events' hws
  | member first ws between key k colon ops ops' value rest events events' hws =>
    obtain rfl : first = false := by simpa using hscope
    exact hends hws (by decide)

/-! ## Every text has a reading -/

section Exists

variable (decodeKey : List Char → Option K) (decode : List Char → Option T)

/-- A part of a text can be gone through: a value behind white space, and the rest of a container from its first item on
or behind a comma. -/
def Readable : Part → List Char → Prop
  | .value, v => ∀ ws, IsSpaces ws → ∃ ops events, Reading decodeKey decode .value ops (ws ++ v) events ∧
      (IsContainer v → ∃ opening inner, ops = .enter opening :: inner)
  | .items, text => (∃ ops events, Reading decodeKey decode (.items true) ops (text ++ [']']) events) ∧
      ∀ ws, IsSpaces ws → ∃ ops events, Reading decodeKey decode (.items false) ops (ws ++ ',' :: (text ++ [']'])) events
  | .members _, text => (∃ ops events, Reading decodeKey decode (.members true) ops (text ++ ['\x7d']) events) ∧
      ∀ ws, IsSpaces ws → ∃ ops events, Reading decodeKey decode (.members false) ops (ws ++ ',' :: (text ++ ['\x7d'])) events

variable {decodeKey decode}

/-- A value that starts no container is read whole. -/
theorem readable_scalar {v : List Char} (hv : Derives .value v) (hnot : ¬ IsContainer v) (ht : (decode v).isSome) :
    Readable decodeKey decode .value v := by
  intro ws hws
  obtain ⟨t, ht⟩ := isSome_iff_exists.mp ht
  exact ⟨_, _, .whole ws v t hws hv ht, fun hcontainer => absurd hcontainer hnot⟩

/-- An array is entered before its items. -/
theorem readable_array {rest : List Char} (h : ∃ ops events, Reading decodeKey decode (.items true) ops rest events) :
    Readable decodeKey decode .value ('[' :: rest) := by
  intro ws hws
  obtain ⟨ops, events, hrest⟩ := h
  rw [List.append_cons]
  exact ⟨_, _, .array ws ops rest events hws hrest, fun _ => ⟨_, _, rfl⟩⟩

/-- An object is entered before its members. -/
theorem readable_object {rest : List Char} (h : ∃ ops events, Reading decodeKey decode (.members true) ops rest events) :
    Readable decodeKey decode .value ('\x7b' :: rest) := by
  intro ws hws
  obtain ⟨ops, events, hrest⟩ := h
  rw [List.append_cons]
  exact ⟨_, _, .object ws ops rest events hws hrest, fun _ => ⟨_, _, rfl⟩⟩

/-- An item is a value, and what follows it is gone through behind it. -/
theorem readable_item {before value rest : List Char} (hbefore : IsSpaces before) (hv : Derives .value value)
    (hvalue : Readable decodeKey decode .value value)
    (hrest : ∃ ops events, Reading decodeKey decode (.items false) ops rest events) :
    (∃ ops events, Reading decodeKey decode (.items true) ops (before ++ (value ++ rest)) events) ∧
      ∀ ws, IsSpaces ws →
        ∃ ops events, Reading decodeKey decode (.items false) ops (ws ++ ',' :: (before ++ (value ++ rest))) events := by
  obtain ⟨ops', events', hrest⟩ := hrest
  constructor
  · obtain ⟨ops, events, hread, -⟩ := hvalue [] (forall_mem_nil _)
    have hfirst : true = true → ∀ c ∈ value.head?, isSpace c = false := by
      obtain ⟨c, tail, rfl, -, hmarks, -⟩ := exists_value_first hv
      rintro - _ ⟨rfl⟩
      refine eq_false_iff.mpr fun hspace => hmarks ?_
      exact mem_append_left _ ((isSpace_iff c).mp hspace)
    have hitem := Reading.item true before ops ops' value rest events events' hbefore hfirst hread hrest
    rw [comma, if_pos rfl, append_nil] at hitem
    exact ⟨_, _, hitem⟩
  · intro ws hws
    obtain ⟨ops, events, hread, -⟩ := hvalue before hbefore
    have hitem := Reading.item false ws ops ops' (before ++ value) rest events events' hws (fun h => Bool.noConfusion h)
      hread hrest
    rw [comma, if_neg Bool.false_ne_true, ← List.append_cons, append_assoc before] at hitem
    exact ⟨_, _, hitem⟩

/-- A member is a key and a value, and what follows it is gone through behind it. -/
theorem readable_member {before colon between value rest : List Char} {key : Text} (hbefore : IsSpaces before)
    (hkey : (decodeKey key.quoted).isSome) (hcolon : IsSpaces colon) (hbetween : IsSpaces between)
    (hvalue : Readable decodeKey decode .value value)
    (hrest : ∃ ops events, Reading decodeKey decode (.members false) ops rest events) :
    (∃ ops events, Reading decodeKey decode (.members true) ops
        (before ++ (key.quoted ++ (colon ++ ':' :: (between ++ (value ++ rest))))) events) ∧
      ∀ ws, IsSpaces ws → ∃ ops events, Reading decodeKey decode (.members false) ops
        (ws ++ ',' :: (before ++ (key.quoted ++ (colon ++ ':' :: (between ++ (value ++ rest)))))) events := by
  obtain ⟨ops', events', hrest⟩ := hrest
  obtain ⟨k, hkey⟩ := isSome_iff_exists.mp hkey
  obtain ⟨ops, events, hread, -⟩ := hvalue between hbetween
  have htail : key.quoted ++ (colon ++ ':' :: (between ++ (value ++ rest))) =
      key.quoted ++ (colon ++ [':']) ++ ((between ++ value) ++ rest) := by
    simp only [append_assoc, singleton_append]
  rw [htail]
  constructor
  · have hmember := Reading.member true before [] key k colon ops ops' (between ++ value) rest events events' hbefore
      (fun _ => rfl) (forall_mem_nil _) hkey hcolon hread hrest
    rw [comma, if_pos rfl, append_nil, nil_append] at hmember
    exact ⟨_, _, hmember⟩
  · intro ws hws
    have hmember := Reading.member false ws before key k colon ops ops' (between ++ value) rest events events' hws
      (fun h => Bool.noConfusion h) hbefore hkey hcolon hread hrest
    rw [comma, if_neg Bool.false_ne_true, append_assoc before, append_assoc before, ← List.append_cons] at hmember
    exact ⟨_, _, hmember⟩

/-- What the grammar derives can be gone through, where every key and every value that is no container is decoded. -/
theorem readable_of_derives (hkeys : ∀ key : Text, (decodeKey key.quoted).isSome)
    (hscalars : ∀ v, Derives .value v → ¬ IsContainer v → (decode v).isSome) {part : Part} {text : List Char}
    (h : Derives part text) : Readable decodeKey decode part text := by
  have hscalar {v : List Char} (hv : Derives .value v)
      (hkind : (∃ word ∈ ["null", "true", "false"], v = word.toList) ∨ IsNumber v ∨ ∃ s : Text, v = s.quoted) :
      Readable decodeKey decode .value v :=
    readable_scalar hv (not_isContainer_scalar hkind) (hscalars v hv (not_isContainer_scalar hkind))
  induction h with
  | literal word hword => exact hscalar (.literal word hword) (.inl ⟨word, hword, rfl⟩)
  | number s hnumber => exact hscalar (.number s hnumber) (.inr (.inl hnumber))
  | string s => exact hscalar (.string s) (.inr (.inr ⟨s, rfl⟩))
  | emptyArray space hspace => exact readable_array ⟨_, _, .endItems true space hspace⟩
  | array items hitems ih => exact readable_array ih.1
  | emptyObject space hspace => exact readable_object ⟨_, _, .endMembers true space hspace⟩
  | object entries members hmembers ih => exact readable_object ih.1
  | item before value after hbefore hvalue hafter ih =>
    have hitem := readable_item hbefore hvalue ih ⟨_, _, .endItems false after hafter⟩
    simp only [Readable, append_assoc]
    exact hitem
  | moreItems before value after rest hbefore hvalue hafter hrest ihvalue ihrest =>
    have hitem := readable_item hbefore hvalue ihvalue (ihrest.2 after hafter)
    simp only [Readable, append_assoc, cons_append]
    exact hitem
  | member before key colon between value after hbefore hcolon hbetween hvalue hafter ih =>
    have hmember := readable_member hbefore (hkeys key) hcolon hbetween ih ⟨_, _, .endMembers false after hafter⟩
    simp only [Readable, append_assoc, cons_append]
    exact hmember
  | moreMembers before key colon between value after rest entries hbefore hcolon hbetween hvalue hafter hrest ihvalue
      ihrest =>
    have hmember := readable_member hbefore (hkeys key) hcolon hbetween ihvalue (ihrest.2 after hafter)
    simp only [Readable, append_assoc, cons_append]
    exact hmember

/-- Every text that is a container has a reading, which enters it and, where no container decodes, every container
inside. -/
theorem exists_reading (hkeys : ∀ key : Text, (decodeKey key.quoted).isSome)
    (hscalars : ∀ v, Derives .value v → ¬ IsContainer v → (decode v).isSome) {v : List Char} (h : Derives .value v)
    (hcontainer : IsContainer v) {ws : List Char} (hws : IsSpaces ws) :
    ∃ opening ops events, Reading decodeKey decode .value (.enter opening :: ops) (ws ++ v) events := by
  obtain ⟨ops, events, hread, henters⟩ := readable_of_derives hkeys hscalars h ws hws
  obtain ⟨opening, inner, rfl⟩ := henters hcontainer
  exact ⟨opening, inner, events, hread⟩

end Exists

theorem reads_next {ws : List Char} (hws : IsSpaces ws) {close : UInt8} (hclose : 0x2C ≠ close) (first : Bool)
    {tail : List UInt8} (hfirst : first = true → ∃ b rest, tail = b :: rest ∧ isJsonSpace b = false ∧ b ≠ close)
    (outer : List Items) :
    Reads r [.next] (asBytes (ws ++ comma first)) tail [(.item true, byteLen (ws ++ comma first))]
      (⟨close, first⟩ :: outer) (⟨close, false⟩ :: outer) := by
  rw [← length_asBytes]
  cases first with
  | true =>
    obtain ⟨b, rest, rfl, hb, hne⟩ := hfirst rfl
    have htext : ws ++ comma true = ws := append_nil ws
    rw [htext]
    exact reads_first (isJsonSpace_of_mem hws) hb hne rest outer
  | false =>
    have htext : asBytes (ws ++ comma false) = asBytes ws ++ [0x2C] := asBytes_append ws [',']
    rw [htext]
    exact reads_more (isJsonSpace_of_mem hws) hclose tail outer

/-- A reader agrees with a reading of the whole text. -/
theorem reads_of_reading (hkeys : SerdeReads decodeKey r.key) (hvalues : SerdeReads decode r.value) {scope : Scope}
    (h : Reading decodeKey decode scope ops text events) (outer : List Items) {tail : List UInt8}
    (htail : EndsValue tail) (hlast : tail ≠ [] ∨ IsContainer text ∨ scope ≠ .value) :
    Reads r ops (asBytes text) tail events (scope.within outer) outer := by
  induction h generalizing outer tail with
  | whole ws v t hws hv ht =>
    rw [← length_asBytes, asBytes_append]
    refine reads_value (value_answers hvalues hws hv ht htail ?_) outer
    obtain hne | hcont | hscope := hlast
    · exact .inl hne
    · exact .inr (getLast?_container hv ((isContainer_append hws v).mp hcont))
    · exact absurd rfl hscope
  | array ws ops rest events hws hrest ih =>
    rw [← length_asBytes, asBytes_append (ws ++ ['['])]
    refine Reads.cons ?_ (ih outer htail (Or.inr (Or.inr Scope.noConfusion)))
    rw [asBytes_append]
    exact reads_enter (enter_answers rfl (by decide) (isJsonSpace_of_mem hws) _) outer
  | object ws ops rest events hws hrest ih =>
    rw [← length_asBytes, asBytes_append (ws ++ ['\x7b'])]
    refine Reads.cons ?_ (ih outer htail (Or.inr (Or.inr Scope.noConfusion)))
    rw [asBytes_append]
    exact reads_enter (enter_answers rfl (by decide) (isJsonSpace_of_mem hws) _) outer
  | endItems first ws hws | endMembers first ws hws =>
    rw [← length_asBytes, asBytes_append]
    exact reads_end (isJsonSpace_of_mem hws) (by decide) first tail outer
  | item first ws ops ops' value rest events events' hws hfirst hvalue hrest ihvalue ihrest =>
    obtain ⟨hends, hne⟩ := endsValue_reading hrest (.inl rfl) tail
    rw [asBytes_append (ws ++ comma first), asBytes_append value]
    refine .cons (reads_next hws (by decide) first (fun hf => ?_) outer) ?_
    · obtain ⟨b, bytes, hbytes, hspace, hbracket⟩ := exists_reading_byte hvalue (hfirst hf)
      rw [hbytes]
      exact ⟨b, _, rfl, hspace, hbracket⟩
    · exact Reads.append (ihvalue _ hends (Or.inl hne)) (ihrest outer htail (Or.inr (Or.inr Scope.noConfusion)))
  | member first ws between key k colon ops ops' value rest events events' hws hfirst hmid hkey hcolon hvalue hrest
      ihvalue ihrest =>
    obtain ⟨hends, hne⟩ := endsValue_reading hrest (.inr rfl) tail
    rw [asBytes_append (ws ++ comma first), asBytes_append (between ++ key.quoted ++ (colon ++ [':'])), asBytes_append value]
    refine .cons (reads_next hws (by decide) first (fun hf => ?_) outer) ?_
    · rw [hfirst hf]
      exact ⟨0x22, _, rfl, by decide, by decide⟩
    · refine .cons ?_
        (Reads.append (ihvalue _ hends (Or.inl hne)) (ihrest outer htail (Or.inr (Or.inr Scope.noConfusion))))
      rw [← length_asBytes, asBytes_append, asBytes_append, asBytes_append colon]
      exact reads_key (key_answers hkeys hmid key hkey hcolon _) _

/-- Of a body that is a container, every beginning is read up to a beginning of what the body holds. -/
theorem cut_reads_prefix (hkeys : SerdeReads decodeKey r.key) (hvalues : SerdeReads decode r.value) {ops : List Op}
    {text : List Char} {events : List (Event K T × ℕ)} (h : Reading decodeKey decode .value ops text events)
    (hcontainer : IsContainer text) {after : List Char} (hafter : IsSpaces after) :
    run r ops ⟨⟨asBytes (text ++ after), 0⟩, []⟩ = (events, none, ⟨⟨asBytes (text ++ after), byteLen text⟩, []⟩) ∧
      ∀ body, body <+: asBytes (text ++ after) → ∃ read stop s, run r ops ⟨⟨body, 0⟩, []⟩ = (read, stop, s) ∧
        read <+: events ∧ (stop = none ∧ read = events ∨ stop = some .cut ∧
          ∀ n, openStringLen s.cursor = some n → OpenString ((asBytes (text ++ after)).drop s.cursor.pos) n) := by
  have hends : EndsValue (asBytes after) := by
    cases after with
    | nil => exact fun b hb => absurd hb (Option.not_mem_none b)
    | cons c =>
      have hspaces : ∀ c ∈ [' ', '\t', '\n', '\r'], c.toNat ≤ 127 ∧ c.val.toUInt8 ∈ valueEnds := by decide
      obtain ⟨hascii, hc⟩ := hspaces c ((isSpace_iff c).mp (hafter c List.mem_cons_self))
      rw [asBytes_cons_of_ascii hascii]
      intro b hb
      cases hb
      exact hc
  have hreads : Reads r ops (asBytes text) (asBytes after) events [] [] :=
    reads_of_reading hkeys hvalues h [] hends (Or.inr (Or.inl hcontainer))
  have hbytes : asBytes text ++ asBytes after = asBytes (text ++ after) := (asBytes_append text after).symm
  constructor
  · have hrest : Cursor.rest ⟨asBytes (text ++ after), 0⟩ =
        (asBytes text ++ asBytes after).take ((asBytes (text ++ after)).length + 1) := by
      rw [hbytes, List.take_of_length_le (le_succ _)]
      rfl
    obtain ⟨-, hrun⟩ | ⟨hshort, -⟩ := hreads _ _ hrest
    · rw [hrun, length_asBytes]
      unfold Cursor.advance
      rw [zero_add]
    · rw [← hbytes, List.length_append] at hshort
      omega
  · intro body hbody
    have hrest : Cursor.rest ⟨body, 0⟩ = (asBytes text ++ asBytes after).take body.length := by
      rw [hbytes]
      exact List.prefix_iff_eq_take.mp hbody
    obtain ⟨-, hrun⟩ | ⟨-, read, c', outer, hrun, hread, d, hd, hopen⟩ := hreads _ _ hrest
    · exact ⟨events, none, _, hrun, List.prefix_rfl, .inl ⟨rfl, rfl⟩⟩
    · refine ⟨read, some .cut, _, hrun, hread, .inr ⟨rfl, fun n hn => ?_⟩⟩
      have hpos : c'.pos = d := by
        rw [hd]
        exact zero_add d
      rw [← hbytes, hpos]
      exact hopen n hn

end Main

/-- A deserializer of one word: a beginning of the word is the end of the input, or a number where it ends with a digit. -/
def wordSerde (word : List UInt8) : Serde (List UInt8) := fun rest =>
  let text := rest.dropWhile isJsonSpace
  if text = [] then none
  else if word.isPrefixOf text then some (.ok (word, rest.length - text.length + word.length))
  else if text.isPrefixOf word then
    if text.getLast?.any isAsciiDigit then some (.ok (text, rest.length)) else some (.error true)
  else some (.error false)

/-- A reader of one word reads that word. -/
theorem wordSerde_reads {word : List Char} (hnumber : ∀ p, p <+: asBytes word → p.getLast?.any isAsciiDigit = true →
    ∃ number, IsNumber number ∧ p = asBytes number) :
    SerdeReads (fun v => if v = word then some (asBytes word) else none) (wordSerde (asBytes word)) where
  space ws hws := by
    unfold wordSerde
    rw [dropWhile_eq_nil_iff.mpr (isJsonSpace_of_mem hws)]
    rfl
  whole ws v t after hws hv ht hafter := by
    obtain ⟨rfl, rfl⟩ : v = word ∧ asBytes word = t := by simpa using ht
    obtain ⟨b, rest, hbytes, hspace, -⟩ := exists_value_byte hv
    have htext : (asBytes ws ++ (asBytes v ++ after)).dropWhile isJsonSpace = asBytes v ++ after := by
      rw [dropWhile_append_of_pos (isJsonSpace_of_mem hws), hbytes, cons_append,
        dropWhile_cons_of_neg (by rw [hspace]; exact Bool.false_ne_true)]
    have hne : asBytes v ++ after ≠ [] := by
      rw [hbytes]
      exact cons_ne_nil _ _
    unfold wordSerde
    rw [htext, if_neg hne, if_pos (List.isPrefixOf_iff_prefix.mpr (prefix_append _ _)), length_append, Nat.add_sub_cancel]
  cut ws v t p hws hv ht hne hp hless := by
    obtain ⟨rfl, rfl⟩ : v = word ∧ asBytes word = t := by simpa using ht
    obtain ⟨b, rest, hbytes, hspace, -⟩ := exists_value_byte hv
    have htext : (asBytes ws ++ p).dropWhile isJsonSpace = p := by
      obtain ⟨x, p, rfl⟩ := exists_cons_of_ne_nil hne
      rw [hbytes] at hp
      obtain ⟨rfl, -⟩ := cons_prefix_cons.mp hp
      rw [dropWhile_append_of_pos (isJsonSpace_of_mem hws),
        dropWhile_cons_of_neg (by rw [hspace]; exact Bool.false_ne_true)]
    have hnot : ¬ (asBytes v).isPrefixOf p = true := fun hpre =>
      hless (hp.eq_of_length (Nat.le_antisymm hp.length_le (List.isPrefixOf_iff_prefix.mp hpre).length_le))
    unfold wordSerde
    rw [htext, if_neg hne, if_neg hnot, if_pos (List.isPrefixOf_iff_prefix.mpr hp)]
    by_cases hdigit : p.getLast?.any isAsciiDigit = true
    · obtain ⟨number, hnum, heq⟩ := hnumber p hp hdigit
      rw [if_pos hdigit, length_append]
      exact .inr ⟨number, p, hnum, heq, rfl⟩
    · rw [if_neg hdigit]
      exact .inl rfl

/-- Readers of one key and one number. -/
def wordReaders : Readers (List UInt8) (List UInt8) :=
  ⟨wordSerde (asBytes "\"a\"".toList), wordSerde (asBytes "12".toList)⟩

/-- Digits without a leading zero are a number. -/
theorem isNumber_of_digits {s : List Char} (hs : IsDigits s) (hzero : s.head? ≠ some '0') : IsNumber s :=
  ⟨[], s, [], [], mem_cons_self, ⟨hs, fun h => absurd h hzero⟩, .inl rfl, .inl rfl, by
    rw [nil_append, append_nil, append_nil]⟩

/-- An object of one member, a number of two digits, is read member by member, and cut anywhere up to the cut. -/
theorem cut_reads_prefix_member :
    run wordReaders [.enter 0x7B, .next, .key, .value, .next] ⟨⟨asBytes "\x7b\"a\":12\x7d".toList, 0⟩, []⟩ =
        ([(.entered, 1), (.item true, 0), (.key (asBytes "\"a\"".toList), 4), (.value (asBytes "12".toList), 2),
          (.item false, 1)], none, ⟨⟨asBytes "\x7b\"a\":12\x7d".toList, 8⟩, []⟩) ∧
      ∀ body, body <+: asBytes "\x7b\"a\":12\x7d".toList → ∃ read stop s,
        run wordReaders [.enter 0x7B, .next, .key, .value, .next] ⟨⟨body, 0⟩, []⟩ = (read, stop, s) ∧
          read <+: [(.entered, 1), (.item true, 0), (.key (asBytes "\"a\"".toList), 4),
            (.value (asBytes "12".toList), 2), (.item false, 1)] ∧
          (stop = none ∧ read = [(.entered, 1), (.item true, 0), (.key (asBytes "\"a\"".toList), 4),
              (.value (asBytes "12".toList), 2), (.item false, 1)] ∨
            stop = some .cut ∧ ∀ n, openStringLen s.cursor = some n →
              OpenString ((asBytes "\x7b\"a\":12\x7d".toList).drop s.cursor.pos) n) := by
  have hkey : SerdeReads (fun v => if v = "\"a\"".toList then some (asBytes "\"a\"".toList) else none)
      wordReaders.key := by
    refine wordSerde_reads fun p hp hdigit => ?_
    have hnone : ∀ p ∈ (asBytes "\"a\"".toList).inits, p.getLast?.any isAsciiDigit = false := by decide
    rw [hnone p ((List.mem_inits _ _).mpr hp)] at hdigit
    cases hdigit
  have hvalue : SerdeReads (fun v => if v = "12".toList then some (asBytes "12".toList) else none)
      wordReaders.value := by
    refine wordSerde_reads fun p hp hdigit => ?_
    have hall : ∀ p ∈ (asBytes "12".toList).inits,
        p.getLast?.any isAsciiDigit = false ∨ p = asBytes "1".toList ∨ p = asBytes "12".toList := by decide
    obtain hnone | rfl | rfl := hall p ((List.mem_inits _ _).mpr hp)
    · rw [hnone] at hdigit
      cases hdigit
    · exact ⟨_, isNumber_of_digits ⟨by decide, by decide⟩ (by decide), rfl⟩
    · exact ⟨_, isNumber_of_digits ⟨by decide, by decide⟩ (by decide), rfl⟩
  have hspaces : IsSpaces [] := List.forall_mem_nil _
  have hnumber : Derives .value "12".toList := .number _ (isNumber_of_digits ⟨by decide, by decide⟩ (by decide))
  exact cut_reads_prefix hkey hvalue
    (.object [] _ _ _ hspaces (.member true [] [] [.plain 'a' (by decide)] _ [] _ _ _ _ _ _ hspaces (fun _ => rfl) hspaces
      (if_pos rfl) hspaces (.whole [] _ _ hspaces hnumber (if_pos rfl)) (.endMembers false [] hspaces)))
    ⟨'\x7b', by decide, rfl⟩ hspaces

end Onecli.Summary.JsonPrefix
