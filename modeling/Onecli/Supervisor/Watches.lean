import Onecli.Api.Text
import Onecli.Foundation.Runs
import Onecli.Gateway.Text

/-!
# Watches on a process

`armWatch`, `onOutput`, `sweep`, `cancelWatch` and `finalize` of `processes/manager.ts`, on one process. The watches of a
process share one window of its last output, which is decoded chunk by chunk.
-/

namespace Onecli.Supervisor.Watches

open Gateway (Str asBytes fromUtf8Lossy fromUtf8Lossy_asBytes)
open Api (JsString)
open Utf16 (utf16 utf16_append)
open List Bool

/-- `MAX_WATCHES_PER_PROCESS`. -/
def MAX_WATCHES_PER_PROCESS : ℕ := 3

/-- `MAX_WATCHES_PER_PROCESS_WIRE`. -/
def MAX_WATCHES_PER_PROCESS_WIRE : ℕ := 8

/-- `MAX_WATCH_PATTERN_CHARS`. -/
def MAX_WATCH_PATTERN_CHARS : ℕ := 200

/-- `MAX_WATCH_EXCERPT_CHARS`. -/
def MAX_WATCH_EXCERPT_CHARS : ℕ := 1000

/-- `TAIL_BUFFER_CHARS`. -/
def TAIL_BUFFER_CHARS : ℕ := 64000

/-- `PATTERN_WINDOW_CHARS`. -/
def PATTERN_WINDOW_CHARS : ℕ := 4096

/-- `WATCH_EXPIRES_MIN_SECONDS`. -/
def WATCH_EXPIRES_MIN_SECONDS : ℕ := 60

/-- `WATCH_EXPIRES_MAX_SECONDS`. -/
def WATCH_EXPIRES_MAX_SECONDS : ℕ := 86400

/-- `WATCH_EXPIRES_DEFAULT_SECONDS`. -/
def WATCH_EXPIRES_DEFAULT_SECONDS : ℕ := 3600

/-- A pattern that `watchSchema` takes. -/
structure Pattern where
  text : JsString
  ne_nil : text ≠ []
  length_le : text.length ≤ MAX_WATCH_PATTERN_CHARS

/-- The kind of a watch. -/
inductive Kind where
  | exit
  | pattern (pattern : Pattern)
  | silence (silenceSeconds : ℕ)

/-- Why a watch was triggered. -/
inductive Trigger where
  | exited
  | matched
  | silent
  deriving DecidableEq

/-- The status of a watch, with what a trigger leaves. -/
inductive Status where
  | armed
  | triggered (trigger : Trigger) (triggeredAt : ℕ) (excerpt : JsString)
  | expired
  | canceled
  deriving DecidableEq

/-- The pattern of a watch was seen. -/
def Status.isMatched : Status → Bool
  | .triggered .matched _ _ => true
  | _ => false

/-- `WatchEntry`, with the output that came while it was armed, for the record. -/
structure Watch where
  ref : ℕ
  kind : Kind
  status : Status
  expiresAt : ℕ
  heard : List UInt8

/-- The status of a process. -/
inductive ProcessStatus where
  | running
  | exited
  | stopped
  deriving DecidableEq

/-- `ProcessEntry`. -/
structure Entry where
  status : ProcessStatus
  tail : JsString
  patternWindow : JsString
  lastOutputAt : ℕ
  watches : List Watch

/-- A process that has just been started. -/
def start : Entry := ⟨.running, [], [], 0, []⟩

/-- `stripNul`. -/
def stripNul (value : JsString) : JsString := value.filter (· ≠ 0)

/-- `triggerWatch`. -/
def triggerWatch (entry : Entry) (now : ℕ) (trigger : Trigger) (watch : Watch) : Watch :=
  if watch.status = .armed then
    { watch with status := .triggered trigger now (stripNul (entry.tail.rtake MAX_WATCH_EXCERPT_CHARS)) }
  else watch

/-- The record of the output. -/
def Watch.hear (chunk : List UInt8) (watch : Watch) : Watch :=
  if watch.status = .armed then { watch with heard := watch.heard ++ chunk } else watch

/-- A watch at an output. -/
def Watch.see (entry : Entry) (now : ℕ) (haystack : JsString) (watch : Watch) : Watch :=
  match watch.kind with
  | .pattern pattern => if pattern.text <:+: haystack then triggerWatch entry now .matched watch else watch
  | _ => watch

/-- `onOutput`. -/
def onOutput (entry : Entry) (now : ℕ) (chunk : List UInt8) : Entry :=
  let text := stripNul (utf16 (fromUtf8Lossy chunk))
  if text = [] then { entry with watches := entry.watches.map (·.hear chunk) }
  else
    let entry := { entry with lastOutputAt := now, tail := (entry.tail ++ text).rtake TAIL_BUFFER_CHARS }
    let haystack := entry.patternWindow ++ text
    { entry with
      watches := entry.watches.map fun watch => (watch.hear chunk).see entry now haystack
      patternWindow := haystack.rtake PATTERN_WINDOW_CHARS }

/-- `finalize`. -/
def finalize (entry : Entry) (now : ℕ) (status : ProcessStatus) : Entry :=
  if entry.status = .running then
    { entry with status := status, watches := entry.watches.map (triggerWatch entry now .exited) }
  else entry

/-- A watch at a sweep. -/
def Watch.sweep (entry : Entry) (now : ℕ) (watch : Watch) : Watch :=
  if watch.status = .armed then
    if watch.expiresAt ≤ now then { watch with status := .expired }
    else
      match watch.kind with
      | .silence silenceSeconds =>
        if entry.status = .running ∧ entry.lastOutputAt + silenceSeconds * 1000 ≤ now then
          triggerWatch entry now .silent watch
        else watch
      | _ => watch
  else watch

/-- `armWatch`. -/
def armWatch (entry : Entry) (now : ℕ) (kind : Kind) (expiresInSeconds : Option ℕ) : Entry :=
  if MAX_WATCHES_PER_PROCESS ≤ entry.watches.countP (·.status = .armed) then entry
  else if MAX_WATCHES_PER_PROCESS_WIRE ≤ entry.watches.length then entry
  else
    let silenceSeconds := match kind with
      | .silence silenceSeconds => silenceSeconds
      | _ => 0
    let seconds := min (max (expiresInSeconds.getD (silenceSeconds + WATCH_EXPIRES_DEFAULT_SECONDS))
      WATCH_EXPIRES_MIN_SECONDS) WATCH_EXPIRES_MAX_SECONDS
    let watch : Watch := ⟨entry.watches.length, kind, .armed, now + seconds * 1000, []⟩
    { entry with
      watches := entry.watches ++ [if entry.status = .running then watch else triggerWatch entry now .exited watch] }

/-- `cancelWatch`. -/
def Watch.cancel (ref : ℕ) (watch : Watch) : Watch :=
  if watch.ref = ref ∧ watch.status = .armed then { watch with status := .canceled } else watch

/-- What happens to a process. -/
inductive Event where
  | output (now : ℕ) (chunk : List UInt8)
  | arm (now : ℕ) (kind : Kind) (expiresInSeconds : Option ℕ)
  | sweep (now : ℕ)
  | cancel (ref : ℕ)
  | close (now : ℕ) (stopRequested : Bool)
  | error (now : ℕ) (note : JsString)

/-- The next state of a process. -/
def step (entry : Entry) : Event → Option Entry
  | .output now chunk => some (onOutput entry now chunk)
  | .arm now kind expiresInSeconds => some (armWatch entry now kind expiresInSeconds)
  | .sweep now => some { entry with watches := entry.watches.map (·.sweep entry now) }
  | .cancel ref => some { entry with watches := entry.watches.map (·.cancel ref) }
  | .close now stopRequested => some (finalize entry now (if stopRequested then .stopped else .exited))
  | .error now note => some (finalize { entry with tail := (entry.tail ++ note).rtake TAIL_BUFFER_CHARS } now .exited)

/-- The output of a run. -/
def output : List Event → List UInt8
  | [] => []
  | .output _ chunk :: events => chunk ++ output events
  | _ :: events => output events

/-- What watches promise of a run, where every step of it meets a condition. -/
structure Promised (cond : Entry → Event → Prop) (events : List Event) : Prop where
  matched : ∀ entry : Entry, (∃ s : Str, output events = asBytes s) → Runs.Meets step cond start events →
    Runs.run step start events = some entry → ∀ watch ∈ entry.watches, ∀ pattern, watch.kind = .pattern pattern →
      (watch.status.isMatched = true ↔ pattern.text <:+: utf16 (fromUtf8Lossy watch.heard))
  once : ∀ (entry entry' : Entry) (i : ℕ) (watch : Watch), Runs.run step entry events = some entry' →
    entry.watches[i]? = some watch → watch.status ≠ .armed → entry'.watches[i]? = some watch
  ended : ∀ entry : Entry, Runs.run step start events = some entry → entry.status ≠ .running →
    ∀ watch ∈ entry.watches, watch.status ≠ .armed

/-- Chunks are whole characters without a NUL, and a pattern is armed where the window neither holds it nor ends in a
beginning of it. -/
def Clear (entry : Entry) : Event → Prop
  | .output _ chunk => ∃ s : Str, chunk = asBytes s ∧ '\x00' ∉ s
  | .arm _ (.pattern pattern) _ => ¬ pattern.text <:+: entry.patternWindow ∧
      ∀ s, s ≠ [] → s <:+ entry.patternWindow → ¬ s <+: pattern.text
  | _ => True

section Windows

variable {A : Type*} {p x t : List A} {n : ℕ}

/-- An occurrence at the start of which a text ends. -/
theorem infix_append_cases (h : p <:+: x ++ t) :
    p <:+: t ∨ (∃ d, d ≠ [] ∧ d <:+ x ∧ (d <+: p ∨ p <+: d) ∧ ∃ b, p ++ b = d ++ t) := by
  obtain ⟨a, b, hsplit⟩ := h
  rw [append_assoc] at hsplit
  rcases append_eq_append_iff.mp hsplit with ⟨d, rfl, hrest⟩ | ⟨d, rfl, hrest⟩
  · by_cases hd : d = []
    · subst hd
      exact Or.inl ⟨[], b, hrest⟩
    · refine Or.inr ⟨d, hd, suffix_append a d, ?_, b, hrest⟩
      exact prefix_or_prefix_of_prefix (prefix_append d t) (hrest ▸ prefix_append p b)
  · exact Or.inl ⟨d, b, by rw [hrest, append_assoc]⟩

/-- What a window of a text shows of an occurrence that ends behind the text. -/
theorem infix_rtake (hx : ¬ p <:+: x) (hlength : p.length ≤ n) (h : p <:+: x ++ t) : p <:+: x.rtake n ++ t := by
  rcases infix_append_cases h with h | ⟨d, -, hsuffix, hcompare, b, hsplit⟩
  · exact h.trans (suffix_append _ t).isInfix
  · rcases hcompare with hbegins | hholds
    · obtain ⟨a, rfl⟩ := hsuffix
      have hd := hbegins.length_le
      have hwindow : (a ++ d).rtake n = a.drop (a.length + d.length - n) ++ d := by
        rw [List.rtake, length_append, drop_append_of_le_length (by omega)]
      rw [hwindow, append_assoc]
      refine (List.IsPrefix.isInfix ?_).trans (suffix_append _ _).isInfix
      exact hsplit ▸ prefix_append p b
    · exact absurd (hholds.isInfix.trans hsuffix.isInfix) hx

end Windows

/-- The window shows the pattern in what is still to come exactly where the output that was heard does. -/
def Sees (window : JsString) (heard : Str) (p : JsString) : Prop :=
  ¬ p <:+: utf16 heard ∧ ∀ t, p <:+: window ++ t ↔ p <:+: utf16 heard ++ t

theorem sees_nil {window p : JsString} (hp : p ≠ []) (hwindow : ¬ p <:+: window)
    (hends : ∀ s, s ≠ [] → s <:+ window → ¬ s <+: p) : Sees window [] p := by
  refine ⟨fun h => hp (infix_nil.mp h), fun t => ⟨fun h => ?_, fun h => h.trans (suffix_append _ t).isInfix⟩⟩
  rcases infix_append_cases h with h | ⟨d, hd, hsuffix, hbegins | hholds, -⟩
  · exact h
  · exact absurd hbegins (hends d hd hsuffix)
  · exact absurd (hholds.isInfix.trans hsuffix.isInfix) hwindow

theorem Sees.append {window : JsString} {heard s : Str} {pattern : Pattern} (h : Sees window heard pattern.text)
    (hunseen : ¬ pattern.text <:+: window ++ utf16 s) :
    Sees ((window ++ utf16 s).rtake PATTERN_WINDOW_CHARS) (heard ++ s) pattern.text := by
  rw [Sees, utf16_append]
  refine ⟨fun hseen => hunseen ((h.2 _).mpr hseen), fun t => ?_⟩
  rw [append_assoc, ← h.2, ← append_assoc]
  constructor
  · intro hseen
    refine hseen.trans (List.IsSuffix.isInfix ?_)
    obtain ⟨front, hfront⟩ : (window ++ utf16 s).rtake PATTERN_WINDOW_CHARS <:+ window ++ utf16 s := drop_suffix _ _
    exact ⟨front, by rw [← append_assoc, hfront]⟩
  · exact infix_rtake hunseen (pattern.length_le.trans (by decide))

/-- What a watch has heard, and what its status says of it. -/
def Watch.Follows (window : JsString) (watch : Watch) : Prop :=
  ∀ pattern, watch.kind = .pattern pattern → ∃ heard : Str, watch.heard = asBytes heard ∧
    (watch.status = .armed → Sees window heard pattern.text) ∧
    (watch.status.isMatched = true ↔ pattern.text <:+: utf16 heard)

section Steps

variable {entry entry' : Entry} {now : ℕ} {window : JsString} {watch : Watch} {event : Event}

theorem triggerWatch_of_ne (trigger : Trigger) (h : watch.status ≠ .armed) : triggerWatch entry now trigger watch = watch :=
  if_neg h

theorem triggerWatch_armed (trigger : Trigger) : (triggerWatch entry now trigger watch).status ≠ .armed := by
  rw [triggerWatch]
  split_ifs with h
  · nofun
  · exact h

theorem hear_of_ne {chunk : List UInt8} (h : watch.status ≠ .armed) : watch.hear chunk = watch := if_neg h

theorem see_of_ne {haystack : JsString} (h : watch.status ≠ .armed) : watch.see entry now haystack = watch := by
  rw [Watch.see]
  split
  · split_ifs
    · exact triggerWatch_of_ne _ h
    · rfl
  · rfl

/-- What a step without output does to a watch. -/
def Watch.Settles (watch watch' : Watch) : Prop :=
  watch'.kind = watch.kind ∧ watch'.heard = watch.heard ∧
    (watch' = watch ∨ watch.status = .armed ∧ watch'.status ≠ .armed ∧ watch'.status.isMatched = false)

theorem settles_refl (watch : Watch) : watch.Settles watch := ⟨rfl, rfl, Or.inl rfl⟩

theorem settles_triggerWatch (trigger : Trigger) (htrigger : trigger ≠ .matched) (entry : Entry) (now : ℕ) (watch : Watch) :
    watch.Settles (triggerWatch entry now trigger watch) := by
  rw [triggerWatch]
  split_ifs with harmed
  · refine ⟨rfl, rfl, Or.inr ⟨harmed, nofun, ?_⟩⟩
    cases trigger with
    | matched => exact absurd rfl htrigger
    | exited | silent => rfl
  · exact settles_refl watch

theorem settles_sweep (entry : Entry) (now : ℕ) (watch : Watch) : watch.Settles (watch.sweep entry now) := by
  rw [Watch.sweep]
  split_ifs with harmed
  · exact ⟨rfl, rfl, Or.inr ⟨harmed, nofun, rfl⟩⟩
  · split
    · split_ifs
      · exact settles_triggerWatch .silent nofun entry now watch
      · exact settles_refl watch
    · exact settles_refl watch
  · exact settles_refl watch

theorem settles_cancel (ref : ℕ) (watch : Watch) : watch.Settles (watch.cancel ref) := by
  rw [Watch.cancel]
  split_ifs with hcancels
  · exact ⟨rfl, rfl, Or.inr ⟨hcancels.2, nofun, rfl⟩⟩
  · exact settles_refl watch

theorem Watch.Follows.settles {watch' : Watch} (h : watch.Follows window) (hsettles : watch.Settles watch') :
    watch'.Follows window := by
  obtain ⟨hkind, hheard, rfl | ⟨harmed, hnot, hunmatched⟩⟩ := hsettles
  · exact h
  · intro pattern hpat
    obtain ⟨heard, hbytes, hsees, -⟩ := h pattern (hkind.symm.trans hpat)
    refine ⟨heard, hheard.trans hbytes, fun h => absurd h hnot, ?_⟩
    exact iff_of_false (by simp [hunmatched]) (hsees harmed).1

/-- What a step does to the watches and to the process: only watches that are armed change, a process that has ended gets
no armed ones, and none is left where it ends. -/
structure Steps (entry entry' : Entry) (change : Watch → Watch) (added : List Watch) : Prop where
  watches : entry'.watches = entry.watches.map change ++ added
  fixes : ∀ watch, watch.status ≠ .armed → change watch = watch
  corpse : entry.status ≠ .running → ∀ watch ∈ added, watch.status ≠ .armed
  ends : entry'.status = entry.status ∨ added = [] ∧ ∀ watch, (change watch).status ≠ .armed

theorem steps_map {change : Watch → Watch} (hwatches : entry'.watches = entry.watches.map change)
    (hfixes : ∀ watch, watch.status ≠ .armed → change watch = watch)
    (hends : entry'.status = entry.status ∨ ∀ watch, (change watch).status ≠ .armed) : Steps entry entry' change [] :=
  ⟨hwatches.trans (append_nil _).symm, hfixes, nofun, hends.imp_right fun h => ⟨rfl, h⟩⟩

theorem steps_finalize (entry : Entry) (now : ℕ) (status : ProcessStatus) :
    ∃ change, Steps entry (finalize entry now status) change [] := by
  rw [finalize]
  split_ifs
  · exact ⟨triggerWatch entry now .exited,
      steps_map rfl (fun _ => triggerWatch_of_ne _) (Or.inr fun _ => triggerWatch_armed _)⟩
  · exact ⟨id, steps_map (map_id _).symm (fun _ _ => rfl) (Or.inl rfl)⟩

/-- Every event is one of the steps of a watch. -/
theorem steps_of_step (hstep : step entry event = some entry') : ∃ change added, Steps entry entry' change added := by
  cases event <;> cases hstep
  case output now chunk =>
    simp only [onOutput]
    split_ifs
    · exact ⟨Watch.hear chunk, [], steps_map rfl (fun _ => hear_of_ne) (Or.inl rfl)⟩
    · refine ⟨_, [], steps_map rfl (fun watch h => ?_) (Or.inl rfl)⟩
      rw [hear_of_ne h, see_of_ne h]
  case arm now kind expiresInSeconds =>
    have hsame : ∃ change added, Steps entry entry change added :=
      ⟨id, [], steps_map (map_id _).symm (fun _ _ => rfl) (Or.inl rfl)⟩
    unfold armWatch
    split_ifs with hcap hwire hruns
    · exact hsame
    · exact hsame
    · exact ⟨id, _, by rw [map_id], fun _ _ => rfl, fun h => absurd hruns h, Or.inl rfl⟩
    · refine ⟨id, _, by rw [map_id], fun _ _ => rfl, fun _ watch hwatch => ?_, Or.inl rfl⟩
      rw [mem_singleton.mp hwatch]
      exact triggerWatch_armed _
  case sweep now => exact ⟨(Watch.sweep entry now), [], steps_map rfl (fun _ h => if_neg h) (Or.inl rfl)⟩
  case cancel ref => exact ⟨Watch.cancel ref, [], steps_map rfl (fun _ h => if_neg fun hboth => h hboth.2) (Or.inl rfl)⟩
  case close now stopRequested => exact (steps_finalize entry now _).imp fun _ h => ⟨[], h⟩
  case error now note =>
    exact (steps_finalize _ now .exited).imp fun _ h => ⟨[], h.watches, h.fixes, h.corpse, h.ends⟩

/-- An entry that ended keeps no watch armed. -/
theorem Steps.ended {change : Watch → Watch} {added : List Watch} (h : Steps entry entry' change added)
    (hended : entry.status ≠ .running → ∀ watch ∈ entry.watches, watch.status ≠ .armed)
    (hstatus : entry'.status ≠ .running) : ∀ watch ∈ entry'.watches, watch.status ≠ .armed := by
  intro watch hwatch
  rw [h.watches, mem_append, mem_map] at hwatch
  rcases h.ends with hsame | ⟨rfl, hends⟩
  · rcases hwatch with ⟨old, hold, rfl⟩ | hadded
    · have hfixed := hended (hsame ▸ hstatus) old hold
      rwa [h.fixes old hfixed]
    · exact h.corpse (hsame ▸ hstatus) watch hadded
  · rcases hwatch with ⟨old, -, rfl⟩ | hadded
    · exact hends old
    · cases hadded

/-- A watch that ended is never changed. -/
theorem Steps.once {change : Watch → Watch} {added : List Watch} (h : Steps entry entry' change added) {i : ℕ}
    (hwatch : entry.watches[i]? = some watch) (hstatus : watch.status ≠ .armed) : entry'.watches[i]? = some watch := by
  have hmap : (entry.watches.map change)[i]? = some watch := by
    rw [List.getElem?_map, hwatch, Option.map_some, h.fixes watch hstatus]
  rw [h.watches, List.getElem?_append_left (List.getElem?_eq_some_iff.mp hmap).1, hmap]

end Steps

section Follows

variable {entry entry' : Entry} {now : ℕ} {window : JsString} {watch : Watch} {event : Event} {s : Str}

theorem stripNul_utf16 (h : '\x00' ∉ s) : stripNul (utf16 s) = utf16 s := by
  refine filter_eq_self.mpr fun u hu => decide_eq_true fun hnul => ?_
  subst hnul
  obtain ⟨c, hc, hunit⟩ := mem_flatMap.mp hu
  have hzero : c.toNat = ('\x00' : Char).toNat := (Utf16.mem_utf16Char_iff (Or.inl (by decide))).mp hunit
  exact h (Char.toNat_inj.mp hzero ▸ hc)

theorem Watch.Follows.output (h : watch.Follows window) :
    ((watch.hear (asBytes s)).see entry now (window ++ utf16 s)).Follows
      ((window ++ utf16 s).rtake PATTERN_WINDOW_CHARS) := by
  by_cases harmed : watch.status = .armed
  · have hhear : watch.hear (asBytes s) = { watch with heard := watch.heard ++ asBytes s } := if_pos harmed
    rw [hhear, Watch.see]
    intro pattern hpat
    have hkind : watch.kind = .pattern pattern := by
      revert hpat
      split
      · rw [triggerWatch]
        split_ifs <;> exact id
      · exact id
    obtain ⟨heard, hbytes, hsees, -⟩ := h pattern hkind
    have hall : watch.heard ++ asBytes s = asBytes (heard ++ s) := by rw [hbytes, asBytes, asBytes, asBytes, CodeUnits.encode_append]
    refine ⟨heard ++ s, ?_⟩
    simp only [hkind]
    split_ifs with hseen
    · simp only [triggerWatch, if_pos harmed]
      refine ⟨hall, Status.noConfusion, iff_of_true rfl ?_⟩
      rw [utf16_append, ← (hsees harmed).2]
      exact hseen
    · have hgoes := (hsees harmed).append hseen
      exact ⟨hall, fun _ => hgoes, iff_of_false (by simp [harmed, Status.isMatched]) hgoes.1⟩
  · rw [hear_of_ne harmed, see_of_ne harmed]
    exact fun pattern hpat => (h pattern hpat).imp fun _ h => ⟨h.1, fun h => absurd h harmed, h.2.2⟩

/-- Every event outside the slips keeps the promise of each watch. -/
theorem follows_step (h : ∀ watch ∈ entry.watches, watch.Follows entry.patternWindow) (hclear : Clear entry event)
    (hstep : step entry event = some entry') : ∀ watch ∈ entry'.watches, watch.Follows entry'.patternWindow := by
  have hsettles {entry' : Entry} {change : Watch → Watch} (hwindow : entry'.patternWindow = entry.patternWindow)
      (hwatches : entry'.watches = entry.watches.map change) (hchange : ∀ watch : Watch, watch.Settles (change watch)) :
      ∀ watch ∈ entry'.watches, watch.Follows entry'.patternWindow := by
    rw [hwatches, hwindow]
    exact forall_mem_map.mpr fun watch hwatch => (h watch hwatch).settles (hchange watch)
  cases event <;> cases hstep
  case output now chunk =>
    obtain ⟨s, rfl, hnul⟩ := hclear
    simp only [onOutput, fromUtf8Lossy_asBytes, stripNul_utf16 hnul]
    split_ifs with hempty
    · obtain rfl : s = [] := Utf16.utf16_injective hempty
      refine hsettles rfl rfl fun watch => ?_
      rw [Watch.hear]
      split_ifs
      · exact ⟨rfl, append_nil _, Or.inl (by simp [asBytes])⟩
      · exact settles_refl watch
    · intro watch hwatch
      obtain ⟨old, hold, rfl⟩ := mem_map.mp hwatch
      dsimp only
      exact (h old hold).output
  case arm now kind expiresInSeconds =>
    unfold armWatch
    have hnew (ref expiry : ℕ) : Watch.Follows entry.patternWindow ⟨ref, kind, .armed, expiry, []⟩ := by
      rintro pattern rfl
      refine ⟨[], rfl, fun _ => sees_nil pattern.ne_nil hclear.1 hclear.2, ?_⟩
      exact iff_of_false Bool.false_ne_true fun h => pattern.ne_nil (infix_nil.mp h)
    split_ifs
    · exact h
    · exact h
    · exact forall_mem_append.mpr ⟨h, forall_mem_singleton.mpr (hnew _ _)⟩
    · exact forall_mem_append.mpr
        ⟨h, forall_mem_singleton.mpr ((hnew _ _).settles (settles_triggerWatch .exited Trigger.noConfusion entry now _))⟩
  case sweep now => exact hsettles rfl rfl (settles_sweep entry now)
  case cancel ref => exact hsettles rfl rfl (settles_cancel ref)
  case close now stopRequested =>
    rw [finalize]
    split_ifs
    all_goals first | exact h | exact hsettles rfl rfl (settles_triggerWatch .exited Trigger.noConfusion entry now)
  case error now note =>
    rw [finalize]
    split_ifs
    · exact hsettles rfl rfl (settles_triggerWatch .exited Trigger.noConfusion _ now)
    · exact h

/-- Watches are as promised where every chunk is whole and every pattern is armed on a clear window. -/
theorem promised_clear (events : List Event) : Promised Clear events where
  matched := by
    intro entry _ hmeets hrun watch hwatch pattern hpat
    have hall := Runs.run_invariant_of_meets step
      (I := fun entry => ∀ watch ∈ entry.watches, watch.Follows entry.patternWindow)
      (fun _ _ _ => follows_step) (forall_mem_nil _) hmeets hrun
    obtain ⟨heard, hbytes, -, hmatched⟩ := hall watch hwatch pattern hpat
    rw [hbytes, fromUtf8Lossy_asBytes]
    exact hmatched
  once := by
    intro entry entry' i watch hrun hwatch hstatus
    refine Runs.run_invariant step (I := fun entry => entry.watches[i]? = some watch) ?_ hwatch hrun
    intro u event v hu hstep
    obtain ⟨change, added, hsteps⟩ := steps_of_step hstep
    exact hsteps.once hu hstatus
  ended := by
    intro entry hrun
    refine Runs.run_invariant step
      (I := fun entry => entry.status ≠ .running → ∀ watch ∈ entry.watches, watch.status ≠ .armed) ?_
      (fun _ => forall_mem_nil _) hrun
    intro u event v hu hstep
    obtain ⟨change, added, hsteps⟩ := steps_of_step hstep
    exact hsteps.ended hu

end Follows

/-- A watch is armed, its pattern comes in two chunks, and the process ends. -/
def splitOutput : List Event :=
  [.output 0 (asBytes "boot".toList), .arm 0 (.pattern ⟨utf16 "ready".toList, by decide, by decide⟩) none,
    .output 1 (asBytes "is re".toList), .sweep 2, .output 3 (asBytes "ady".toList), .close 4 false]

/-- A pattern that two chunks share is seen. -/
theorem promised_clear_split : ∃ entry, Runs.run step start splitOutput = some entry ∧
    (∃ watch ∈ entry.watches, watch.status.isMatched = true) ∧ ∀ watch ∈ entry.watches, ∀ pattern,
      watch.kind = .pattern pattern →
        (watch.status.isMatched = true ↔ pattern.text <:+: utf16 (fromUtf8Lossy watch.heard)) := by
  have hmeets : Runs.Meets step Clear start splitOutput := by
    refine Runs.meets_cons_of_eq step rfl ⟨"boot".toList, rfl, by decide⟩ ?_
    refine Runs.meets_cons_of_eq step rfl ⟨by decide +kernel, fun s hs hsuffix hbegins => ?_⟩ ?_
    · -- no end of the window begins the pattern
      have hends : ∀ s ∈ (utf16 "boot".toList).tails, s = [] ∨ ¬ s <+: utf16 "ready".toList := by decide +kernel
      exact (hends s ((mem_tails s _).mpr hsuffix)).elim hs fun hnot => hnot hbegins
    · refine Runs.meets_cons_of_eq step rfl ⟨"is re".toList, rfl, by decide⟩ ?_
      refine Runs.meets_cons_of_eq step rfl trivial ?_
      refine Runs.meets_cons_of_eq step rfl ⟨"ady".toList, rfl, by decide⟩ ?_
      exact Runs.meets_cons_of_eq step rfl trivial trivial
  obtain ⟨entry, hrun⟩ := Option.isSome_iff_exists.mp (show (Runs.run step start splitOutput).isSome by rfl)
  have hend : (Runs.run step start splitOutput).all (fun entry => entry.watches.any (·.status.isMatched)) = true := by
    decide +kernel
  rw [hrun, Option.all_some, any_eq_true] at hend
  exact ⟨entry, hrun, hend,
    (promised_clear splitOutput).matched entry ⟨"bootis ready".toList, by decide +kernel⟩ hmeets hrun⟩

/-- The pattern is in the output before the watch is armed, and then something else comes. -/
def early : List Event :=
  [.output 0 (asBytes "ready".toList), .arm 0 (.pattern ⟨utf16 "ready".toList, by decide, by decide⟩) none,
    .output 0 (asBytes "x".toList)]

/-- The watch is triggered by what it has not heard. -/
theorem early_matched : ¬ ∀ events, Promised (fun _ _ => True) events := by
  intro h
  obtain ⟨entry, hrun⟩ := Option.isSome_iff_exists.mp (show (Runs.run step start early).isSome by rfl)
  have hend : (Runs.run step start early).all (fun entry => entry.watches.any fun watch =>
      watch.status.isMatched && watch.heard = asBytes "x".toList && match watch.kind with
        | .pattern pattern => pattern.text = utf16 "ready".toList
        | _ => false) = true := by
    decide +kernel
  rw [hrun, Option.all_some, any_eq_true] at hend
  obtain ⟨watch, hwatch, hall⟩ := hend
  obtain ⟨hboth, hkind⟩ := and_eq_true_iff.mp hall
  obtain ⟨hmatched, hheard⟩ := and_eq_true_iff.mp hboth
  split at hkind
  · rename_i pattern hpat
    have hseen := ((h early).matched entry ⟨"readyx".toList, by decide +kernel⟩ (Runs.meets_true step start early) hrun watch
      hwatch pattern hpat).mp hmatched
    rw [of_decide_eq_true hheard, of_decide_eq_true hkind] at hseen
    revert hseen
    decide +kernel
  · cases hkind

end Onecli.Supervisor.Watches
