import Onecli.Memories.Redaction

/-!
# Edits of the fields of a memory

Two edits that set different fields, and a save that leaves the title and the description out. An edit merges what it
sets with the head that it reads, and writes the whole state in a later transaction.
-/

namespace Onecli.Memories

open Function (update update_of_ne update_self)
open Option Bool

/-- A field of a memory. -/
inductive Field where
  | title
  | description
  | content
  deriving DecidableEq

/-- The value of a field. -/
def MemoryState.value (state : MemoryState) : Field → Option String
  | .title => state.title.map (·.value)
  | .description => state.description.map (·.value)
  | .content => some state.content.value

/-- An edit, of `updateMemory` or of `upsertMemoryByKey`. -/
inductive Edit where
  | update (patch : MemoryPatch)
  | upsert (input : MemoryInput)

/-- What an edit sets a field to. -/
def Edit.sets : Edit → Field → Option (Option String)
  | .update patch, .title => patch.title
  | .update patch, .description => patch.description
  | .update patch, .content => patch.content.map some
  | .upsert input, .title => input.title.map some
  | .upsert input, .description => input.description.map some
  | .upsert input, .content => some (some input.content)

/-- The request of an edit. -/
def Edit.request (memoryId held : ℕ) : Edit → Request
  | .update patch => .update memoryId patch
  | .upsert input => .upsert input held false

/-- The merge of an edit. -/
def Edit.merge (request : ℕ) (existing : MemoryState) : Edit → MemoryState
  | .update patch => patch.merge request existing
  | .upsert input => input.merge request existing

/-- A head has what an edit sets. -/
def Edit.Holds (edit : Edit) (state : MemoryState) : Prop := ∀ f v, edit.sets f = some v → state.value f = v

/-- The next step of a request returns a memory to its caller. -/
def World.returns (w : World) (i : ℕ) : Bool :=
  match w.requests i with
  | .update memoryId patch => (w.find memoryId).any fun m => isNoOp m.state (patch.merge i m.state)
  | .upsert input _ _ => w.memory.any fun m => isNoOp m.state (input.merge i m.state)
  | .insert _ _ _ => w.memory.isNone
  | .apply memoryId _ _ _ => (w.find memoryId).isSome
  | _ => false

/-- The service, with the head that each request found at its last step, and the requests that have returned a memory. -/
structure Observed where
  world : World
  found : ℕ → Option MemoryState
  returned : List ℕ

/-- Nothing is observed yet. -/
def Observed.start (w : World) : Observed := ⟨w, fun _ => none, []⟩

/-- An observed step. -/
def observe (memoryFileFitsFrame : MemoryState → Bool) (o : Observed) (e : Event) : Option Observed :=
  (step memoryFileFitsFrame o.world e).map fun world =>
    match e with
    | .advance i =>
      { world := world
        found := update o.found i (o.world.memory.map (·.state))
        returned := if o.world.returns i then i :: o.returned else o.returned }
    | _ => { o with world := world }

/-- What edits promise, where every step of a run meets a condition. -/
structure EditsKept (memoryFileFitsFrame : MemoryState → Bool) (cond : ℕ → Edit → Observed → Event → Prop) : Prop where
  both : ∀ (w : World) (i j memoryId held held' : ℕ) (first second : Edit) (es : List Event) (o : Observed),
    w.memory.isSome → i ≠ j → w.requests i = first.request memoryId held → w.requests j = second.request memoryId held' →
    (∀ f, first.sets f = none ∨ second.sets f = none) →
    Runs.Meets (observe memoryFileFitsFrame)
      (fun o e => (e = .advance i ∨ e = .advance j) ∧ cond i first o e ∧ cond j second o e) (.start w) es →
    Runs.run (observe memoryFileFitsFrame) (.start w) es = some o → i ∈ o.returned → j ∈ o.returned →
      ∃ m ∈ o.world.memory, first.Holds m.state ∧ second.Holds m.state
  curated : ∀ (w : World) (i held : ℕ) (input : MemoryInput) (es : List Event),
    w.requests i = .upsert input held false → i < w.submitted → input.title = none → input.description = none →
    Runs.Meets (observe memoryFileFitsFrame) (cond i (.upsert input)) (.start w) es →
      Runs.Each (observe memoryFileFitsFrame) (fun o e o' => e = .advance i → ∀ m ∈ o.world.memory,
        ∀ m' ∈ o'.world.memory, ∀ f, f ≠ .content → m'.state.value f = m.state.value f) (.start w) es

/-- At the write of an edit, the fields that it leaves out are in the head as its read found them. -/
def Fresh (i : ℕ) (edit : Edit) (o : Observed) (e : Event) : Prop :=
  e = .advance i → ∀ memoryId state op restoredFromSeq, o.world.requests i = .apply memoryId state op restoredFromSeq →
    ∀ m ∈ o.world.find memoryId, ∀ s ∈ o.found i, ∀ f, edit.sets f = none → m.state.value f = s.value f

/-- How far an edit has come, with the head that it found. -/
def Edit.Stands (edit : Edit) (found : Option MemoryState) : Request → Prop
  | .update _ patch => edit = .update patch
  | .upsert input _ _ => edit = .upsert input
  | .create input _ upserts => edit = .upsert input ∧ upserts = true
  | .insert input _ upserts => edit = .upsert input ∧ upserts = true
  | .apply _ state _ _ => ∃ s ∈ found, ∀ f, state.value f = (edit.sets f).getD (s.value f)
  | .done => True
  | _ => False

section Edits

variable {edit : Edit} {w : World} {i : ℕ} {s : MemoryState} {m : Memory} {found : Option MemoryState}

theorem value_merge (edit : Edit) (i : ℕ) (s : MemoryState) (f : Field) :
    (edit.merge i s).value f = (edit.sets f).getD (s.value f) := by
  rcases edit with ⟨title, description, content⟩ | ⟨content, title, description⟩ <;>
    simp only [Edit.merge, MemoryPatch.merge, MemoryInput.merge]
  · cases f with
    | title => cases title <;> simp [MemoryState.value, Edit.sets, Function.comp_def]
    | description => cases description <;> simp [MemoryState.value, Edit.sets, Function.comp_def]
    | content => cases content <;> simp [MemoryState.value, Edit.sets]
  · cases f with
    | title => cases title <;> simp [MemoryState.value, Edit.sets]
    | description => cases description <;> simp [MemoryState.value, Edit.sets]
    | content => simp [MemoryState.value, Edit.sets]

theorem holds_of_value {state : MemoryState} (h : ∀ f, state.value f = (edit.sets f).getD (s.value f)) :
    edit.Holds state := by
  intro f v hsets
  rw [h f, hsets, getD_some]

/-- A save that changes nothing is in the head already. -/
theorem holds_of_isNoOp (edit : Edit) (h : isNoOp s (edit.merge i s) = true) : edit.Holds s := by
  simp only [isNoOp, decide_eq_true_eq] at h
  refine holds_of_value (s := s) fun f => ?_
  rw [← value_merge edit i s f]
  cases f with
  | title => exact h.1
  | description => exact h.2.1
  | content => exact congrArg some h.2.2

variable {memoryFileFitsFrame : MemoryState → Bool}

theorem stands_save (edit : Edit) (memoryId : ℕ) :
    edit.Stands (some s) (World.save memoryFileFitsFrame memoryId s (edit.merge i s)) := by
  rw [World.save]
  split_ifs
  · trivial
  · exact ⟨s, rfl, value_merge edit i s⟩
  · trivial

theorem stands_advance (h : edit.Stands found (w.requests i)) :
    edit.Stands (w.memory.map (·.state)) ((w.advance memoryFileFitsFrame i).requests i) := by
  have hself (w : World) (request : Request) : (w.goOn i request).requests i = request := update_self i _ _
  cases hreq : w.requests i <;> rw [hreq] at h <;> simp only [World.advance, hreq, hself]
  case update memoryId patch =>
    cases h
    cases hfind : w.find memoryId with
    | none =>
      rw [World.read, hfind]
      trivial
    | some m =>
      rw [World.read, hfind, (World.mem_of_find hfind).1]
      exact stands_save (.update patch) memoryId
  case upsert input held settled =>
    cases h
    cases hmemory : w.memory with
    | none =>
      rw [World.read, hmemory]
      cases settled with
      | true => trivial
      | false => exact ⟨rfl, rfl⟩
    | some m =>
      rw [World.read, hmemory]
      exact stands_save (.upsert input) m.id
  case create =>
    rw [World.read]
    split_ifs
    · trivial
    · exact h
    · trivial
  case insert =>
    obtain ⟨rfl, rfl⟩ := h
    by_cases hsome : w.memory.isSome = true
    · rw [if_pos hsome, hself]
      rfl
    · rw [if_neg hsome, hself]
      trivial
  case restore | redact | found | scrub | delete => exact h.elim
  all_goals trivial

/-- A step leaves the fields that an edit does not set, and what it returns is in the head. -/
def Edit.Keeps (edit : Edit) (w w' : World) (i : ℕ) (m : Memory) : Prop :=
  ∃ m', w'.memory = some m' ∧ (∀ f, edit.sets f = none → m'.state.value f = m.state.value f) ∧
    (edit.Holds m'.state ∨ w.returns i = false ∧ m'.state = m.state)

/-- A request keeps the fields that its edit does not set. -/
theorem advance_keeps (memoryFileFitsFrame : MemoryState → Bool) (h : edit.Stands found (w.requests i))
    (hmemory : w.memory = some m)
    (hfresh : ∀ memoryId state op origin, w.requests i = .apply memoryId state op origin →
      ∀ m ∈ w.find memoryId, ∀ s ∈ found, ∀ f, edit.sets f = none → m.state.value f = s.value f) :
    edit.Keeps w (w.advance memoryFileFitsFrame i) i m := by
  have hquiet (hsame : (w.advance memoryFileFitsFrame i).memory = w.memory)
      (hret : w.returns i = true → edit.Holds m.state) : edit.Keeps w (w.advance memoryFileFitsFrame i) i m := by
    refine ⟨m, hsame.trans hmemory, fun _ _ => rfl, ?_⟩
    cases hreturned : w.returns i with
    | true => exact Or.inl (hret hreturned)
    | false => exact Or.inr ⟨rfl, rfl⟩
  cases hreq : w.requests i <;> rw [hreq] at h
  case update memoryId patch =>
    cases h
    refine hquiet (by simp only [World.advance, hreq]; rfl) fun hret => ?_
    simp only [World.returns, hreq, World.find, hmemory, any_filter, any_some] at hret
    exact holds_of_isNoOp (.update patch) (and_eq_true_iff.mp hret).2
  case upsert input held settled =>
    cases h
    refine hquiet (by simp only [World.advance, hreq]; rfl) fun hret => ?_
    simp only [World.returns, hreq, hmemory, any_some] at hret
    exact holds_of_isNoOp (.upsert input) hret
  case insert input held upserts =>
    refine hquiet ?_ fun hret => ?_
    · simp only [World.advance, hreq, hmemory, isSome_some, if_true]
      exact hmemory
    · simp [World.returns, hreq, hmemory] at hret
  case apply memoryId state op origin =>
    obtain ⟨s, hs, hvalue⟩ := h
    cases hfind : w.find memoryId with
    | none =>
      refine hquiet ?_ fun hret => ?_
      · simp only [World.advance, hreq, World.applyState, hfind]
        rfl
      · simp [World.returns, hreq, hfind] at hret
    | some m' =>
      obtain rfl : m' = m := some.inj ((World.mem_of_find hfind).1.symm.trans hmemory)
      refine ⟨_, by simp only [World.advance, hreq, World.applyState, hfind]; rfl, fun f hf => ?_,
        Or.inl (holds_of_value hvalue)⟩
      exact (hvalue f).trans (by rw [hf, getD_none, hfresh _ _ _ _ hreq m' hfind s hs f hf])
  case create | done =>
    refine hquiet (by simp only [World.advance, hreq]; rfl) fun hret => ?_
    simp [World.returns, hreq] at hret
  all_goals exact h.elim

end Edits

section Runs

variable {memoryFileFitsFrame : MemoryState → Bool} {o o' : Observed} {e : Event} {i j : ℕ} {edit first second : Edit}

/-- An edit stands on the state that its request found. -/
theorem observe_stands (h : edit.Stands (o.found i) (o.world.requests i))
    (hsubmit : ∀ call, e = .submit call → i ≠ o.world.submitted) (hstep : observe memoryFileFitsFrame o e = some o') :
    edit.Stands (o'.found i) (o'.world.requests i) ∧ o.world.submitted ≤ o'.world.submitted := by
  obtain ⟨world, hworld, rfl⟩ := map_eq_some_iff.mp hstep
  cases e with
  | submit call =>
    obtain ⟨-, hworld⟩ := ite_none_right_eq_some.mp hworld
    cases hworld
    refine ⟨?_, Nat.le_succ _⟩
    change edit.Stands (o.found i) (update o.world.requests o.world.submitted call.request i)
    rwa [update_of_ne (hsubmit call rfl)]
  | advance k =>
    cases hworld
    refine ⟨?_, Traced.advance_submitted.ge⟩
    dsimp only
    by_cases hk : i = k
    · subst hk
      rw [update_self]
      exact stands_advance h
    · rwa [update_of_ne hk, Traced.advance_requests_of_ne hk]
  | fail k =>
    cases hworld
    refine ⟨?_, Nat.le_refl _⟩
    change edit.Stands (o.found i) (update o.world.requests k .done i)
    by_cases hk : i = k
    · rw [hk, update_self]
      trivial
    · rwa [update_of_ne hk]

/-- How far two edits have come: what has returned is in the head. -/
structure Both (i j : ℕ) (first second : Edit) (o : Observed) : Prop where
  own : first.Stands (o.found i) (o.world.requests i)
  other : second.Stands (o.found j) (o.world.requests j)
  held : ∃ m, o.world.memory = some m ∧ (i ∈ o.returned → first.Holds m.state) ∧ (j ∈ o.returned → second.Holds m.state)

/-- The two edits may be swapped. -/
theorem Both.swap (h : Both i j first second o) : Both j i second first o :=
  ⟨h.other, h.own, h.held.imp fun _ h => ⟨h.1, h.2.2, h.2.1⟩⟩

/-- A fresh write keeps both edits. -/
theorem Both.step (h : Both i j first second o) (hij : i ≠ j) (hfields : ∀ f, first.sets f = none ∨ second.sets f = none)
    (hfresh : Fresh i first o (.advance i)) (hstep : observe memoryFileFitsFrame o (.advance i) = some o') :
    Both i j first second o' := by
  have hadvance (k : ℕ) (call : Call) : Event.advance i = .submit call → k ≠ o.world.submitted := nofun
  refine ⟨(observe_stands h.own (hadvance i) hstep).1, (observe_stands h.other (hadvance j) hstep).1, ?_⟩
  obtain ⟨world, hworld, rfl⟩ := map_eq_some_iff.mp hstep
  cases hworld
  obtain ⟨m, hmemory, hfirst, hsecond⟩ := h.held
  obtain ⟨m', hmemory', hleaves, hret⟩ := advance_keeps memoryFileFitsFrame h.own hmemory (hfresh rfl)
  refine ⟨m', hmemory', fun hi => ?_, fun hj f v hsets => ?_⟩
  · rcases hret with hholds | ⟨hnot, hsame⟩
    · exact hholds
    · rw [hsame]
      exact hfirst (by simpa [hnot] using hi)
  · have hother : j ∈ o.returned := by
      dsimp only at hj
      split at hj
      · exact List.mem_of_ne_of_mem hij.symm hj
      · exact hj
    have hnone : first.sets f = none := (hfields f).resolve_right (by simp [hsets])
    rw [hleaves f hnone]
    exact hsecond hother f v hsets

/-- Where every write of an edit finds the fields that the edit leaves out as its read found them, no edit is lost. -/
theorem editsKept_fresh (memoryFileFitsFrame : MemoryState → Bool) : EditsKept memoryFileFitsFrame Fresh where
  both := by
    intro w i j memoryId held held' first second es o hmemory hij hfirst hsecond hfields hmeets hrun hi hj
    have hstands (edit : Edit) (held : ℕ) : edit.Stands none (edit.request memoryId held) := by cases edit <;> rfl
    obtain ⟨m, hm⟩ := isSome_iff_exists.mp hmemory
    have hstart : Both i j first second (.start w) := by
      refine ⟨?_, ?_, m, hm, nofun, nofun⟩
      · exact hfirst.symm ▸ hstands first held
      · exact hsecond.symm ▸ hstands second held'
    have hend : Both i j first second o := by
      refine Runs.run_invariant_of_meets (observe memoryFileFitsFrame) ?_ hstart hmeets hrun
      rintro o e o' h ⟨rfl | rfl, hfresh, hfresh'⟩ hstep
      · exact h.step hij hfields hfresh hstep
      · exact (h.swap.step hij.symm (fun f => (hfields f).symm) hfresh' hstep).swap
    obtain ⟨m, hm, hholds, hholds'⟩ := hend.held
    exact ⟨m, hm, hholds hi, hholds' hj⟩
  curated := by
    intro w i held input es hreq hi htitle hdescription hmeets
    refine Runs.each_of_meets (observe memoryFileFitsFrame)
      (I := fun o => (Edit.upsert input).Stands (o.found i) (o.world.requests i) ∧ i < o.world.submitted)
      (fun o e o' h hfresh hstep => ⟨?_, ?_⟩) ⟨hreq.symm ▸ rfl, hi⟩ hmeets
    · obtain ⟨hstands, hsubmitted⟩ := observe_stands h.1 (fun _ _ => Nat.ne_of_lt h.2) hstep
      exact ⟨hstands, Nat.lt_of_lt_of_le h.2 hsubmitted⟩
    · rintro rfl m hm m' hm' f hf
      obtain ⟨world, hworld, rfl⟩ := map_eq_some_iff.mp hstep
      cases hworld
      obtain ⟨m₁, hmemory, hleaves, -⟩ := advance_keeps memoryFileFitsFrame h.1 hm (hfresh rfl)
      cases hmemory.symm.trans hm'
      refine hleaves f ?_
      cases f with
      | title => simp [Edit.sets, htitle]
      | description => simp [Edit.sets, hdescription]
      | content => exact absurd rfl hf

end Runs

/-- A memory that request 0 has created with no title, and two calls that are about to read it: a title is set, and the
content is saved again. -/
def twoEdits : World where
  memory := some ⟨0, ⟨none, none, ⟨"a", some 0⟩⟩, 1, [⟨0, 1, .save, none, ⟨none, none, ⟨"a", some 0⟩⟩, false⟩]⟩
  memoriesCreated := 1
  revisionsCreated := 1
  submitted := 3
  requests := fun i =>
    if i = 1 then .update 0 ⟨some (some "t"), none, none⟩ else if i = 2 then .upsert ⟨"b", none, none⟩ 1 false else .done
  redacted := []

/-- Edits that write before the other reads are both in the head. -/
theorem editsKept_fresh_in_turn :
    ∃ o, Runs.run (observe fun _ => true) (.start twoEdits) [.advance 1, .advance 1, .advance 2, .advance 2] = some o ∧
      ∃ m ∈ o.world.memory, (Edit.update ⟨some (some "t"), none, none⟩).Holds m.state ∧
        (Edit.upsert ⟨"b", none, none⟩).Holds m.state := by
  have hother {o : Observed} {i k : ℕ} {edit : Edit} (hne : k ≠ i) : Fresh i edit o (.advance k) := by
    intro heq
    exact absurd (Event.advance.inj heq) hne
  have hmeets : Runs.Meets (observe fun _ => true) (fun o e => (e = .advance 1 ∨ e = .advance 2) ∧
      Fresh 1 (.update ⟨some (some "t"), none, none⟩) o e ∧ Fresh 2 (.upsert ⟨"b", none, none⟩) o e) (.start twoEdits)
      [.advance 1, .advance 1, .advance 2, .advance 2] := by
    refine Runs.meets_cons_of_eq _ rfl ⟨.inl rfl, ?_, hother (by decide)⟩ ?_
    · rintro - memoryId state op restoredFromSeq hreq
      cases hreq
    refine Runs.meets_cons_of_eq _ rfl ⟨.inl rfl, ?_, hother (by decide)⟩ ?_
    · rintro - memoryId state op restoredFromSeq hreq m hm s hs f -
      cases hreq
      cases hs
      cases hm
      rfl
    refine Runs.meets_cons_of_eq _ rfl ⟨.inr rfl, hother (by decide), ?_⟩ ?_
    · rintro - memoryId state op restoredFromSeq hreq
      cases hreq
    refine Runs.meets_cons_of_eq _ rfl ⟨.inr rfl, hother (by decide), ?_⟩ trivial
    · rintro - memoryId state op restoredFromSeq hreq m hm s hs f -
      cases hreq
      cases hs
      cases hm
      rfl
  obtain ⟨o, hrun⟩ := isSome_iff_exists.mp (show (Runs.run (observe fun _ => true) (.start twoEdits)
    [.advance 1, .advance 1, .advance 2, .advance 2]).isSome by decide +kernel)
  have hend : (Runs.run (observe fun _ => true) (.start twoEdits) [.advance 1, .advance 1, .advance 2, .advance 2]).all
      (fun o => 1 ∈ o.returned ∧ 2 ∈ o.returned) = true := by
    decide +kernel
  rw [hrun, all_some, decide_eq_true_eq] at hend
  exact ⟨o, hrun, (editsKept_fresh fun _ => true).both twoEdits 1 2 0 1 1 _ _ _ o rfl (by decide) rfl rfl
    (by rintro ⟨⟩ <;> decide) hmeets hrun hend.1 hend.2⟩

/-- Both calls read before they write, and the title is lost. -/
theorem title_lost : ¬ ∀ memoryFileFitsFrame, EditsKept memoryFileFitsFrame fun _ _ _ _ => True := by
  intro h
  let es : List Event := [.advance 1, .advance 2, .advance 1, .advance 2]
  obtain ⟨o, hrun⟩ := isSome_iff_exists.mp
    (show (Runs.run (observe fun _ => true) (.start twoEdits) es).isSome by decide +kernel)
  have hend : (Runs.run (observe fun _ => true) (.start twoEdits) es).all (fun o =>
      1 ∈ o.returned ∧ 2 ∈ o.returned ∧ o.world.memory.all fun m => m.state.value .title = none) = true := by
    decide +kernel
  rw [hrun, all_some, decide_eq_true_eq] at hend
  obtain ⟨hi, hj, hnone⟩ := hend
  have hmeets : Runs.Meets (observe fun _ => true)
      (fun _ e => (e = .advance 1 ∨ e = .advance 2) ∧ True ∧ True) (.start twoEdits) es :=
    Runs.meets_of_forall_mem _ _ (by simp [es])
  obtain ⟨m, hm, hfirst, -⟩ := (h fun _ => true).both twoEdits 1 2 0 1 1 (.update ⟨some (some "t"), none, none⟩)
    (.upsert ⟨"b", none, none⟩) es o rfl (by decide) rfl rfl (by rintro ⟨⟩ <;> decide) hmeets hrun hi hj
  have htitle := hfirst .title (some "t") rfl
  rw [mem_def.mp hm, all_some, htitle] at hnone
  cases hnone

end Onecli.Memories
