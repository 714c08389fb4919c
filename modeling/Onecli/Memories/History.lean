import Onecli.Foundation.Runs
import Mathlib.Data.List.Nodup
import Mathlib.Data.List.Range

/-!
# The revisions of a memory

`createMemory`, `updateMemory`, `upsertMemoryByKey`, `restoreRevision`, `redactRevision` and `deleteMemory` of
`agent-memory-service.ts`, on the memory of one agent and one key. Every write appends a snapshot of the new state in the
transaction that sets the head; what a request reads before, it reads outside of that transaction. A step of the model is
one read or one transaction of one request.

A text is known by its value and by the request that it was submitted with, so that a copy of a text can be told from
one that is submitted again.
-/

namespace Onecli.Memories

/-- `MEMORY_REVISIONS_RETAINED`. -/
def MEMORY_REVISIONS_RETAINED : ℕ := 50

/-- `MAX_MEMORIES_PER_AGENT`. -/
def MAX_MEMORIES_PER_AGENT : ℕ := 100

/-- A text, with the request that an author submitted it with. What redaction leaves was submitted by none. -/
structure Text where
  value : String
  submitted : Option ℕ
  deriving DecidableEq

/-- `REDACTED_CONTENT`. -/
def REDACTED_CONTENT : Text := ⟨"[redacted]", none⟩

/-- `MemoryState`. -/
structure MemoryState where
  title : Option Text
  description : Option Text
  content : Text

/-- The texts of a head or of a snapshot. -/
def MemoryState.texts (state : MemoryState) : List Text :=
  state.title.toList ++ state.description.toList ++ [state.content]

/-- `MemoryInput`, without the key. -/
structure MemoryInput where
  content : String
  title : Option String
  description : Option String

/-- `MemoryPatch`: a field that is left out stays as it is, and a title or a description can be cleared. -/
structure MemoryPatch where
  title : Option (Option String)
  description : Option (Option String)
  content : Option String

/-- The state that an input creates. -/
def MemoryInput.state (input : MemoryInput) (request : ℕ) : MemoryState where
  title := input.title.map (⟨·, some request⟩)
  description := input.description.map (⟨·, some request⟩)
  content := ⟨input.content, some request⟩

/-- The merge of `upsertMemoryByKey`. -/
def MemoryInput.merge (input : MemoryInput) (request : ℕ) (existing : MemoryState) : MemoryState where
  title := (input.title.map (⟨·, some request⟩)).or existing.title
  description := (input.description.map (⟨·, some request⟩)).or existing.description
  content := ⟨input.content, some request⟩

/-- The merge of `updateMemory`. -/
def MemoryPatch.merge (patch : MemoryPatch) (request : ℕ) (existing : MemoryState) : MemoryState where
  title := (patch.title.map fun title => title.map (⟨·, some request⟩)).getD existing.title
  description :=
    (patch.description.map fun description => description.map (⟨·, some request⟩)).getD existing.description
  content := (patch.content.map (⟨·, some request⟩)).getD existing.content

/-- `isNoOp`. -/
def isNoOp (current next : MemoryState) : Bool :=
  current.title.map (·.value) = next.title.map (·.value) ∧
    current.description.map (·.value) = next.description.map (·.value) ∧ current.content.value = next.content.value

/-- `MemoryOp`. -/
inductive MemoryOp where
  | save
  | restore

/-- A row of `agent_memory_revisions`. -/
structure Revision where
  id : ℕ
  seq : ℕ
  op : MemoryOp
  restoredFromSeq : Option ℕ
  state : MemoryState
  redacted : Bool

/-- A row of `agent_memories` with its revisions, the newest first. -/
structure Memory where
  id : ℕ
  state : MemoryState
  lastRevisionSeq : ℕ
  revisions : List Revision

/-- `appendRevision`. -/
def appendRevision (revisions : List Revision) (id seq : ℕ) (state : MemoryState) (op : MemoryOp)
    (restoredFromSeq : Option ℕ) : List Revision :=
  (⟨id, seq, op, restoredFromSeq, state, false⟩ :: revisions).filter fun r =>
    ¬ r.seq + MEMORY_REVISIONS_RETAINED ≤ seq

/-- The transaction of `applyState`. -/
def Memory.applyState (m : Memory) (id : ℕ) (state : MemoryState) (op : MemoryOp) (restoredFromSeq : Option ℕ) :
    Memory :=
  { m with
    state := state
    lastRevisionSeq := m.lastRevisionSeq + 1
    revisions := appendRevision m.revisions id (m.lastRevisionSeq + 1) state op restoredFromSeq }

/-- What redaction leaves of a revision. -/
def Revision.scrub (r : Revision) : Revision := { r with state := ⟨none, none, REDACTED_CONTENT⟩, redacted := true }

/-- What a revision is looked up for. -/
inductive Purpose where
  | restore
  | redact

/-- A request, by what it does next: `update`, `upsert`, `restore` and `redact` read the head, `create` counts the
memories of the agent, `found` reads the revision, and the others write. An upsert whose creation has lost the race is
`settled`. -/
inductive Request where
  | update (memoryId : ℕ) (patch : MemoryPatch)
  | upsert (input : MemoryInput) (held : ℕ) (settled : Bool)
  | create (input : MemoryInput) (held : ℕ) (upserts : Bool)
  | insert (input : MemoryInput) (held : ℕ) (upserts : Bool)
  | restore (memoryId revisionId : ℕ)
  | redact (memoryId revisionId : ℕ)
  | found (purpose : Purpose) (memoryId lastRevisionSeq revisionId : ℕ)
  | apply (memoryId : ℕ) (state : MemoryState) (op : MemoryOp) (restoredFromSeq : Option ℕ)
  | scrub (revisionId : ℕ)
  | delete (memoryId : ℕ)
  | done

/-- The database and the requests, which are numbered as they are submitted. The ids of the rows are given out in turn.
`redacted` keeps the texts that have been scrubbed, for the record. -/
structure World where
  memory : Option Memory
  memoriesCreated : ℕ
  revisionsCreated : ℕ
  submitted : ℕ
  requests : ℕ → Request
  redacted : List Text

namespace World

/-- The row of an id. -/
def find (w : World) (memoryId : ℕ) : Option Memory := w.memory.filter fun m => m.id = memoryId

/-- A request goes on. -/
def goOn (w : World) (i : ℕ) (request : Request) : World :=
  { w with requests := Function.update w.requests i request }

/-- The transaction of `createMemory`. -/
def insert (w : World) (state : MemoryState) : World :=
  { w with
    memory := some ⟨w.memoriesCreated, state, 1, appendRevision [] w.revisionsCreated 1 state .save none⟩
    memoriesCreated := w.memoriesCreated + 1
    revisionsCreated := w.revisionsCreated + 1 }

/-- The transaction of `applyState`, which fails when the row is gone. -/
def applyState (w : World) (memoryId : ℕ) (state : MemoryState) (op : MemoryOp) (restoredFromSeq : Option ℕ) : World :=
  match w.find memoryId with
  | some m =>
    { w with
      memory := some (m.applyState w.revisionsCreated state op restoredFromSeq)
      revisionsCreated := w.revisionsCreated + 1 }
  | none => w

/-- The update of `redactRevision`, which fails when the row is gone. -/
def scrub (w : World) (revisionId : ℕ) : World :=
  match w.memory with
  | some m =>
    { w with
      memory := some { m with revisions := m.revisions.map fun r => if r.id = revisionId then r.scrub else r }
      redacted :=
        (m.revisions.filter fun r => r.id = revisionId ∧ r.redacted = false).flatMap (·.state.texts) ++ w.redacted }
  | none => w

/-- The transaction of `deleteMemory`, with the cascade to the revisions. -/
def delete (w : World) (memoryId : ℕ) : World := { w with memory := w.memory.filter fun m => m.id ≠ memoryId }

section Reads

variable (memoryFileFitsFrame : MemoryState → Bool)

/-- A state that differs and can be projected is written. -/
def save (memoryId : ℕ) (existing next : MemoryState) : Request :=
  if isNoOp existing next then .done
  else if memoryFileFitsFrame next then .apply memoryId next .save none
  else .done

/-- What a request that reads goes on to. -/
def read (w : World) (i : ℕ) : Request → Request
  | .update memoryId patch =>
    match w.find memoryId with
    | some m => save memoryFileFitsFrame memoryId m.state (patch.merge i m.state)
    | none => .done
  | .upsert input held settled =>
    match w.memory with
    | some m => save memoryFileFitsFrame m.id m.state (input.merge i m.state)
    | none => if settled then .done else .create input held true
  | .create input held upserts =>
    if MAX_MEMORIES_PER_AGENT ≤ held then .done
    else if memoryFileFitsFrame (input.state i) then .insert input held upserts
    else .done
  | .restore memoryId revisionId =>
    match w.find memoryId with
    | some m => .found .restore memoryId m.lastRevisionSeq revisionId
    | none => .done
  | .redact memoryId revisionId =>
    match w.find memoryId with
    | some m => .found .redact memoryId m.lastRevisionSeq revisionId
    | none => .done
  | .found purpose memoryId lastRevisionSeq revisionId =>
    match (w.find memoryId).bind fun m => m.revisions.find? fun r => r.id = revisionId with
    | some r =>
      if r.seq = lastRevisionSeq then .done
      else if r.redacted then .done
      else
        match purpose with
        | .restore => .apply memoryId r.state .restore (some r.seq)
        | .redact => .scrub revisionId
    | none => .done
  | request => request

/-- The next read or transaction of a request. -/
def advance (w : World) (i : ℕ) : World :=
  match w.requests i with
  | .insert input held upserts =>
    -- the key is unique: the creation fails when there is a memory, and an upsert then overwrites that one
    if w.memory.isSome then w.goOn i (if upserts then .upsert input held true else .done)
    else (w.insert (input.state i)).goOn i .done
  | .apply memoryId state op restoredFromSeq => (w.applyState memoryId state op restoredFromSeq).goOn i .done
  | .scrub revisionId => (w.scrub revisionId).goOn i .done
  | .delete memoryId => (w.delete memoryId).goOn i .done
  | request => w.goOn i (w.read memoryFileFitsFrame i request)

end Reads

/-- No memory, and nothing asked for. -/
def empty : World where
  memory := none
  memoriesCreated := 0
  revisionsCreated := 0
  submitted := 0
  requests := fun _ => .done
  redacted := []

end World

/-- What a caller can ask for. -/
inductive Call where
  | create (input : MemoryInput) (held : ℕ)
  | update (memoryId : ℕ) (patch : MemoryPatch)
  | upsert (input : MemoryInput) (held : ℕ)
  | restore (memoryId revisionId : ℕ)
  | redact (memoryId revisionId : ℕ)
  | delete (memoryId : ℕ)

/-- The request of a call. -/
def Call.request : Call → Request
  | .create input held => .create input held false
  | .update memoryId patch => .update memoryId patch
  | .upsert input held => .upsert input held false
  | .restore memoryId revisionId => .restore memoryId revisionId
  | .redact memoryId revisionId => .redact memoryId revisionId
  | .delete memoryId => .delete memoryId

/-- The ids of the revisions are random: a caller names only such as have been given out. -/
def Call.named (revisionsCreated : ℕ) : Call → Bool
  | .restore _ revisionId => revisionId < revisionsCreated
  | .redact _ revisionId => revisionId < revisionsCreated
  | _ => true

/-- A call is made, a request goes on, or it fails. -/
inductive Event where
  | submit (call : Call)
  | advance (i : ℕ)
  | fail (i : ℕ)

/-- The steps of the service. -/
def step (memoryFileFitsFrame : MemoryState → Bool) (w : World) : Event → Option World
  | .submit call =>
    if call.named w.revisionsCreated then some { w.goOn w.submitted call.request with submitted := w.submitted + 1 }
    else none
  | .advance i => some (w.advance memoryFileFitsFrame i)
  | .fail i => some (w.goOn i .done)

/-- The head is a copy of the newest revision, which is not redacted. -/
def Memory.Mirrors (m : Memory) : Prop :=
  ∃ r ∈ m.revisions.head?, r.seq = m.lastRevisionSeq ∧ r.state = m.state ∧ r.redacted = false

/-- The revisions are numbered one by one from the newest down to the retention bound. -/
def Memory.Consecutive (m : Memory) : Prop :=
  m.revisions.map (·.seq) = (List.range (min m.lastRevisionSeq MEMORY_REVISIONS_RETAINED)).map (m.lastRevisionSeq - ·)

namespace World

/-- History is faithful. -/
def Faithful (w : World) : Prop := ∀ m ∈ w.memory, m.Mirrors ∧ m.Consecutive

/-- No text that has been redacted is in the head or in a revision. -/
def Clean (w : World) : Prop :=
  ∀ m ∈ w.memory, ∀ text ∈ w.redacted, text ∉ m.state.texts ∧ ∀ r ∈ m.revisions, text ∉ r.state.texts

end World

/-- Redaction takes the texts of its revision away, and none is given back. -/
def Redacts (u : World) (e : Event) (v : World) : Prop :=
  (∀ text ∈ u.redacted, text ∈ v.redacted) ∧
    ∀ i revisionId, e = .advance i → u.requests i = .scrub revisionId →
      (∀ m ∈ u.memory, ∀ r ∈ m.revisions, r.id = revisionId → r.redacted = false →
        ∀ text ∈ r.state.texts, text ∈ v.redacted) ∧
      ∀ m ∈ v.memory, ∀ r ∈ m.revisions, r.id = revisionId → r.redacted = true

/-- A write is under way with a text that it has read or was submitted with. -/
def Request.carries (text : Text) : Request → Bool
  | .apply _ state _ _ => text ∈ state.texts
  | _ => false

/-- A text is live: it is in the head, in a revision that is not redacted, but for one, or in a write under way. -/
def World.Live (w : World) (except : Option ℕ) (text : Text) : Prop :=
  (∃ m ∈ w.memory, text ∈ m.state.texts ∨
    ∃ r ∈ m.revisions, some r.id ≠ except ∧ r.redacted = false ∧ text ∈ r.state.texts) ∨
    ∃ i < w.submitted, (w.requests i).carries text = true

/-- A revision is redacted only when no other copy of its texts is live. -/
def Request.Alone (w : World) : Request → Prop
  | .scrub revisionId => ∀ m ∈ w.memory, ∀ r ∈ m.revisions, r.id = revisionId → r.redacted = false →
      ∀ text ∈ r.state.texts, ¬ w.Live (some revisionId) text
  | _ => True

/-- A request goes on that redacts, if anything, texts that have no other live copy. -/
def Alone (w : World) : Event → Prop
  | .advance i => (w.requests i).Alone w
  | _ => True

/-! ## The history of a memory

The head is a copy of the newest revision in every run: a revision that is redacted was not the newest when it was
looked up, and so never is.
-/

open List Nat Function

section Revisions

variable {m : Memory} {id : ℕ} {state : MemoryState} {op : MemoryOp} {origin : Option ℕ}

theorem retained_pos : 0 < MEMORY_REVISIONS_RETAINED := by decide

theorem filter_retained (last : ℕ) :
    ((List.range (min last MEMORY_REVISIONS_RETAINED)).map (last - ·)).filter
        (fun seq => ¬ seq + MEMORY_REVISIONS_RETAINED ≤ last + 1) =
      (List.range (min (last + 1) MEMORY_REVISIONS_RETAINED - 1)).map (last - ·) := by
  rw [MEMORY_REVISIONS_RETAINED]
  by_cases hlast : last < 50
  · rw [Nat.min_eq_left (by omega), Nat.min_eq_left (by omega), Nat.add_sub_cancel, filter_eq_self]
    intro seq hseq
    obtain ⟨k, hk, rfl⟩ := mem_map.mp hseq
    rw [mem_range] at hk
    exact decide_eq_true (by omega)
  · rw [min_eq_right (by omega), min_eq_right (by omega), range_succ, map_append, filter_append]
    have hfront : ((List.range 49).map (last - ·)).filter (fun seq => ¬ seq + 50 ≤ last + 1) =
        (List.range 49).map (last - ·) := by
      rw [filter_eq_self]
      intro seq hseq
      obtain ⟨k, hk, rfl⟩ := mem_map.mp hseq
      rw [mem_range] at hk
      exact decide_eq_true (by omega)
    have hback : ([49].map (last - ·)).filter (fun seq => ¬ seq + 50 ≤ last + 1) = [] := by
      rw [map_singleton, filter_eq_nil_iff]
      intro seq hseq
      rw [mem_singleton.mp hseq, decide_eq_true_eq]
      omega
    rw [hfront, hback, append_nil]

theorem map_seq_appendRevision {revisions : List Revision} {n : ℕ}
    (h : revisions.map (·.seq) = (List.range (min n MEMORY_REVISIONS_RETAINED)).map (n - ·)) :
    (appendRevision revisions id (n + 1) state op origin).map (·.seq) =
      (List.range (min (n + 1) MEMORY_REVISIONS_RETAINED)).map (n + 1 - ·) := by
  have hmap (l : List Revision) :
      (l.filter fun r => ¬ r.seq + MEMORY_REVISIONS_RETAINED ≤ n + 1).map (·.seq) =
        (l.map (·.seq)).filter fun seq => ¬ seq + MEMORY_REVISIONS_RETAINED ≤ n + 1 := by
    rw [filter_map]
    rfl
  have hpos : min (n + 1) MEMORY_REVISIONS_RETAINED = (min (n + 1) MEMORY_REVISIONS_RETAINED - 1) + 1 := by
    rw [MEMORY_REVISIONS_RETAINED]
    omega
  rw [appendRevision, hmap, map_cons, h, filter_cons_of_pos, filter_retained, hpos, range_succ_eq_map, map_cons,
    map_map]
  · refine congrArg (_ :: ·) (map_congr_left fun k _ => ?_)
    rw [comp_apply]
    omega
  · exact decide_eq_true (Nat.not_le.mpr (Nat.lt_add_of_pos_right retained_pos))

theorem appendRevision_eq_cons (revisions : List Revision) (id seq : ℕ) (state : MemoryState) (op : MemoryOp)
    (origin : Option ℕ) :
    appendRevision revisions id seq state op origin =
      ⟨id, seq, op, origin, state, false⟩ ::
        revisions.filter fun r => ¬ r.seq + MEMORY_REVISIONS_RETAINED ≤ seq := by
  rw [appendRevision, filter_cons_of_pos]
  exact decide_eq_true (Nat.not_le.mpr (Nat.lt_add_of_pos_right retained_pos))

/-- A revision is the new one, or an old one. -/
theorem eq_or_mem_of_mem_appendRevision {revisions : List Revision} {seq : ℕ} {r : Revision}
    (h : r ∈ appendRevision revisions id seq state op origin) :
    r = ⟨id, seq, op, origin, state, false⟩ ∨ r ∈ revisions := by
  rw [appendRevision_eq_cons] at h
  exact (mem_cons.mp h).imp_right fun h => (mem_filter.mp h).1

theorem Memory.Consecutive.seq_le (h : m.Consecutive) {r : Revision} (hr : r ∈ m.revisions) :
    r.seq ≤ m.lastRevisionSeq := by
  have hmem : r.seq ∈ m.revisions.map (·.seq) := mem_map_of_mem hr
  rw [h] at hmem
  obtain ⟨k, -, hk⟩ := mem_map.mp hmem
  omega

end Revisions

/-- What a request that redacts has learned of its revision: it has been given out, and where it is still there it is
not newer than what was read of the head, and in the end older than the head. -/
def Request.Safe (memory : Option Memory) (revisionsCreated : ℕ) : Request → Prop
  | .redact _ revisionId => revisionId < revisionsCreated
  | .found .redact _ lastRevisionSeq revisionId =>
    revisionId < revisionsCreated ∧ ∀ m ∈ memory, ∀ r ∈ m.revisions, r.id = revisionId →
      r.seq ≤ lastRevisionSeq ∧ lastRevisionSeq ≤ m.lastRevisionSeq
  | .scrub revisionId =>
    revisionId < revisionsCreated ∧ ∀ m ∈ memory, ∀ r ∈ m.revisions, r.id = revisionId → r.seq < m.lastRevisionSeq
  | _ => True

/-- The revisions that were there are there under their numbers or gone, and the head has not gone back. -/
def Carries (memory memory' : Option Memory) (revisionsCreated : ℕ) : Prop :=
  ∀ m' ∈ memory', ∀ r' ∈ m'.revisions, r'.id < revisionsCreated →
    ∃ m ∈ memory, m.lastRevisionSeq ≤ m'.lastRevisionSeq ∧ ∃ r ∈ m.revisions, r.id = r'.id ∧ r.seq = r'.seq

theorem Request.Safe.carry {memory memory' : Option Memory} {revisionsCreated revisionsCreated' : ℕ}
    {request : Request} (h : request.Safe memory revisionsCreated) (hle : revisionsCreated ≤ revisionsCreated')
    (hcarries : Carries memory memory' revisionsCreated) : request.Safe memory' revisionsCreated' := by
  cases request with
  | redact => exact lt_of_lt_of_le h hle
  | found purpose =>
    cases purpose with
    | restore => trivial
    | redact =>
      refine ⟨lt_of_lt_of_le h.1 hle, fun m' hm' r' hr' hid => ?_⟩
      obtain ⟨m, hm, hlast, r, hr, hid', hseq⟩ := hcarries m' hm' r' hr' (hid ▸ h.1)
      obtain ⟨hle', hbelow⟩ := h.2 m hm r hr (hid'.trans hid)
      exact ⟨hseq ▸ hle', le_trans hbelow hlast⟩
  | scrub =>
    refine ⟨lt_of_lt_of_le h.1 hle, fun m' hm' r' hr' hid => ?_⟩
    obtain ⟨m, hm, hlast, r, hr, hid', hseq⟩ := hcarries m' hm' r' hr' (hid ▸ h.1)
    have hlt := h.2 m hm r hr (hid'.trans hid)
    omega
  | _ => trivial

/-- What the database keeps, and what the requests have learned of it. -/
structure Kept (w : World) : Prop where
  faithful : w.Faithful
  ids : ∀ m ∈ w.memory, (m.revisions.map (·.id)).Nodup
  created : ∀ m ∈ w.memory, ∀ r ∈ m.revisions, r.id < w.revisionsCreated
  safe : ∀ i, (w.requests i).Safe w.memory w.revisionsCreated

/-- The rows of a memory are sound. -/
structure Sound (revisionsCreated : ℕ) (m : Memory) : Prop where
  mirrors : m.Mirrors
  consecutive : m.Consecutive
  ids : (m.revisions.map (·.id)).Nodup
  created : ∀ r ∈ m.revisions, r.id < revisionsCreated

/-- A memory that is found is a row. -/
theorem World.mem_of_find {w : World} {memoryId : ℕ} {m : Memory} (h : w.find memoryId = some m) :
    m ∈ w.memory ∧ m.id = memoryId := by
  obtain ⟨hmem, hid⟩ := Option.filter_eq_some_iff.mp h
  exact ⟨hmem, of_decide_eq_true hid⟩

namespace Sound

variable {revisionsCreated : ℕ} {m : Memory}

theorem insert (id revId : ℕ) (state : MemoryState) :
    Sound (revId + 1) ⟨id, state, 1, appendRevision [] revId 1 state .save none⟩ where
  mirrors := ⟨_, by rw [appendRevision_eq_cons]; rfl, rfl, rfl, rfl⟩
  consecutive := map_seq_appendRevision (n := 0) rfl
  ids := by
    exact nodup_singleton revId
  created := by
    intro r hr
    dsimp only at hr
    rcases eq_or_mem_of_mem_appendRevision hr with rfl | hr
    · exact lt_succ_self revId
    · cases hr

theorem applyState (h : Sound revisionsCreated m) (state : MemoryState) (op : MemoryOp) (origin : Option ℕ) :
    Sound (revisionsCreated + 1) (m.applyState revisionsCreated state op origin) where
  mirrors := ⟨_, by rw [Memory.applyState, appendRevision_eq_cons]; rfl, rfl, rfl, rfl⟩
  consecutive := map_seq_appendRevision h.consecutive
  ids := by
    rw [Memory.applyState, appendRevision_eq_cons, map_cons, nodup_cons]
    constructor
    · intro hmem
      obtain ⟨r, hr, hid⟩ := mem_map.mp hmem
      have hlt := h.created r (mem_filter.mp hr).1
      dsimp only at hid
      omega
    · exact h.ids.sublist (filter_sublist.map _)
  created := by
    intro r hr
    rcases eq_or_mem_of_mem_appendRevision hr with rfl | hr
    · exact lt_succ_self revisionsCreated
    · exact lt_succ_of_lt (h.created r hr)

theorem scrub_seq (revId : ℕ) (r : Revision) :
    (if r.id = revId then r.scrub else r).seq = r.seq ∧ (if r.id = revId then r.scrub else r).id = r.id := by
  split <;> exact ⟨rfl, rfl⟩

theorem scrub (h : Sound revisionsCreated m) {revId : ℕ}
    (hold : ∀ r ∈ m.revisions, r.id = revId → r.seq < m.lastRevisionSeq) :
    Sound revisionsCreated
      { m with revisions := m.revisions.map fun r => if r.id = revId then r.scrub else r } where
  mirrors := by
    obtain ⟨r, hr, hseq, hstate, hredacted⟩ := h.mirrors
    have hne : r.id ≠ revId := by
      intro hid
      have hlt := hold r (List.mem_of_head? hr) hid
      omega
    refine ⟨r, ?_, hseq, hstate, hredacted⟩
    rw [List.head?_map, Option.mem_def.mp hr, Option.map_some, if_neg hne]
    rfl
  consecutive := by
    rw [Memory.Consecutive, map_map, ← h.consecutive]
    exact map_congr_left fun r _ => (scrub_seq revId r).1
  ids := by
    have hsame : (m.revisions.map fun r => if r.id = revId then r.scrub else r).map (·.id) =
        m.revisions.map (·.id) := by
      rw [map_map]
      exact map_congr_left fun r _ => (scrub_seq revId r).2
    rw [hsame]
    exact h.ids
  created := by
    intro r' hr'
    obtain ⟨r, hr, rfl⟩ := mem_map.mp hr'
    rw [(scrub_seq revId r).2]
    exact h.created r hr

end Sound

namespace Kept

variable {w : World}

/-- A kept memory is sound. -/
theorem sound (h : Kept w) {m : Memory} (hm : m ∈ w.memory) : Sound w.revisionsCreated m :=
  ⟨(h.faithful m hm).1, (h.faithful m hm).2, h.ids m hm, h.created m hm⟩

/-- A request that carries its memories keeps the history. -/
theorem of_sound {w' : World} (h : Kept w) (i : ℕ) (request : Request)
    (hrequests : w'.requests = update w.requests i request)
    (hsound : ∀ m ∈ w'.memory, Sound w'.revisionsCreated m) (hle : w.revisionsCreated ≤ w'.revisionsCreated)
    (hcarries : Carries w.memory w'.memory w.revisionsCreated) (hsafe : request.Safe w'.memory w'.revisionsCreated) :
    Kept w' where
  faithful := fun m hm => ⟨(hsound m hm).mirrors, (hsound m hm).consecutive⟩
  ids := fun m hm => (hsound m hm).ids
  created := fun m hm => (hsound m hm).created
  safe := by
    intro j
    rw [hrequests]
    by_cases hj : j = i
    · rw [hj, update_self]
      exact hsafe
    · rw [update_of_ne hj]
      exact (h.safe j).carry hle hcarries

theorem carries_refl (memory : Option Memory) (revisionsCreated : ℕ) : Carries memory memory revisionsCreated :=
  fun m hm r hr _ => ⟨m, hm, le_refl _, r, hr, rfl, rfl⟩

/-- A request that writes nothing keeps the history. -/
theorem goOn (h : Kept w) (i : ℕ) {request : Request} (hsafe : request.Safe w.memory w.revisionsCreated) :
    Kept (w.goOn i request) :=
  h.of_sound i request rfl (fun _ hm => h.sound hm) (le_refl _) (carries_refl _ _) hsafe

theorem insert (h : Kept w) (i : ℕ) (state : MemoryState) : Kept ((w.insert state).goOn i .done) := by
  refine h.of_sound i .done rfl ?_ (le_succ _) ?_ trivial
  · intro m hm
    cases hm
    exact .insert w.memoriesCreated w.revisionsCreated state
  · intro m hm r hr hid
    cases hm
    dsimp only at hr
    rcases eq_or_mem_of_mem_appendRevision hr with rfl | hr
    · exact absurd hid (lt_irrefl _)
    · cases hr

theorem applyState (h : Kept w) (i memoryId : ℕ) (state : MemoryState) (op : MemoryOp) (origin : Option ℕ) :
    Kept ((w.applyState memoryId state op origin).goOn i .done) := by
  rw [World.applyState]
  split
  · rename_i m hfind
    obtain ⟨hmem, -⟩ := World.mem_of_find hfind
    refine h.of_sound i .done rfl ?_ (le_succ _) ?_ trivial
    · intro m' hm'
      cases hm'
      exact (h.sound hmem).applyState state op origin
    · intro m' hm' r hr hid
      cases hm'
      rcases eq_or_mem_of_mem_appendRevision hr with rfl | hr
      · exact absurd hid (lt_irrefl _)
      · exact ⟨m, hmem, le_succ _, r, hr, rfl, rfl⟩
  · exact h.goOn i trivial

theorem scrub (h : Kept w) {i revId : ℕ} (hreq : w.requests i = .scrub revId) :
    Kept ((w.scrub revId).goOn i .done) := by
  have hsafe := h.safe i
  rw [hreq] at hsafe
  rw [World.scrub]
  split
  · rename_i m hm
    refine h.of_sound i .done rfl ?_ (le_refl _) ?_ trivial
    · intro m' hm'
      cases hm'
      exact (h.sound hm).scrub (hsafe.2 m hm)
    · intro m' hm' r' hr' _
      cases hm'
      obtain ⟨r, hr, rfl⟩ := mem_map.mp hr'
      obtain ⟨hseq, hid⟩ := Sound.scrub_seq revId r
      exact ⟨m, hm, le_refl _, r, hr, hid.symm, hseq.symm⟩
  · exact h.goOn i trivial

theorem delete (h : Kept w) (i memoryId : ℕ) : Kept ((w.delete memoryId).goOn i .done) := by
  have hmem {m : Memory} (hm : m ∈ (w.delete memoryId).memory) : m ∈ w.memory := (Option.filter_eq_some_iff.mp hm).1
  refine h.of_sound i .done rfl (fun m hm => h.sound (hmem hm)) (le_refl _) ?_ trivial
  exact fun m hm r hr _ => ⟨m, hmem hm, le_refl _, r, hr, rfl, rfl⟩

theorem read_safe (h : Kept w) (fits : MemoryState → Bool) (i : ℕ) {request : Request}
    (hreq : request.Safe w.memory w.revisionsCreated) :
    (w.read fits i request).Safe w.memory w.revisionsCreated := by
  have hsave (memoryId : ℕ) (existing next : MemoryState) :
      (World.save fits memoryId existing next).Safe w.memory w.revisionsCreated := by
    rw [World.save]
    split
    · trivial
    · split <;> trivial
  cases request with
  | update =>
    rw [World.read]
    split
    · exact hsave _ _ _
    · trivial
  | upsert =>
    rw [World.read]
    split
    · exact hsave _ _ _
    · split <;> trivial
  | create =>
    rw [World.read]
    split
    · trivial
    · split <;> trivial
  | restore =>
    rw [World.read]
    split <;> trivial
  | redact =>
    rw [World.read]
    split
    · rename_i m hfind
      obtain ⟨hm, -⟩ := World.mem_of_find hfind
      refine ⟨hreq, fun m' hm' r hr _ => ?_⟩
      cases hm.symm.trans hm'
      exact ⟨(h.sound hm).consecutive.seq_le hr, le_refl _⟩
    · trivial
  | found purpose memoryId last revId =>
    rw [World.read]
    split
    · rename_i r hfind
      split
      · trivial
      · split
        · trivial
        · cases purpose with
          | restore => trivial
          | redact =>
            obtain ⟨m, hm, hr⟩ := Option.bind_eq_some_iff.mp hfind
            obtain ⟨hm, -⟩ := World.mem_of_find hm
            refine ⟨hreq.1, fun m' hm' r' hr' hid => ?_⟩
            cases hm.symm.trans hm'
            have hrmem := List.mem_of_find?_eq_some hr
            have hrid : r.id = revId := by simpa using List.find?_some hr
            obtain rfl := inj_on_of_nodup_map (h.ids m hm) hr' hrmem (hid.trans hrid.symm)
            obtain ⟨hle, hbelow⟩ := hreq.2 m hm r' hr' hid
            omega
    · trivial
  | scrub => exact hreq
  | _ => trivial

/-- Every request keeps the history. -/
theorem step {fits : MemoryState → Bool} {u v : World} {e : Event} (h : Kept u)
    (hstep : step fits u e = some v) : Kept v := by
  cases e with
  | submit call =>
    obtain ⟨hnamed, hv⟩ := Option.ite_none_right_eq_some.mp hstep
    cases hv
    have hsafe : call.request.Safe u.memory u.revisionsCreated := by
      cases call with
      | redact memoryId revId =>
        have hlt : revId < u.revisionsCreated := of_decide_eq_true hnamed
        exact hlt
      | _ => trivial
    exact { h.goOn u.submitted hsafe with }
  | advance i =>
    cases hstep
    rw [World.advance]
    split
    · rename_i input held upserts _
      split
      · refine h.goOn i ?_
        split <;> trivial
      · exact h.insert i (input.state i)
    · exact h.applyState i _ _ _ _
    · rename_i hreq
      exact h.scrub hreq
    · exact h.delete i _
    · exact h.goOn i (h.read_safe fits i (h.safe i))
  | fail i =>
    cases hstep
    exact h.goOn i trivial

end Kept

/-- No history is kept. -/
theorem Kept.empty : Kept World.empty where
  faithful := by
    intro m hm
    cases hm
  ids := by
    intro m hm
    cases hm
  created := by
    intro m hm
    cases hm
  safe := fun _ => trivial

/-- However the requests are interleaved and fail, history is faithful. -/
theorem run_faithful (fits : MemoryState → Bool) (es : List Event) :
    Runs.Throughout (step fits) World.Faithful World.empty es := by
  intro front back w hsplit hrun
  have hkept := Runs.throughout_of_meets (step fits) (I := Kept)
    (fun u e v hu _ hstep => hu.step hstep) .empty (Runs.meets_true (step fits) .empty es)
  exact (hkept front back w hsplit hrun).faithful

end Onecli.Memories
