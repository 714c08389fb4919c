import Onecli.Memories.History

/-!
# Redaction is final

What redaction takes away stays away as long as no other copy of it is live then: in the head, in a revision that is
not redacted, or in a write that has read it and is under way. From there a restore could bring it back, and so could a
save that leaves a field as it was.
-/

namespace Onecli.Memories

open Function (update update_of_ne update_self)
open List Runs

section Texts

variable {request : ℕ} {text : Text}

/-- The texts of a state are its fields. -/
theorem mem_texts_iff (state : MemoryState) :
    text ∈ state.texts ↔ state.title = some text ∨ state.description = some text ∨ state.content = text := by
  rw [MemoryState.texts, mem_append, mem_append, Option.mem_toList, Option.mem_toList, mem_singleton,
    or_assoc, eq_comm (a := text)]

theorem submitted_of_map_eq {value : Option String} (h : value.map (⟨·, some request⟩) = some text) :
    text.submitted = some request := by
  obtain ⟨value, -, rfl⟩ := Option.map_eq_some_iff.mp h
  rfl

theorem submitted_of_mem_state {input : MemoryInput} (h : text ∈ (input.state request).texts) :
    text.submitted = some request := by
  rcases (mem_texts_iff _).mp h with htitle | hdescription | hcontent
  · exact submitted_of_map_eq htitle
  · exact submitted_of_map_eq hdescription
  · rw [← hcontent]
    rfl

theorem submitted_or_of_or_eq {value : Option String} {existing : Option Text}
    (h : (value.map (⟨·, some request⟩)).or existing = some text) :
    existing = some text ∨ text.submitted = some request := by
  cases value with
  | none => exact .inl h
  | some =>
    exact .inr (Option.some.inj h ▸ rfl)

theorem submitted_of_mem_merge {input : MemoryInput} {existing : MemoryState}
    (h : text ∈ (input.merge request existing).texts) : text ∈ existing.texts ∨ text.submitted = some request := by
  rw [mem_texts_iff existing]
  rcases (mem_texts_iff _).mp h with htitle | hdescription | hcontent
  · exact (submitted_or_of_or_eq htitle).imp_left .inl
  · exact (submitted_or_of_or_eq hdescription).imp_left fun h => .inr (.inl h)
  · refine .inr ?_
    rw [← hcontent]
    rfl

theorem submitted_or_of_getD_eq {value : Option (Option String)} {existing : Option Text}
    (h : (value.map fun value => value.map (⟨·, some request⟩)).getD existing = some text) :
    existing = some text ∨ text.submitted = some request := by
  cases value with
  | none => exact .inl h
  | some => exact .inr (submitted_of_map_eq h)

theorem submitted_of_mem_patch {patch : MemoryPatch} {existing : MemoryState}
    (h : text ∈ (patch.merge request existing).texts) : text ∈ existing.texts ∨ text.submitted = some request := by
  rw [mem_texts_iff existing]
  rcases (mem_texts_iff _).mp h with htitle | hdescription | hcontent
  · exact (submitted_or_of_getD_eq htitle).imp_left .inl
  · exact (submitted_or_of_getD_eq hdescription).imp_left fun h => .inr (.inl h)
  · rw [MemoryPatch.merge] at hcontent
    cases hpatch : patch.content with
    | none =>
      rw [hpatch] at hcontent
      exact .inl (.inr (.inr hcontent))
    | some =>
      rw [hpatch] at hcontent
      refine .inr ?_
      rw [← hcontent]
      rfl

end Texts

section Provenance

/-- A request whose input has not been written before, and may be. -/
def Request.unspent : Request → Bool
  | .update _ _ => true
  | .upsert _ _ _ => true
  | .create _ _ _ => true
  | .insert _ _ _ => true
  | _ => false

/-- What is live has an author and has not been redacted; nothing of it, or of what has been redacted, comes from a
request that has yet to write; and nothing is left in a redacted revision. -/
structure Traced (w : World) : Prop where
  idle : ∀ i, w.submitted ≤ i → w.requests i = .done
  fresh : ∀ i, (w.requests i).unspent = true ∨ w.submitted ≤ i →
    ∀ text, text ∈ w.redacted ∨ w.Live none text → text.submitted ≠ some i
  authored : ∀ text ∈ w.redacted, text.submitted ≠ none
  scrubbed : ∀ m ∈ w.memory, ∀ r ∈ m.revisions, r.redacted = true → r.state = ⟨none, none, REDACTED_CONTENT⟩
  live : ∀ text, w.Live none text → text.submitted ≠ none ∧ text ∉ w.redacted

namespace World

variable {w : World} {i : ℕ} {text : Text}

/-- A request that goes on makes live what it goes on to carry. -/
theorem live_goOn (request : Request) (h : (w.goOn i request).Live none text) :
    w.Live none text ∨ request.carries text = true := by
  rcases h with hmemory | ⟨j, hj, hcarries⟩
  · exact .inl (.inl hmemory)
  · by_cases hji : j = i
    · rw [hji, World.goOn] at hcarries
      dsimp only at hcarries
      rw [update_self] at hcarries
      exact .inr hcarries
    · refine .inl (.inr ⟨j, hj, ?_⟩)
      rwa [show (w.goOn i request).requests j = w.requests j from update_of_ne hji _ _] at hcarries

/-- A request that is done carries nothing. -/
theorem live_done (h : (w.goOn i .done).Live none text) : w.Live none text :=
  (live_goOn .done h).resolve_right Bool.false_ne_true

variable {state : MemoryState} {memoryId : ℕ} {op : MemoryOp} {restoredFromSeq : Option ℕ}

/-- A write makes live what it writes. -/
theorem live_of_append {m' : Memory} {created created' : ℕ}
    (h : World.Live { w with memory := some m', memoriesCreated := created, revisionsCreated := created' } none text)
    (hstate : m'.state = state) (hrevisions : ∀ r ∈ m'.revisions, r.state = state ∨ ∃ m ∈ w.memory, r ∈ m.revisions) :
    w.Live none text ∨ text ∈ state.texts := by
  rcases h with ⟨m, hm, htext | ⟨r, hr, hne, hkept, htext⟩⟩ | hreq
  · cases hm
    exact .inr (hstate ▸ htext)
  · cases hm
    rcases hrevisions r hr with hnew | ⟨m, hm, hr⟩
    · exact .inr (hnew ▸ htext)
    · exact .inl (.inl ⟨m, hm, .inr ⟨r, hr, hne, hkept, htext⟩⟩)
  · exact .inl (.inr hreq)

theorem live_applyState (h : (w.applyState memoryId state op restoredFromSeq).Live none text) :
    w.Live none text ∨ text ∈ state.texts := by
  rw [World.applyState] at h
  split at h
  · rename_i m hfind
    refine live_of_append h rfl fun r hr => ?_
    rcases eq_or_mem_of_mem_appendRevision hr with rfl | hr
    · exact .inl rfl
    · exact .inr ⟨m, (mem_of_find hfind).1, hr⟩
  · exact .inl h

theorem live_insert (h : (w.insert state).Live none text) : w.Live none text ∨ text ∈ state.texts := by
  refine live_of_append h rfl fun r hr => ?_
  dsimp only at hr
  rcases eq_or_mem_of_mem_appendRevision hr with rfl | hr
  · exact .inl rfl
  · cases hr

/-- What is still live after a revision is redacted was live elsewhere. -/
theorem live_scrub {revId : ℕ} (h : (w.scrub revId).Live none text) (hmemory : w.memory.isSome) :
    w.Live (some revId) text := by
  obtain ⟨m, hm⟩ := Option.isSome_iff_exists.mp hmemory
  rw [World.scrub, hm] at h
  rcases h with ⟨m', hm', htext | ⟨r', hr', -, hkept, htext⟩⟩ | hreq
  · cases hm'
    exact .inl ⟨m, hm, .inl htext⟩
  · cases hm'
    obtain ⟨r, hr, rfl⟩ := mem_map.mp hr'
    by_cases hid : r.id = revId
    · rw [if_pos hid, Revision.scrub] at hkept
      cases hkept
    · rw [if_neg hid] at hkept htext
      exact .inl ⟨m, hm, .inr ⟨r, hr, fun heq => hid (Option.some.inj heq), hkept, htext⟩⟩
  · exact .inr hreq

theorem Live.weaken {except : Option ℕ} (h : w.Live except text) : w.Live none text := by
  rcases h with ⟨m, hm, htext | ⟨r, hr, -, hkept, htext⟩⟩ | hreq
  · exact .inl ⟨m, hm, .inl htext⟩
  · exact .inl ⟨m, hm, .inr ⟨r, hr, by simp, hkept, htext⟩⟩
  · exact .inr hreq

theorem live_delete (h : (w.delete memoryId).Live none text) : w.Live none text := by
  rcases h with ⟨m, hm, htext⟩ | hreq
  · exact .inl ⟨m, (Option.filter_eq_some_iff.mp hm).1, htext⟩
  · exact .inr hreq

/-- What redaction takes away is what the revision had. -/
theorem mem_redacted_scrub {revId : ℕ} (h : text ∈ (w.scrub revId).redacted) : text ∈ w.redacted ∨
    ∃ m ∈ w.memory, ∃ r ∈ m.revisions, r.id = revId ∧ r.redacted = false ∧ text ∈ r.state.texts := by
  rw [World.scrub] at h
  split at h
  · rename_i m hm
    rcases mem_append.mp h with hnew | hold
    · obtain ⟨r, hr, htext⟩ := mem_flatMap.mp hnew
      obtain ⟨hr, hmatch⟩ := mem_filter.mp hr
      exact .inr ⟨m, hm, r, hr, (of_decide_eq_true hmatch).1, (of_decide_eq_true hmatch).2, htext⟩
    · exact .inl hold
  · exact .inl h

/-- The revisions after one is redacted: that one has nothing left, and the others are as they were. -/
theorem mem_revisions_scrub {revId : ℕ} {m' : Memory} (hm' : m' ∈ (w.scrub revId).memory) {r' : Revision}
    (hr' : r' ∈ m'.revisions) : ∃ m ∈ w.memory, m'.state = m.state ∧ ∃ r ∈ m.revisions,
      r.id = r'.id ∧ (r'.id = revId ∧ r' = r.scrub ∨ r'.id ≠ revId ∧ r' = r) := by
  rw [World.scrub] at hm'
  split at hm'
  · rename_i m hm
    cases hm'
    obtain ⟨r, hr, rfl⟩ := mem_map.mp hr'
    refine ⟨m, hm, rfl, r, hr, ?_⟩
    by_cases hid : r.id = revId
    · rw [if_pos hid]
      exact ⟨rfl, .inl ⟨hid, rfl⟩⟩
    · rw [if_neg hid]
      exact ⟨rfl, .inr ⟨hid, rfl⟩⟩
  · rename_i hnone
    rw [hnone] at hm'
    cases hm'

variable {memoryFileFitsFrame : MemoryState → Bool}

theorem carries_save {id : ℕ} {existing next : MemoryState}
    (h : (save memoryFileFitsFrame id existing next).carries text = true) : text ∈ next.texts := by
  rw [World.save] at h
  split at h
  · cases h
  · split at h
    · exact of_decide_eq_true h
    · cases h

/-- A request that reads goes on to carry what is live, or what it was submitted with. -/
theorem carries_read {request : Request}
    (h : (w.read memoryFileFitsFrame i request).carries text = true) :
    w.Live none text ∨ text.submitted = some i ∧ request.unspent = true ∨ request.carries text = true := by
  cases request with
  | update =>
    rw [World.read] at h
    split at h
    · rename_i m hfind
      rcases submitted_of_mem_patch (carries_save h) with hexisting | hsubmitted
      · exact .inl (.inl ⟨m, (mem_of_find hfind).1, .inl hexisting⟩)
      · exact .inr (.inl ⟨hsubmitted, rfl⟩)
    · cases h
  | upsert =>
    rw [World.read] at h
    split at h
    · rename_i m hm
      rcases submitted_of_mem_merge (carries_save h) with hexisting | hsubmitted
      · exact .inl (.inl ⟨m, hm, .inl hexisting⟩)
      · exact .inr (.inl ⟨hsubmitted, rfl⟩)
    · split at h <;> cases h
  | create =>
    rw [World.read] at h
    split at h
    · cases h
    · split at h <;> cases h
  | restore id revId | redact id revId =>
    rw [World.read] at h
    split at h <;> cases h
  | found purpose =>
    rw [World.read] at h
    split at h
    · rename_i r hfind
      obtain ⟨m, hm, hr⟩ := Option.bind_eq_some_iff.mp hfind
      split at h
      · cases h
      · split at h
        · cases h
        · rename_i hkept
          cases purpose with
          | restore =>
            refine .inl (.inl ⟨m, (mem_of_find hm).1, .inr ⟨r, List.mem_of_find?_eq_some hr, by simp, ?_, ?_⟩⟩)
            · exact Bool.eq_false_iff.mpr hkept
            · exact of_decide_eq_true h
          | redact => cases h
    · cases h
  | _ => exact .inr (.inr h)

theorem unspent_of_read {request : Request} (h : (w.read memoryFileFitsFrame i request).unspent = true) :
    request.unspent = true := by
  have hsave (id : ℕ) (existing next : MemoryState) : (save memoryFileFitsFrame id existing next).unspent = false := by
    rw [World.save]
    split
    · rfl
    · split <;> rfl
  cases request with
  | restore id revId | redact id revId =>
    rw [World.read] at h
    split at h <;> cases h
  | found purpose =>
    rw [World.read] at h
    split at h
    · split at h
      · cases h
      · split at h
        · cases h
        · cases purpose <;> cases h
    · cases h
  | update | upsert | create | insert => rfl
  | _ => exact h

end World

end Provenance

namespace Traced

variable {u : World} {memoryFileFitsFrame : MemoryState → Bool} {i : ℕ} {text : Text}

/-- What a request carries is live. -/
theorem live_of_carries (h : Traced u) (hcarries : (u.requests i).carries text = true) : u.Live none text := by
  refine .inr ⟨i, Nat.lt_of_not_le fun hle => ?_, hcarries⟩
  rw [h.idle i hle] at hcarries
  cases hcarries

/-- What is live after a request has gone on was live, or was submitted with the request, which has written it or is
about to. -/
theorem live_of_advance (hu : Traced u) (h : (u.advance memoryFileFitsFrame i).Live none text) :
    u.Live none text ∨ text.submitted = some i ∧ (u.requests i).unspent = true ∧
      ((u.advance memoryFileFitsFrame i).requests i).unspent = false := by
  have hself (w : World) (request : Request) : (w.goOn i request).requests i = request := update_self i _ _
  rw [World.advance] at h ⊢
  split at h
  · rename_i input held upserts hreq
    split at h
    · refine .inl ((World.live_goOn _ h).resolve_right fun hcarries => ?_)
      cases upserts <;> cases hcarries
    · rename_i hnone
      refine (World.live_insert (World.live_done h)).imp_right fun htext => ?_
      rw [if_neg hnone, hself, hreq]
      exact ⟨submitted_of_mem_state htext, rfl, rfl⟩
  · rename_i memoryId state op restoredFromSeq hreq
    rcases World.live_applyState (World.live_done h) with h | htext
    · exact .inl h
    · exact .inl (hu.live_of_carries (i := i) (by rw [hreq]; exact decide_eq_true htext))
  · rename_i revId _
    have hlive := World.live_done h
    cases hmemory : u.memory with
    | none =>
      rw [World.scrub, hmemory] at hlive
      exact .inl hlive
    | some => exact .inl (World.live_scrub hlive (hmemory ▸ rfl)).weaken
  · exact .inl (World.live_delete (World.live_done h))
  · rcases World.live_goOn _ h with h | hcarries
    · exact .inl h
    · rcases World.carries_read hcarries with hlive | ⟨hsubmitted, hunspent⟩ | hcarried
      · exact .inl hlive
      · refine .inr ⟨hsubmitted, hunspent, ?_⟩
        rw [hself]
        generalize World.read memoryFileFitsFrame u i (u.requests i) = request at hcarries
        cases request <;> first | rfl | cases hcarries
      · exact .inl (hu.live_of_carries hcarried)

theorem unspent_of_advance (h : ((u.advance memoryFileFitsFrame i).requests i).unspent = true) :
    (u.requests i).unspent = true := by
  have hself (w : World) (request : Request) : (w.goOn i request).requests i = request := update_self i _ _
  rw [World.advance] at h
  split at h
  · rename_i hreq
    rw [hreq]
    rfl
  · rw [hself] at h
    cases h
  · rw [hself] at h
    cases h
  · rw [hself] at h
    cases h
  · rw [hself] at h
    exact World.unspent_of_read h

theorem advance_requests_of_ne {j : ℕ} (hj : j ≠ i) :
    (u.advance memoryFileFitsFrame i).requests j = u.requests j := by
  have hother (w : World) (request : Request) : (w.goOn i request).requests j = w.requests j := update_of_ne hj _ _
  rw [World.advance]
  split
  · split <;> exact hother _ _
  · rw [hother, World.applyState]
    split <;> rfl
  · rw [hother, World.scrub]
    split <;> rfl
  · exact hother _ _
  · exact hother _ _

theorem advance_submitted : (u.advance memoryFileFitsFrame i).submitted = u.submitted := by
  rw [World.advance]
  split
  · split <;> rfl
  · rw [World.applyState]
    split <;> rfl
  · rw [World.scrub]
    split <;> rfl
  · rfl
  · rfl

/-- Only a redaction takes texts away, those of its revision. -/
theorem redacted_of_advance (h : text ∈ (u.advance memoryFileFitsFrame i).redacted) : text ∈ u.redacted ∨
    ∃ revId, u.requests i = .scrub revId ∧ ∃ m ∈ u.memory, ∃ r ∈ m.revisions,
      r.id = revId ∧ r.redacted = false ∧ text ∈ r.state.texts := by
  rw [World.advance] at h
  split at h
  · split at h <;> exact .inl h
  · rw [World.applyState] at h
    split at h <;> exact .inl h
  · rename_i revId hreq
    exact (World.mem_redacted_scrub h).imp_right fun hrevision => ⟨revId, hreq, hrevision⟩
  · exact .inl h
  · exact .inl h

/-- Redacted revisions stay as they are. -/
theorem scrubbed_of_advance (hu : Traced u) {m' : Memory} (hm' : m' ∈ (u.advance memoryFileFitsFrame i).memory)
    {r' : Revision} (hr' : r' ∈ m'.revisions) (hredacted : r'.redacted = true) :
    r'.state = ⟨none, none, REDACTED_CONTENT⟩ := by
  rw [World.advance] at hm'
  split at hm'
  · split at hm'
    · exact hu.scrubbed m' hm' r' hr' hredacted
    · cases hm'
      dsimp only at hr'
      rcases eq_or_mem_of_mem_appendRevision hr' with rfl | hold
      · cases hredacted
      · cases hold
  · rw [World.applyState] at hm'
    split at hm'
    · rename_i m hfind
      cases hm'
      rcases eq_or_mem_of_mem_appendRevision hr' with rfl | hold
      · cases hredacted
      · exact hu.scrubbed m (World.mem_of_find hfind).1 r' hold hredacted
    · exact hu.scrubbed m' hm' r' hr' hredacted
  · obtain ⟨m, hm, -, r, hr, -, ⟨-, rfl⟩ | ⟨-, rfl⟩⟩ := World.mem_revisions_scrub hm' hr'
    · rfl
    · exact hu.scrubbed m hm r' hr hredacted
  · exact hu.scrubbed m' (Option.filter_eq_some_iff.mp hm').1 r' hr' hredacted
  · exact hu.scrubbed m' hm' r' hr' hredacted

/-- What redaction takes away is not live any more, where no other copy of it was. -/
theorem not_live_of_alone (halone : Alone u (.advance i)) {revId : ℕ} (hreq : u.requests i = .scrub revId)
    {m : Memory} (hm : m ∈ u.memory) {r : Revision} (hr : r ∈ m.revisions) (hid : r.id = revId)
    (hkept : r.redacted = false) (htext : text ∈ r.state.texts) :
    ¬ (u.advance memoryFileFitsFrame i).Live none text := by
  rw [Alone, hreq] at halone
  rw [World.advance, hreq]
  intro hlive
  refine halone m hm r hr hid hkept text htext (World.live_scrub (World.live_done hlive) ?_)
  rw [Option.mem_def.mp hm]
  rfl

theorem advance (h : Traced u) (halone : Alone u (.advance i)) : Traced (u.advance memoryFileFitsFrame i) where
  idle := by
    intro j hj
    rw [advance_submitted] at hj
    by_cases hji : j = i
    · rw [hji] at hj ⊢
      have hdone := h.idle i hj
      rw [World.advance, hdone]
      exact update_self i _ _
    · rw [advance_requests_of_ne hji]
      exact h.idle j hj
  fresh := by
    intro j hj text htext
    rw [advance_submitted] at hj
    have hheld : (text ∈ u.redacted ∨ u.Live none text) ∨ text.submitted = some i ∧ (u.requests i).unspent = true ∧
        ((u.advance memoryFileFitsFrame i).requests i).unspent = false := by
      rcases htext with hredacted | hlive
      · rcases redacted_of_advance hredacted with hold | ⟨revId, -, m, hm, r, hr, -, hkept, htext⟩
        · exact .inl (.inl hold)
        · exact .inl (.inr (.inl ⟨m, hm, .inr ⟨r, hr, by simp, hkept, htext⟩⟩))
      · exact (h.live_of_advance hlive).imp_left .inr
    by_cases hji : j = i
    · rw [hji] at hj ⊢
      rcases hheld with hheld | ⟨-, hunspent, hspent⟩
      · exact h.fresh i (hj.imp_left unspent_of_advance) text hheld
      · rcases hj with hj | hidle
        · rw [hspent] at hj
          cases hj
        · rw [h.idle i hidle] at hunspent
          cases hunspent
    · rw [advance_requests_of_ne hji] at hj
      rcases hheld with hheld | ⟨hsubmitted, -⟩
      · exact h.fresh j hj text hheld
      · rw [hsubmitted]
        exact fun heq => hji (Option.some.inj heq).symm
  authored := by
    intro text htext
    rcases redacted_of_advance htext with hold | ⟨revId, -, m, hm, r, hr, -, hkept, htext⟩
    · exact h.authored text hold
    · exact (h.live text (.inl ⟨m, hm, .inr ⟨r, hr, by simp, hkept, htext⟩⟩)).1
  scrubbed := fun m hm r hr hredacted => h.scrubbed_of_advance hm hr hredacted
  live := by
    intro text hlive
    have hnew : text ∉ u.redacted → text ∉ (u.advance memoryFileFitsFrame i).redacted := by
      intro hnot hredacted
      rcases redacted_of_advance hredacted with hold | ⟨revId, hreq, m, hm, r, hr, hid, hkept, htext⟩
      · exact hnot hold
      · exact not_live_of_alone halone hreq hm hr hid hkept htext hlive
    rcases h.live_of_advance hlive with hold | ⟨hsubmitted, hunspent, -⟩
    · exact ⟨(h.live text hold).1, hnew (h.live text hold).2⟩
    · refine ⟨fun hnone => ?_, hnew fun hredacted => ?_⟩
      · rw [hnone] at hsubmitted
        cases hsubmitted
      · exact h.fresh i (.inl hunspent) text (.inl hredacted) hsubmitted

theorem submit (h : Traced u) (call : Call) :
    Traced { u.goOn u.submitted call.request with submitted := u.submitted + 1 } := by
  have hlive {text : Text} (hlive : World.Live { u.goOn u.submitted call.request with submitted := u.submitted + 1 }
      none text) : u.Live none text := by
    rcases hlive with hmemory | ⟨j, hj, hcarries⟩
    · exact .inl hmemory
    · have hcarries' : (update u.requests u.submitted call.request j).carries text = true := hcarries
      by_cases hlt : j = u.submitted
      · rw [hlt, update_self] at hcarries'
        cases call <;> cases hcarries'
      · rw [update_of_ne hlt] at hcarries'
        exact h.live_of_carries hcarries'
  exact {
    idle := by
      intro j hj
      have hlt : u.submitted < j := hj
      exact (update_of_ne (Nat.ne_of_gt hlt) _ _).trans (h.idle j (Nat.le_of_lt hlt))
    fresh := by
      intro j hj text htext
      refine h.fresh j ?_ text (htext.imp_right hlive)
      rcases hj with hunspent | hidle
      · by_cases hlt : j = u.submitted
        · exact .inr (Nat.le_of_eq hlt.symm)
        · refine .inl ?_
          have hunspent' : (update u.requests u.submitted call.request j).unspent = true := hunspent
          rwa [update_of_ne hlt] at hunspent'
      · exact .inr (Nat.le_of_succ_le hidle)
    authored := h.authored
    scrubbed := h.scrubbed
    live := fun text htext => h.live text (hlive htext) }

theorem fail (h : Traced u) (i : ℕ) : Traced (u.goOn i .done) where
  idle := by
    intro j hj
    by_cases hji : j = i
    · exact hji ▸ update_self i _ _
    · exact (update_of_ne hji _ _).trans (h.idle j hj)
  fresh := by
    intro j hj text htext
    refine h.fresh j ?_ text (htext.imp_right World.live_done)
    refine hj.imp_left fun hunspent => ?_
    have hne : j ≠ i := by
      rintro rfl
      rw [World.goOn] at hunspent
      simp [Request.unspent] at hunspent
    rwa [show (u.goOn i .done).requests j = u.requests j from update_of_ne hne _ _] at hunspent
  authored := h.authored
  scrubbed := h.scrubbed
  live := fun text htext => h.live text (World.live_done htext)

/-- An undisturbed request keeps every text traced. -/
theorem step {v : World} {e : Event} (h : Traced u) (halone : Alone u e)
    (hstep : step memoryFileFitsFrame u e = some v) : Traced v := by
  cases e with
  | submit call =>
    obtain rfl := Option.some.inj (Option.ite_none_right_eq_some.mp hstep).2
    exact h.submit call
  | advance =>
    cases hstep
    exact h.advance halone
  | fail i =>
    cases hstep
    exact h.fail i

/-- Nothing redacted is in the head or in a revision: the live ones are apart from it, and the others are empty. -/
theorem clean (h : Traced u) : u.Clean := by
  intro m hm text htext
  refine ⟨fun hhead => (h.live text (.inl ⟨m, hm, .inl hhead⟩)).2 htext, fun r hr hrevision => ?_⟩
  cases hkept : r.redacted with
  | false => exact (h.live text (.inl ⟨m, hm, .inr ⟨r, hr, by simp, hkept, hrevision⟩⟩)).2 htext
  | true =>
    rw [h.scrubbed m hm r hr hkept] at hrevision
    rw [show text = REDACTED_CONTENT from mem_singleton.mp hrevision] at htext
    exact h.authored _ htext rfl

end Traced

section Runs

variable (memoryFileFitsFrame : MemoryState → Bool)

/-- An empty table holds no text. -/
theorem Traced.empty : Traced World.empty := by
  have hnone {text : Text} : ¬ World.empty.Live none text := by
    rintro (⟨m, hm, -⟩ | ⟨j, hj, -⟩)
    · cases hm
    · cases hj
  exact {
    idle := fun _ _ => rfl
    fresh := fun i _ text htext => htext.elim (fun h => by cases h) fun h => absurd h hnone
    authored := fun text htext => by cases htext
    scrubbed := fun m hm => by cases hm
    live := fun text htext => absurd htext hnone }

/-- A redaction takes away all that its revision had. -/
theorem scrub_redacts (u : World) (i revId : ℕ) (hreq : u.requests i = .scrub revId) :
    (∀ m ∈ u.memory, ∀ r ∈ m.revisions, r.id = revId → r.redacted = false →
        ∀ text ∈ r.state.texts, text ∈ (u.advance memoryFileFitsFrame i).redacted) ∧
      ∀ m ∈ (u.advance memoryFileFitsFrame i).memory, ∀ r ∈ m.revisions, r.id = revId → r.redacted = true := by
  rw [World.advance, hreq]
  constructor
  · intro m hm r hr hid hkept text htext
    have hmem : text ∈ (u.scrub revId).redacted := by
      rw [World.scrub, Option.mem_def.mp hm]
      exact mem_append_left _ (mem_flatMap.mpr ⟨r, mem_filter.mpr ⟨hr, decide_eq_true ⟨hid, hkept⟩⟩, htext⟩)
    exact hmem
  · intro m' hm' r' hr' hid
    obtain ⟨m, -, -, r, -, -, ⟨-, rfl⟩ | ⟨hne, -⟩⟩ := World.mem_revisions_scrub (w := u) hm' hr'
    · rfl
    · exact absurd hid hne

/-- What has been redacted stays on the record. -/
theorem redacted_advance {u : World} {i : ℕ} {text : Text} (h : text ∈ u.redacted) :
    text ∈ (u.advance memoryFileFitsFrame i).redacted := by
  rw [World.advance]
  split
  · split <;> exact h
  · rw [World.applyState]
    split <;> exact h
  · rw [World.scrub]
    split
    · exact mem_append_right _ h
    · exact h
  · exact h
  · exact h

/-- A step redacts what it says. -/
theorem step_redacts {u v : World} {e : Event} (hstep : step memoryFileFitsFrame u e = some v) : Redacts u e v := by
  cases e with
  | submit call =>
    obtain rfl := Option.some.inj (Option.ite_none_right_eq_some.mp hstep).2
    exact ⟨fun _ h => h, fun i _ he => by cases he⟩
  | advance j =>
    cases hstep
    refine ⟨fun _ h => redacted_advance memoryFileFitsFrame h, fun i revId he hreq => ?_⟩
    cases he
    exact scrub_redacts memoryFileFitsFrame u j revId hreq
  | fail j =>
    cases hstep
    exact ⟨fun _ h => h, fun i _ he => by cases he⟩

/-- Where a revision is redacted only when no other copy of its texts is live, redaction is final: what it takes away is
never again in the head or in a revision. -/
theorem redaction_final (es : List Event)
    (hmeets : Runs.Meets (step memoryFileFitsFrame) Alone World.empty es) :
    Runs.Throughout (step memoryFileFitsFrame) (fun w => w.Faithful ∧ w.Clean) World.empty es ∧
      Runs.Each (step memoryFileFitsFrame) Redacts World.empty es := by
  refine ⟨fun front back w hsplit hrun => ?_, fun front e back u v _ _ hstep => ?_⟩
  · have hboth := throughout_of_meets (step memoryFileFitsFrame) (I := fun w => Kept w ∧ Traced w)
      (fun u e v hu halone hv => ⟨hu.1.step hv, hu.2.step halone hv⟩) ⟨.empty, .empty⟩ hmeets
    obtain ⟨hkept, htraced⟩ := hboth front back w hsplit hrun
    exact ⟨hkept.faithful, htraced.clean⟩
  · exact step_redacts memoryFileFitsFrame hstep

end Runs

instance (w : World) (except : Option ℕ) (text : Text) : Decidable (w.Live except text) :=
  inferInstanceAs (Decidable (_ ∨ _))

instance (w : World) (request : Request) : Decidable (request.Alone w) := by
  cases request <;> (unfold Request.Alone; infer_instance)

instance (w : World) (e : Event) : Decidable (Alone w e) := by
  cases e <;> (unfold Alone; infer_instance)

/-- A memory is saved over and the old revision is redacted, between the two reads of a restore and of a second
redaction of it, while a save is under way. -/
def redacted : List Event :=
  [.submit (.create ⟨"a secret", some "t", none⟩ 0), .advance 0, .advance 0,
    .submit (.update 0 ⟨some none, none, some "a note"⟩), .advance 1, .advance 1, .submit (.restore 0 0), .advance 2,
    .submit (.redact 0 0), .advance 3, .advance 3, .submit (.redact 0 0), .advance 4,
    .submit (.upsert ⟨"a note more", none, none⟩ 1), .advance 5, .advance 3, .advance 2, .advance 4, .advance 5]

/-- The secret is redacted, and neither in the head nor in a revision. -/
theorem redaction_final_redacted :
    ∃ w, run (step fun _ => true) World.empty redacted = some w ∧ ⟨"a secret", some 0⟩ ∈ w.redacted ∧
      w.Clean := by
  obtain ⟨w, hw⟩ := Option.isSome_iff_exists.mp
    (show (run (step fun _ => true) .empty redacted).isSome by decide +kernel)
  have hsecret : (run (step fun _ => true) .empty redacted).all
      (fun w => decide (⟨"a secret", some 0⟩ ∈ w.redacted)) = true := by
    decide +kernel
  rw [hw, Option.all_some, decide_eq_true_eq] at hsecret
  have hall := (redaction_final (fun _ => true) redacted (by decide +kernel)).1
  exact ⟨w, hw, hsecret, (hall redacted [] w (List.append_nil _).symm hw).2⟩

/-- A restore has read the old revision when it is redacted. -/
def restoredLate : List Event :=
  [.submit (.create ⟨"a secret", none, none⟩ 0), .advance 0, .advance 0, .submit (.update 0 ⟨none, none, some "a note"⟩),
    .advance 1, .advance 1, .submit (.restore 0 0), .advance 2, .advance 2, .submit (.redact 0 0), .advance 3, .advance 3,
    .advance 3, .advance 2]

/-- The restore writes the secret back. -/
theorem secret_restored :
    ¬ Runs.Throughout (step fun _ => true) (fun w => w.Faithful ∧ w.Clean) World.empty restoredLate := by
  intro hall
  obtain ⟨w, hw⟩ := Option.isSome_iff_exists.mp
    (show (run (step fun _ => true) .empty restoredLate).isSome by decide +kernel)
  have hend : (run (step fun _ => true) .empty restoredLate).all (fun w =>
      w.memory.any fun m => decide (⟨"a secret", some 0⟩ ∈ m.state.texts ∧ ⟨"a secret", some 0⟩ ∈ w.redacted)) =
      true := by
    decide +kernel
  rw [hw, Option.all_some, Option.any_eq_true] at hend
  obtain ⟨m, hm, hboth⟩ := hend
  obtain ⟨htext, hredacted⟩ := of_decide_eq_true hboth
  exact ((hall restoredLate [] w (List.append_nil _).symm hw).2 m hm _ hredacted).1 htext

end Onecli.Memories
