import Onecli.Postgres.Session

/-!
# Nothing reaches the database unjudged

Every frame of the client has one fate, in the order the frames were sent: its unit ran after
the verdict `Run`, its unit was refused, it was the lone `Terminate`, it belonged to a `COPY`,
or it was discarded after a refusal. What the server gets is exactly the frames whose fate says
so.
-/

namespace Onecli.Postgres.Session

open Gateway (Str)
open List Option Runs

/-- What becomes of the frames of the client. -/
inductive Fate where
  | ran (unit : Judged)
  | refused (unit : Judged)
  | terminated (frame : Frame)
  | copied (frame : Frame)
  | discarded (frame : Frame)

/-- The frames that share a fate. -/
def Fate.frames : Fate → List Frame
  | .ran unit => unit.frames
  | .refused unit => unit.frames
  | .terminated frame => [frame]
  | .copied frame => [frame]
  | .discarded frame => [frame]

/-- The frames that the server gets. -/
def Fate.written : Fate → List Frame
  | .ran unit => unit.frames
  | .refused _ => []
  | .terminated frame => [frame]
  | .copied frame => [frame]
  | .discarded _ => []

/-- The frames that the client sent, in order. -/
def clientFrames (es : List Event) : List Frame :=
  es.filterMap fun
    | .client frame => some frame
    | _ => none

/-- The server has asked for the data of a `COPY`, and the client has not ended it since. -/
def CopyOpen (es : List Event) : Prop :=
  ∃ es₁ frame hasFrame es₂, es = es₁ ++ .server frame hasFrame :: es₂ ∧ frame.Is 'G' ∧
    ∀ sent, .client sent ∈ es₂ → ¬ sent.Is 'c' ∧ ¬ sent.Is 'f'

/-- The step refuses a unit. -/
def Refuses (s : State) (e : Event) (unit : Judged) : Prop :=
  (s.phase = .judging unit ∧ ∃ kind message, e = .refuse kind message) ∨
    (s.phase = .refreshing unit ∧ e = .unavailable)

/-- A unit without a `Sync` was refused, and the client has sent none since. -/
def Discarding (es : List Event) : Prop :=
  ∃ es₁ e es₂ s unit, es = es₁ ++ e :: es₂ ∧ run step .init es₁ = some s ∧
    Refuses s e unit ∧ unit.synced = false ∧ ∀ sent, .client sent ∈ es₂ → ¬ sent.Is 'S'

/-- A message of a unit is covered by the unit's verdict, which is at least as strict as what the
message does: what the classifier says of its SQL, and what the statement that it binds or executes
runs, as the unit's earlier messages left the statements. What cannot be read is refused. -/
structure Covered (unit : Judged) (analyze : Str → Analysis) (j : Judging) (frame : Frame) : Prop where
  verdict : (judgeMessage analyze (unit.frames.length == 1) j frame).2.rank ≤ unit.classified.rank
  query : frame.Is 'Q' → unit.classified.Refused ∨ unit.frames = [frame] ∧
    ∃ sql, cstr frame = some sql ∧ (analyze sql).classified.rank ≤ unit.classified.rank
  parsed : frame.Is 'P' → unit.classified.Refused ∨ ∃ name sql, parseMessage frame = some (name, sql) ∧
    ¬ (analyze sql).classified.Refused
  bound : frame.Is 'B' → unit.classified.Refused ∨ ∃ portal statement,
    bindMessage frame = some (portal, statement) ∧ (j.draft.runsStatement statement).rank ≤ unit.classified.rank
  executed : frame.Is 'E' → unit.classified.Refused ∨ ∃ portal, nameMessage frame = some portal ∧
    (j.draft.execute portal).rank ≤ unit.classified.rank
  readable : unit.classified.Refused ∨ ∃ c ∈ "QPBECSDH".toList, frame.Is c

/-- The unit is what `judge` makes of its frames, and its verdict covers every one of them. -/
def JudgedAt (s : State) (unit : Judged) : Prop :=
  ∃ analyze, unit = judge analyze unit.frames s.names ∧
    ∀ front frame back, unit.frames = front ++ frame :: back → Covered unit (analyze front.length)
      (front.zipIdx.foldl (judgeStep analyze (unit.frames.length == 1)) ⟨.new s.names, .housekeeping, [], false⟩) frame

/-- What the events of a session must have been for a fate, after the frames that had their fates
before: the event that decides it comes when those frames and its own are all that the client sent. -/
def Fate.Justified (es : List Event) (front : List Fate) : Fate → Prop
  | .ran unit => ∃ es₁ es₂ s, es = es₁ ++ .run :: es₂ ∧
      clientFrames es₁ = front.flatMap Fate.frames ++ unit.frames ∧ run step .init es₁ = some s ∧
      s.phase = .judging unit ∧ JudgedAt s unit
  | .refused unit => ∃ es₁ e es₂ s, es = es₁ ++ e :: es₂ ∧
      clientFrames es₁ = front.flatMap Fate.frames ++ unit.frames ∧ run step .init es₁ = some s ∧
      Refuses s e unit ∧ JudgedAt s unit
  | .terminated frame => frame.Is 'X' ∧ ∃ es₁ es₂, es = es₁ ++ .client frame :: es₂ ∧
      clientFrames es₁ = front.flatMap Fate.frames
  | .copied frame =>
    (frame.Is 'd' ∨ frame.Is 'c' ∨ frame.Is 'f' ∨ frame.Is 'H' ∨ frame.Is 'S') ∧
      ∃ es₁ es₂, es = es₁ ++ .client frame :: es₂ ∧
        clientFrames es₁ = front.flatMap Fate.frames ∧ CopyOpen es₁
  | .discarded frame => ∃ es₁ es₂, es = es₁ ++ .client frame :: es₂ ∧
      clientFrames es₁ = front.flatMap Fate.frames ∧ Discarding es₁

/-- The frames that have no fate yet. -/
def Phase.pending : Phase → List Frame
  | .reading unit => unit.frames
  | .classifying frames => frames
  | .refreshing unit => unit.frames
  | .judging unit => unit.frames
  | _ => []

/-- Every frame of the client has its fate, but for those at the end, and the server got the
frames whose fate says so. -/
def Accounted (es : List Event) (toServer rest : List Frame) : Prop :=
  ∃ fates : List Fate, clientFrames es = fates.flatMap Fate.frames ++ rest ∧
    toServer = fates.flatMap Fate.written ∧
    ∀ front fate back, fates = front ++ fate :: back → fate.Justified es front

/-- What always holds of a session after its events. -/
structure Inv (es : List Event) (s : State) : Prop where
  accounted : ∃ rest, Accounted es s.toServer rest ∧ (s.phase = .closed ∨ rest = s.phase.pending)
  judged : ∀ unit, s.phase = .refreshing unit ∨ s.phase = .judging unit → JudgedAt s unit
  copying : s.phase = .copying → CopyOpen es
  discarding : s.phase = .discarding → Discarding es

section Judging

variable (analyze : ℕ → Str → Analysis)

/-- A message makes what is judged of a unit no less strict. -/
theorem rank_le_judgeStep (alone : Bool) (j : Judging) (frame : Frame × ℕ) :
    j.classified.rank ≤ (judgeStep analyze alone j frame).classified.rank ∧
      (judgeMessage (analyze frame.2) alone j frame.1).2.rank ≤ (judgeStep analyze alone j frame).classified.rank := by
  have hkept : (judgeMessage (analyze frame.2) alone j frame.1).1.classified = j.classified := by
    unfold judgeMessage
    grind
  constructor
  · rw [← hkept]
    exact Classified.rank_le_combine_left _ _
  · exact Classified.rank_le_combine_right _ _

/-- Neither do any number of messages. -/
theorem rank_le_foldl_judgeStep (alone : Bool) (j : Judging) (frames : List (Frame × ℕ)) :
    j.classified.rank ≤ (frames.foldl (judgeStep analyze alone) j).classified.rank := by
  induction frames generalizing j with
  | nil => exact le_rfl
  | cons frame frames ih => exact (rank_le_judgeStep analyze alone j frame).1.trans (ih _)

/-- The verdict of `sql_effects` is at least the classifier's. -/
theorem rank_le_sqlEffects (analysis : Analysis) (draft : Draft) :
    analysis.classified.rank ≤ (sqlEffects analysis draft).2.rank := by
  unfold sqlEffects
  generalize analysis.classified = verdict
  induction analysis.effects generalizing draft verdict with
  | nil => exact le_rfl
  | cons effect effects ih => exact (Classified.rank_le_combine_left _ _).trans (ih _ _)

/-- The class of a statement that the protocol prepares is at least the classifier's. -/
theorem rank_le_parseEffects (classified : Classified) (effects : List Effect) :
    classified.rank ≤ (parseEffects classified effects).1.rank := by
  unfold parseEffects
  generalize (none : Option Key) = executes
  induction effects generalizing classified executes with
  | nil => exact le_rfl
  | cons effect effects ih =>
    refine le_trans ?_ (ih _ _)
    split
    · exact le_rfl
    · exact Classified.rank_le_combine_left _ _

/-- A `Parse` of what the classifier refuses is refused. -/
theorem parse_refused (name : List UInt8) {analysis : Analysis} (draft : Draft)
    (hrefused : analysis.classified.Refused) : (parse name analysis draft).2.Refused := by
  have hclass : (parseEffects analysis.classified analysis.effects).1.Refused :=
    hrefused.trans (rank_le_parseEffects analysis.classified analysis.effects)
  unfold parse
  dsimp only
  split
  · rw [if_pos hclass]
    exact hclass
  · exact le_rfl

/-- A `Bind` is judged by what its statement runs, or refused. -/
theorem rank_runsStatement_le_bind (draft : Draft) (portal statement : List UInt8) :
    (draft.bind portal statement).2.1.Refused ∨
      (draft.bind portal statement).2.1 = draft.runsStatement statement := by
  unfold Draft.bind
  grind [Classified.Refused, Classified.rank, Draft.runsStatement]

/-- A frame has one tag. -/
theorem not_is_of_is {frame : Frame} {c d : Char} (h : frame.Is c) (hne : byte c ≠ byte d) : ¬ frame.Is d :=
  fun hd => hne (h.symm.trans hd)

/-- A unit whose verdict is at least a message's covers the message. -/
theorem covered_of_rank_le {unit : Judged} {analyze : Str → Analysis} {j : Judging} {frame : Frame}
    (hmem : frame ∈ unit.frames)
    (h : (judgeMessage analyze (unit.frames.length == 1) j frame).2.rank ≤ unit.classified.rank) :
    Covered unit analyze j frame where
  verdict := h
  query := fun htag => by
    unfold judgeMessage at h
    rw [if_pos htag] at h
    by_cases halone : unit.frames.length = 1
    · have hone : unit.frames = [frame] := by
        obtain ⟨only, honly⟩ := length_eq_one_iff.mp halone
        rw [honly, mem_singleton] at hmem
        rw [honly, hmem]
      rw [if_pos (beq_iff_eq.mpr halone)] at h
      cases hsql : cstr frame with
      | none =>
        rw [hsql] at h
        exact .inl h
      | some sql =>
        rw [hsql] at h
        exact .inr ⟨hone, sql, rfl, (rank_le_sqlEffects (analyze sql) j.draft).trans h⟩
    · rw [if_neg (beq_eq_false_iff_ne.mpr halone ▸ Bool.false_ne_true)] at h
      exact .inl h
  parsed := fun htag => by
    unfold judgeMessage at h
    rw [if_neg (not_is_of_is htag (by decide)), if_pos htag] at h
    cases hparse : parseMessage frame with
    | none =>
      rw [hparse] at h
      exact .inl h
    | some message =>
      rw [hparse] at h
      by_cases hrefused : (analyze message.2).classified.Refused
      · exact .inl ((parse_refused message.1 j.draft hrefused).trans h)
      · exact .inr ⟨message.1, message.2, rfl, hrefused⟩
  bound := fun htag => by
    unfold judgeMessage at h
    rw [if_neg (not_is_of_is htag (by decide)), if_neg (not_is_of_is htag (by decide)), if_pos htag] at h
    cases hbind : bindMessage frame with
    | none =>
      rw [hbind] at h
      exact .inl h
    | some message =>
      rw [hbind] at h
      rcases rank_runsStatement_le_bind j.draft message.1 message.2 with hrefused | hruns
      · exact .inl (hrefused.trans h)
      · exact .inr ⟨message.1, message.2, rfl, hruns ▸ h⟩
  executed := fun htag => by
    unfold judgeMessage at h
    rw [if_neg (not_is_of_is htag (by decide)), if_neg (not_is_of_is htag (by decide)),
      if_neg (not_is_of_is htag (by decide)), if_pos htag] at h
    cases hname : nameMessage frame with
    | none =>
      rw [hname] at h
      exact .inl h
    | some portal =>
      rw [hname] at h
      exact .inr ⟨portal, rfl, h⟩
  readable := by
    by_cases hknown : ∃ c ∈ "QPBECSDH".toList, frame.Is c
    · exact .inr hknown
    · have hother (c : Char) (hc : c ∈ "QPBECSDH".toList) : ¬ frame.Is c := fun htag => hknown ⟨c, hc, htag⟩
      left
      unfold judgeMessage at h
      rw [if_neg (hother 'Q' (by decide)), if_neg (hother 'P' (by decide)), if_neg (hother 'B' (by decide)),
        if_neg (hother 'E' (by decide)), if_neg (hother 'C' (by decide)), if_neg (hother 'S' (by decide)),
        if_neg (not_or.mpr ⟨hother 'D' (by decide), hother 'H' (by decide)⟩)] at h
      split at h <;> exact h

/-- The verdict of `judge` covers every message of its unit. -/
theorem judge_judgedAt (s : State) (frames : List Frame) : JudgedAt s (judge analyze frames s.names) := by
  refine ⟨analyze, rfl, fun front frame back hsplit => covered_of_rank_le ?_ ?_⟩
  · rw [hsplit]
    exact mem_append_right _ mem_cons_self
  · have hverdict : (judge analyze frames s.names).classified = ((front.zipIdx ++ (frame, front.length) ::
        back.zipIdx (front.length + 1)).foldl (judgeStep analyze (frames.length == 1))
          ⟨.new s.names, .housekeeping, [], false⟩).classified := by
      rw [show frames = front ++ frame :: back from hsplit]
      unfold judge
      rw [zipIdx_append, zipIdx_cons, Nat.zero_add]
    rw [hverdict, foldl_append, foldl_cons]
    exact (rank_le_judgeStep analyze (frames.length == 1) _ (frame, front.length)).2.trans
      (rank_le_foldl_judgeStep analyze (frames.length == 1) _ _)

end Judging

section Histories

variable {es : List Event} {e : Event}

theorem Fate.Justified.append {fate : Fate} {front : List Fate} (h : fate.Justified es front) :
    fate.Justified (es ++ [e]) front := by
  have hmore {es₁ es₂ : List Event} {first : Event} (hsplit : es = es₁ ++ first :: es₂) :
      es ++ [e] = es₁ ++ first :: (es₂ ++ [e]) := by
    rw [hsplit, append_assoc, cons_append]
  cases fate with
  | ran =>
    obtain ⟨es₁, es₂, s, hsplit, hrest⟩ := h
    exact ⟨es₁, _, s, hmore hsplit, hrest⟩
  | refused =>
    obtain ⟨es₁, first, es₂, s, hsplit, hrest⟩ := h
    exact ⟨es₁, first, _, s, hmore hsplit, hrest⟩
  | terminated =>
    obtain ⟨htag, es₁, es₂, hsplit, hplace⟩ := h
    exact ⟨htag, es₁, _, hmore hsplit, hplace⟩
  | copied =>
    obtain ⟨htag, es₁, es₂, hsplit, hopen⟩ := h
    exact ⟨htag, es₁, _, hmore hsplit, hopen⟩
  | discarded =>
    obtain ⟨es₁, es₂, hsplit, hdisc⟩ := h
    exact ⟨es₁, _, hmore hsplit, hdisc⟩

theorem CopyOpen.append (h : CopyOpen es) (he : ∀ sent, e = .client sent → ¬ sent.Is 'c' ∧ ¬ sent.Is 'f') :
    CopyOpen (es ++ [e]) := by
  obtain ⟨es₁, frame, hasFrame, es₂, hsplit, hg, hsince⟩ := h
  refine ⟨es₁, frame, hasFrame, es₂ ++ [e], ?_, hg, fun sent hsent => ?_⟩
  · rw [hsplit, append_assoc, cons_append]
  · rcases mem_append.mp hsent with hold | hnew
    · exact hsince sent hold
    · exact he sent (mem_singleton.mp hnew).symm

theorem Discarding.append (h : Discarding es) (he : ∀ sent, e = .client sent → ¬ sent.Is 'S') :
    Discarding (es ++ [e]) := by
  obtain ⟨es₁, first, es₂, s, unit, hsplit, hrun, hrefuses, hsynced, hsince⟩ := h
  refine ⟨es₁, first, es₂ ++ [e], s, unit, ?_, hrun, hrefuses, hsynced, fun sent hsent => ?_⟩
  · rw [hsplit, append_assoc, cons_append]
  · rcases mem_append.mp hsent with hold | hnew
    · exact hsince sent hold
    · exact he sent (mem_singleton.mp hnew).symm

/-- A frame of the client is its last. -/
theorem clientFrames_append_client (frame : Frame) :
    clientFrames (es ++ [.client frame]) = clientFrames es ++ [frame] := by
  unfold clientFrames
  rw [filterMap_append]
  rfl

/-- Other events add no frame. -/
theorem clientFrames_append_of_ne (he : ∀ frame, e ≠ .client frame) :
    clientFrames (es ++ [e]) = clientFrames es := by
  unfold clientFrames
  rw [filterMap_append]
  cases e with
  | client frame => exact absurd rfl (he frame)
  | _ => exact append_nil _

/-- Other events leave the account. -/
theorem Accounted.other {toServer rest : List Frame} (h : Accounted es toServer rest)
    (he : ∀ frame, e ≠ .client frame) : Accounted (es ++ [e]) toServer rest := by
  obtain ⟨fates, hframes, hwritten, hjustified⟩ := h
  refine ⟨fates, ?_, hwritten, fun front fate back hfate => (hjustified front fate back hfate).append⟩
  rw [clientFrames_append_of_ne he, hframes]

/-- A frame of the client is pending. -/
theorem Accounted.client {toServer rest : List Frame} (h : Accounted es toServer rest)
    (frame : Frame) : Accounted (es ++ [.client frame]) toServer (rest ++ [frame]) := by
  obtain ⟨fates, hframes, hwritten, hjustified⟩ := h
  refine ⟨fates, ?_, hwritten, fun front fate back hfate => (hjustified front fate back hfate).append⟩
  rw [clientFrames_append_client, hframes, append_assoc]

/-- A fate is justified by its place. -/
theorem Accounted.fate (fate : Fate) {toServer : List Frame} (h : Accounted es toServer fate.frames)
    (hfate : ∀ front : List Fate, clientFrames es = front.flatMap Fate.frames ++ fate.frames → fate.Justified es front) :
    Accounted es (toServer ++ fate.written) [] := by
  obtain ⟨fates, hframes, hwritten, hjustified⟩ := h
  refine ⟨fates ++ [fate], ?_, ?_, fun front other back hsplit => ?_⟩
  · rw [hframes, flatMap_append, append_nil, flatMap_singleton]
  · rw [hwritten, flatMap_append, flatMap_singleton]
  · rcases back.eq_nil_or_concat with rfl | ⟨later, last, rfl⟩
    · obtain ⟨hfront, hlast⟩ := append_inj' hsplit rfl
      cases hlast
      exact hfate front (hfront ▸ hframes)
    · rw [concat_eq_append, ← cons_append, ← append_assoc] at hsplit
      exact hjustified front other later (append_inj' hsplit rfl).1

end Histories

section Steps

variable {es : List Event} {e : Event} {s s' : State}

/-- An open session has its frames pending. -/
theorem Inv.waiting (h : Inv es s) (hopen : s.phase ≠ .closed) :
    Accounted es s.toServer s.phase.pending := by
  obtain ⟨rest, hacct, hrest⟩ := h.accounted
  rw [← hrest.resolve_left hopen]
  exact hacct

theorem Inv.closed {rest : List Frame} (h : Accounted es s'.toServer rest)
    (hclosed : s'.phase = .closed) : Inv es s' where
  accounted := ⟨rest, h, .inl hclosed⟩
  judged := by
    rw [hclosed]
    intro unit hunit
    rcases hunit with hunit | hunit <;> cases hunit
  copying := fun hcopying => by rw [hclosed] at hcopying; cases hcopying
  discarding := fun hdisc => by rw [hclosed] at hdisc; cases hdisc

/-- A closed session keeps the account. -/
theorem Inv.close (h : Inv es s) (hserver : s'.toServer = s.toServer)
    (hclosed : s'.phase = .closed) : Inv (es ++ [e]) s' := by
  obtain ⟨rest, hacct, -⟩ := h.accounted
  rw [← hserver] at hacct
  cases e with
  | client frame => exact .closed (hacct.client frame) hclosed
  | _ => exact .closed (hacct.other fun _ hne => by cases hne) hclosed

/-- A phase that judges no unit, and is neither in a `COPY` nor after a refusal. -/
def Phase.Plain (phase : Phase) : Prop :=
  (∃ unit, phase = .reading unit) ∨ (∃ frames, phase = .classifying frames) ∨ ∃ batch, phase = .relaying batch

/-- Outside a unit the account is kept. -/
theorem Inv.plain (h : Accounted es s'.toServer s'.phase.pending) (hplain : s'.phase.Plain) :
    Inv es s' where
  accounted := ⟨_, h, .inr rfl⟩
  judged := by
    intro unit hunit
    rcases hplain with ⟨_, hp⟩ | ⟨_, hp⟩ | ⟨_, hp⟩ <;> rw [hp] at hunit <;>
      rcases hunit with hunit | hunit <;> cases hunit
  copying := by
    intro hcopying
    rcases hplain with ⟨_, hp⟩ | ⟨_, hp⟩ | ⟨_, hp⟩ <;> rw [hp] at hcopying <;> cases hcopying
  discarding := by
    intro hdisc
    rcases hplain with ⟨_, hp⟩ | ⟨_, hp⟩ | ⟨_, hp⟩ <;> rw [hp] at hdisc <;> cases hdisc

theorem Inv.judges {unit : Judged} (h : Accounted es s'.toServer unit.frames)
    (hphase : s'.phase = .refreshing unit ∨ s'.phase = .judging unit) (hjudged : JudgedAt s' unit) :
    Inv es s' where
  accounted := by
    refine ⟨_, h, .inr ?_⟩
    rcases hphase with hphase | hphase <;> rw [hphase] <;> rfl
  judged := by
    intro unit' hunit'
    have hsame : unit' = unit := by
      rcases hphase with hphase | hphase <;> rw [hphase] at hunit' <;>
        rcases hunit' with hunit' | hunit' <;> cases hunit' <;> rfl
    rw [hsame]
    exact hjudged
  copying := by
    intro hcopying
    rcases hphase with hphase | hphase <;> rw [hphase] at hcopying <;> cases hcopying
  discarding := by
    intro hdisc
    rcases hphase with hphase | hphase <;> rw [hphase] at hdisc <;> cases hdisc

section

variable (h : Inv es s)
include h

theorem Inv.readUnit {unit : UnitBuffer} (hphase : s.phase = .reading unit) (frame : Frame) : Inv
    (es ++ [.client frame]) (s.readUnit unit frame) := by
  have hwait := (h.waiting (by rw [hphase]; exact fun hc => by cases hc)).client frame
  rw [hphase] at hwait
  unfold State.readUnit UnitBuffer.push
  by_cases hlarge : maxUnitMessages < (unit.frames ++ [frame]).length ∨ maxUnitBytes < unit.bytes + frame.size
  · rw [if_pos hlarge]
    exact h.close rfl rfl
  · rw [if_neg hlarge]
    cases hcomplete : completes (unit.frames ++ [frame]) frame with
    | false => exact .plain hwait (.inl ⟨_, rfl⟩)
    | true =>
      dsimp only
      by_cases hx : frame.Is 'X'
      · rw [if_pos hx]
        have halone : unit.frames = [] := by
          unfold completes at hcomplete
          rw [if_pos (.inr (.inl hx)), beq_iff_eq, length_append] at hcomplete
          exact length_eq_zero_iff.mp (Nat.succ.inj hcomplete)
        have hfate (front : List Fate) (hplace : clientFrames (es ++ [.client frame]) =
            front.flatMap Fate.frames ++ [frame]) : (Fate.terminated frame).Justified (es ++ [.client frame]) front := by
          rw [clientFrames_append_client] at hplace
          exact ⟨hx, es, [], rfl, append_cancel_right hplace⟩
        have hterminated : Accounted (es ++ [.client frame]) s.toServer
            (Fate.terminated frame).frames := by
          rw [Phase.pending, halone] at hwait
          exact hwait
        rw [halone]
        exact .closed (.fate _ hterminated hfate) rfl
      · rw [if_neg hx]
        exact .plain hwait (.inr (.inl ⟨_, rfl⟩))

/-- A unit is refused: its frames have their fate, and after a unit without a `Sync` the client's
messages are discarded. -/
theorem Inv.refuse {unit : Judged} (hrun : run step .init es = some s) (hrefuses : Refuses s e unit)
    (sqlstate message : Str) : Inv (es ++ [e]) (s.refuse unit.synced sqlstate message) := by
  have hphase : s.phase = .refreshing unit ∨ s.phase = .judging unit :=
    hrefuses.elim (fun hr => .inr hr.1) fun hr => .inl hr.1
  have hother : ∀ frame, e ≠ .client frame := by
    rintro frame rfl
    rcases hrefuses with ⟨_, _, _, he⟩ | ⟨_, he⟩ <;> cases he
  have hfate (front : List Fate) (hplace : clientFrames (es ++ [e]) = front.flatMap Fate.frames ++ unit.frames) :
      (Fate.refused unit).Justified (es ++ [e]) front :=
    ⟨es, e, [], s, rfl, clientFrames_append_of_ne hother ▸ hplace, hrun, hrefuses, h.judged unit hphase⟩
  have hpend : s.phase.pending = unit.frames := by
    rcases hphase with hphase | hphase <;> rw [hphase] <;> rfl
  have hwait := h.waiting (by rcases hphase with hphase | hphase <;> rw [hphase] <;> exact fun hc => by cases hc)
  rw [hpend] at hwait
  have hacct := Accounted.fate (.refused unit) (hwait.other hother) hfate
  rw [show (Fate.refused unit).written = [] from rfl, append_nil] at hacct
  cases hsynced : unit.synced with
  | true => exact .plain hacct (.inl ⟨_, rfl⟩)
  | false => exact {
      accounted := ⟨[], hacct, .inr rfl⟩
      judged := fun _ hunit => by rcases hunit with hunit | hunit <;> cases hunit
      copying := fun hcopying => by cases hcopying
      discarding := fun _ => by
        refine ⟨es, e, [], s, unit, rfl, hrun, hrefuses, hsynced, fun sent hsent => ?_⟩
        cases hsent }

theorem Inv.runUnit {unit : Judged} (hrun : run step .init es = some s) (hphase : s.phase = .judging unit)
    (hstep : s.runUnit unit = some s') : Inv (es ++ [.run]) s' := by
  obtain ⟨names, -, hs'⟩ := bind_eq_some_iff.mp hstep
  cases hs'
  have hother (frame : Frame) : Event.run ≠ .client frame := fun hne => by cases hne
  have hfate (front : List Fate) (hplace : clientFrames (es ++ [.run]) = front.flatMap Fate.frames ++ unit.frames) :
      (Fate.ran unit).Justified (es ++ [.run]) front :=
    ⟨es, [], s, rfl, clientFrames_append_of_ne hother ▸ hplace, hrun, hphase, h.judged unit (.inr hphase)⟩
  have hwait := h.waiting (by rw [hphase]; exact fun hc => by cases hc)
  rw [hphase] at hwait
  have hacct := Accounted.fate (.ran unit) (hwait.other hother) hfate
  cases hsynced : unit.synced with
  | true => exact .plain hacct (.inr (.inr ⟨_, rfl⟩))
  | false => exact .plain hacct (.inl ⟨_, rfl⟩)

theorem Inv.relay {batch : List Frame} (hphase : s.phase = .relaying batch) (names : Names) (frame : Frame)
    (hasFrame : Bool) :
    Inv (es ++ [.server frame hasFrame]) ({ s with names := names }.relay batch frame hasFrame) := by
  have hwait := (h.waiting (by rw [hphase]; exact fun hc => by cases hc)).other
    (e := .server frame hasFrame) fun _ hne => by cases hne
  rw [hphase] at hwait
  unfold State.relay
  by_cases hg : frame.Is 'G'
  · rw [if_pos hg]
    exact {
      accounted := ⟨[], hwait, .inr rfl⟩
      judged := fun _ hunit => by rcases hunit with hunit | hunit <;> cases hunit
      copying := fun _ => ⟨es, frame, hasFrame, [], rfl, hg, fun _ hsent => by cases hsent⟩
      discarding := fun hdisc => by cases hdisc }
  · rw [if_neg hg]
    by_cases hz : frame.Is 'Z'
    · rw [if_pos hz]
      cases frame.body.head?.bind TxStatus.fromByte with
      | none => exact h.close rfl rfl
      | some => exact .plain hwait (.inl ⟨_, rfl⟩)
    · rw [if_neg hz]
      split <;> exact .plain hwait (.inr (.inr ⟨_, rfl⟩))

theorem Inv.copy (hphase : s.phase = .copying) (frame : Frame) : Inv (es ++ [.client frame]) (s.copy frame) := by
  have hopen := h.copying hphase
  have hwait := (h.waiting (by rw [hphase]; exact fun hc => by cases hc)).client frame
  rw [hphase] at hwait
  have hacct (htag : frame.Is 'd' ∨ frame.Is 'c' ∨ frame.Is 'f' ∨ frame.Is 'H' ∨ frame.Is 'S') :
      Accounted (es ++ [.client frame]) (s.toServer ++ [frame]) [] := by
    have hfate (front : List Fate) (hplace : clientFrames (es ++ [.client frame]) =
        front.flatMap Fate.frames ++ [frame]) : (Fate.copied frame).Justified (es ++ [.client frame]) front := by
      rw [clientFrames_append_client] at hplace
      exact ⟨htag, es, [], rfl, append_cancel_right hplace, hopen⟩
    exact .fate (.copied frame) hwait hfate
  unfold State.copy
  by_cases hends : frame.Is 'c' ∨ frame.Is 'f'
  · rw [if_pos hends]
    refine .plain (hacct ?_) (.inr (.inr ⟨_, rfl⟩))
    rcases hends with hc | hf
    · exact .inr (.inl hc)
    · exact .inr (.inr (.inl hf))
  · rw [if_neg hends]
    by_cases hdata : frame.Is 'd' ∨ frame.Is 'H' ∨ frame.Is 'S'
    · rw [if_pos hdata]
      have htag : frame.Is 'd' ∨ frame.Is 'c' ∨ frame.Is 'f' ∨ frame.Is 'H' ∨ frame.Is 'S' := by
        rcases hdata with hd | hh | hs
        · exact .inl hd
        · exact .inr (.inr (.inr (.inl hh)))
        · exact .inr (.inr (.inr (.inr hs)))
      exact {
        accounted := ⟨[], hacct htag, .inr (by rw [show (s.send [frame]).phase = s.phase from rfl, hphase]; rfl)⟩
        judged := fun unit hunit => by
          rcases hunit with hunit | hunit <;> cases hphase.symm.trans hunit
        copying := fun _ => hopen.append fun sent hsent => by
          cases hsent
          exact not_or.mp hends
        discarding := fun hdisc => by cases hphase.symm.trans hdisc }
    · rw [if_neg hdata]
      exact h.close rfl rfl

theorem Inv.discard (hphase : s.phase = .discarding) {frame : Frame} (hstep : step s (.client frame) = some s') : Inv
    (es ++ [.client frame]) s' := by
  have hdisc := h.discarding hphase
  have hwait := (h.waiting (by rw [hphase]; exact fun hc => by cases hc)).client frame
  rw [hphase] at hwait
  have hfate (front : List Fate) (hplace : clientFrames (es ++ [.client frame]) =
      front.flatMap Fate.frames ++ [frame]) : (Fate.discarded frame).Justified (es ++ [.client frame]) front := by
    rw [clientFrames_append_client] at hplace
    exact ⟨es, [], rfl, append_cancel_right hplace, hdisc⟩
  have hacct := Accounted.fate (.discarded frame) hwait hfate
  rw [show (Fate.discarded frame).written = [] from rfl, append_nil] at hacct
  unfold step at hstep
  rw [hphase] at hstep
  dsimp only at hstep
  by_cases hsync : frame.Is 'S'
  · rw [if_pos hsync] at hstep
    cases hstep
    exact .plain hacct (.inl ⟨_, rfl⟩)
  · rw [if_neg hsync] at hstep
    cases hstep
    exact {
      accounted := ⟨[], hacct, .inr (by rw [hphase]; rfl)⟩
      judged := fun unit hunit => by
        rcases hunit with hunit | hunit <;> cases hphase.symm.trans hunit
      copying := fun hcopying => by cases hphase.symm.trans hcopying
      discarding := fun _ => hdisc.append fun sent hsent => by
        cases hsent
        exact hsync }

/-- Every event keeps the account. -/
theorem Inv.step (hrun : run step .init es = some s) (hstep : step s e = some s') : Inv (es ++ [e]) s' := by
  unfold Session.step at hstep
  split at hstep
  · next unit frame hphase =>
    cases hstep
    exact h.readUnit hphase frame
  · next unit frame hasFrame hphase =>
    obtain ⟨names, -, rfl⟩ := map_eq_some_iff.mp hstep
    have hwait := h.waiting (by rw [hphase]; exact fun hc => by cases hc)
    exact .plain (hwait.other fun _ hne => by cases hne) (.inl ⟨unit, hphase⟩)
  · obtain ⟨-, hstep⟩ := ite_none_right_eq_some.mp hstep
    cases hstep
    exact h.close rfl rfl
  · obtain ⟨-, hstep⟩ := ite_none_right_eq_some.mp hstep
    cases hstep
    exact h.close rfl rfl
  · next frames analyze hphase =>
    cases hstep
    have hwait := h.waiting (by rw [hphase]; exact fun hc => by cases hc)
    rw [hphase] at hwait
    exact .judges (hwait.other fun _ hne => by cases hne) (.inl rfl) (judge_judgedAt analyze _ frames)
  · next unit hphase =>
    cases hstep
    have hwait := h.waiting (by rw [hphase]; exact fun hc => by cases hc)
    rw [hphase] at hwait
    exact .judges (hwait.other fun _ hne => by cases hne) (.inr rfl) (h.judged unit (.inl hphase))
  · next unit hphase =>
    cases hstep
    exact h.refuse hrun (.inr ⟨hphase, rfl⟩) _ _
  · cases hstep
    exact h.close rfl rfl
  · next unit hphase => exact h.runUnit hrun hphase hstep
  · next unit kind message hphase =>
    cases hstep
    exact h.refuse hrun (.inl ⟨hphase, kind, message, rfl⟩) _ _
  · next batch frame hasFrame hphase =>
    obtain ⟨names, -, rfl⟩ := map_eq_some_iff.mp hstep
    exact h.relay hphase names frame hasFrame
  · next frame hphase =>
    cases hstep
    exact h.copy hphase frame
  · next frame hphase =>
    refine h.discard hphase ?_
    unfold Session.step
    rw [hphase]
    exact hstep
  · cases hstep
    exact h.close rfl rfl
  · cases hstep
    exact h.close rfl rfl
  · cases hstep
    exact h.close rfl rfl
  · cases hstep
    exact h.close rfl rfl
  · cases hstep
    exact h.close rfl rfl
  · cases hstep
  · cases hstep
    exact h.close rfl rfl
  · cases hstep

end

/-- The step refuses a unit, or discards a message after a refusal. -/
def Refusing (s : State) (e : Event) : Prop := (∃ unit, Refuses s e unit) ∨ s.phase = .discarding

/-- Refusing and discarding leave the names and the transaction status, write nothing to the
server, and report the status as it is. -/
theorem refusing_frame (hrefusing : Refusing s e) (hstep : step s e = some s') :
    s'.names = s.names ∧ s'.status = s.status ∧ s'.toServer = s.toServer ∧
      ∃ replies, s'.toClient = s.toClient ++ replies ∧ ∀ status, .ready status ∈ replies → status = s.status := by
  have hrefuse (synced : Bool) (sqlstate message : Str) (hs : s' = s.refuse synced sqlstate message) :
      s'.names = s.names ∧ s'.status = s.status ∧ s'.toServer = s.toServer ∧
        ∃ replies, s'.toClient = s.toClient ++ replies ∧ ∀ status, .ready status ∈ replies → status = s.status := by
    cases synced with
    | true =>
      rw [hs]
      refine ⟨rfl, rfl, rfl, _, rfl, fun status hready => ?_⟩
      rcases mem_cons.mp hready with herror | hready
      · cases herror
      · exact Reply.ready.inj (mem_singleton.mp hready)
    | false =>
      rw [hs]
      refine ⟨rfl, rfl, rfl, _, rfl, fun status hready => ?_⟩
      cases mem_singleton.mp hready
  have hquiet (hnames : s'.names = s.names) (hstatus : s'.status = s.status)
      (hserver : s'.toServer = s.toServer) (hclient : s'.toClient = s.toClient) :
      s'.names = s.names ∧ s'.status = s.status ∧ s'.toServer = s.toServer ∧
        ∃ replies, s'.toClient = s.toClient ++ replies ∧ ∀ status, .ready status ∈ replies → status = s.status :=
    ⟨hnames, hstatus, hserver, [], by rw [hclient, append_nil], fun _ hready => by cases hready⟩
  unfold Session.step at hstep
  rcases hrefusing with ⟨unit, ⟨hphase, kind, message, rfl⟩ | ⟨hphase, rfl⟩⟩ | hphase
  · rw [hphase] at hstep
    exact hrefuse unit.synced _ _ (some.inj hstep).symm
  · rw [hphase] at hstep
    exact hrefuse unit.synced _ _ (some.inj hstep).symm
  · rw [hphase] at hstep
    cases e with
    | client frame =>
      dsimp only at hstep
      by_cases hsync : frame.Is 'S'
      · rw [if_pos hsync] at hstep
        cases hstep
        refine ⟨rfl, rfl, rfl, _, rfl, fun status hready => ?_⟩
        exact Reply.ready.inj (mem_singleton.mp hready)
      · rw [if_neg hsync] at hstep
        cases hstep
        exact hquiet rfl rfl rfl rfl
    | clientEof | streamFails =>
      cases hstep
      exact hquiet rfl rfl rfl rfl
    | _ => cases hstep

end Steps

/-- Every run keeps the account of fates. -/
theorem inv_of_run {es : List Event} {s : State} (hrun : run step .init es = some s) :
    Inv es s := by
  induction es using List.reverseRecOn generalizing s with
  | nil =>
    cases hrun
    exact .plain ⟨[], rfl, rfl, fun _ _ _ hsplit => absurd hsplit.symm (append_ne_nil_of_right_ne_nil _ (cons_ne_nil _ _))⟩
      (.inl ⟨_, rfl⟩)
  | append_singleton es e ih =>
    rw [run_append] at hrun
    obtain ⟨before, hbefore, hlast⟩ := bind_eq_some_iff.mp hrun
    obtain ⟨after, hstep, hafter⟩ := (run_cons_eq_some_iff step before s e []).mp hlast
    cases hafter
    exact (ih hbefore).step hbefore hstep

/-- In every session the client's frames, in order, each have a fate that the events at its place
justify (but for those at the end that have none yet); the server got exactly the frames whose unit
ran after a verdict that covers each of its messages, that ended the session, or that belonged to a
`COPY`; and no refusal changes the names or the transaction status that is reported. -/
theorem nothing_unjudged {es : List Event} {s : State} (hrun : run step .init es = some s) :
    (∃ (fates : List Fate) (rest : List Frame), clientFrames es = fates.flatMap Fate.frames ++ rest ∧
      s.toServer = fates.flatMap Fate.written ∧
      ∀ front fate back, fates = front ++ fate :: back → fate.Justified es front) ∧
    (∀ e s', Refusing s e → step s e = some s' →
      s'.names = s.names ∧ s'.status = s.status ∧ s'.toServer = s.toServer ∧
        ∃ replies, s'.toClient = s.toClient ++ replies ∧ ∀ status, .ready status ∈ replies → status = s.status) := by
  constructor
  · obtain ⟨rest, ⟨fates, hfates⟩, -⟩ := (inv_of_run hrun).accounted
    exact ⟨fates, rest, hfates⟩
  · exact fun e s' hrefusing hstep => refusing_frame hrefusing hstep

/-- A message whose body is names and texts, each ended by a zero byte. -/
def message (tag : Char) (texts : List String) : Frame := ⟨byte tag, texts.flatMap fun text => bytes text ++ [0]⟩

/-- Statements that the classifier takes to read. -/
def allRead : ℕ → Str → Analysis := fun _ sql => ⟨.judged .read, sql, []⟩

/-- The client prepares, binds and executes a statement, copies a row in, has a second unit refused
and its next message discarded, and ends the session. -/
def mixedRun : List Event :=
  [.client (message 'P' ["s", "SELECT 1"]), .client (message 'B' ["", "s"]), .client (message 'E' [""]),
    .client (message 'S' []), .classified allRead, .refreshed, .run, .server ⟨byte 'Z', [byte 'I']⟩ false,
    .client (message 'Q' ["COPY t FROM STDIN"]), .classified fun _ sql => ⟨.judged .write, sql, []⟩, .refreshed,
    .run, .server ⟨byte 'G', []⟩ false, .client (message 'd' ["1"]), .client (message 'c' []),
    .server ⟨byte 'Z', [byte 'I']⟩ false,
    .client (message 'B' ["", "s"]), .client (message 'H' []), .classified allRead, .refreshed,
    .refuse .denied [], .client (message 'E' [""]), .client (message 'S' []), .client (message 'X' [])]

/-- A session with every fate there is. -/
theorem nothing_unjudged_mixed : ∃ s, run step .init mixedRun = some s ∧ s.toServer.length = 8 ∧
    (clientFrames mixedRun).length = 12 ∧
    ∃ (fates : List Fate) (rest : List Frame), clientFrames mixedRun = fates.flatMap Fate.frames ++ rest ∧
      s.toServer = fates.flatMap Fate.written ∧
      ∀ front fate back, fates = front ++ fate :: back → fate.Justified mixedRun front := by
  have hrun : ∃ s, run step .init mixedRun = some s ∧ s.toServer.length = 8 := ⟨_, rfl, rfl⟩
  obtain ⟨s, hrun, hlength⟩ := hrun
  exact ⟨s, hrun, hlength, rfl, (nothing_unjudged hrun).1⟩

end Onecli.Postgres.Session
