import Onecli.Postgres.Bookkeeping

/-!
# What a unit does, message by message

The frames of a unit as the messages that the server runs, and the judgement of a unit as a walk
over them. A view is what the gateway takes the prepared statements and the unnamed portal to be
before a message; each message is judged by the view that the ones before it leave.
-/

namespace Onecli.Postgres

open Gateway (Str asBytes)
open List Function Nat

/-- A message as the server runs it. The statements of a simple query are messages of their own,
and so is the end of the query. -/
inductive Message where
  | prepare (name : List UInt8) (prepared : Prepared) (via : Via)
  | deallocate (name : List UInt8) (via : Via)
  | deallocateAll
  | closePortal (name : List UInt8)
  | bind (portal statement : List UInt8)
  | execute (portal : List UInt8)
  | executeName (name : List UInt8)
  /-- `Describe` and `Flush`. -/
  | other
  | sync
  | queryEnd
  deriving DecidableEq

namespace Message

/-- The change that a message makes to the prepared statements. -/
def change : Message → Option (Change × Via)
  | .prepare name prepared via => some (.prepare (key name) prepared, via)
  | .deallocate name via => some (.deallocate (key name), via)
  | .deallocateAll => some (.deallocateAll, .sql)
  | .closePortal _ => some (.closePortal, .message)
  | _ => none

/-- A message that binds the unnamed portal. -/
def bindsUnnamed : Message → Bool
  | .bind portal _ => decide (portal = [])
  | _ => false

/-- A message that the server answers with `ReadyForQuery`. -/
def isEnd : Message → Bool
  | .sync => true
  | .queryEnd => true
  | _ => false

/-- A message of a simple query. -/
def inQuery : Message → Bool
  | .prepare _ _ via => decide (via = .sql)
  | .deallocate _ via => decide (via = .sql)
  | .deallocateAll => true
  | .executeName _ => true
  | .queryEnd => true
  | _ => false

/-- A statement of a simple query. -/
def ofEffect : Effect → Message
  | .prepare name runs audit => .prepare (asBytes name) ⟨runs, audit, none⟩ .sql
  | .execute name => .executeName (asBytes name)
  | .deallocate name => .deallocate (asBytes name) .sql
  | .deallocateAll => .deallocateAll

/-- The messages of one frame. A frame that nothing can be made of has none; `judge` refuses it. -/
def ofFrame (analyze : Str → Analysis) (frame : Frame) : List Message :=
  if frame.Is 'Q' then
    match cstr frame with
    | some sql => (analyze sql).effects.map ofEffect ++ [.queryEnd]
    | none => []
  else if frame.Is 'P' then
    match parseMessage frame with
    | some (name, sql) =>
      let (classified, executes) := parseEffects (analyze sql).classified (analyze sql).effects
      [.prepare name ⟨classified, (analyze sql).audit, executes⟩ .message]
    | none => []
  else if frame.Is 'B' then
    match bindMessage frame with
    | some (portal, statement) => [.bind portal statement]
    | none => []
  else if frame.Is 'E' then
    match nameMessage frame with
    | some portal => [.execute portal]
    | none => []
  else if frame.Is 'C' then
    match closeMessage frame with
    | some (kind, name) =>
      if kind = byte 'S' then [.deallocate name .message]
      else if kind = byte 'P' then [.closePortal name]
      else []
    | none => []
  else if frame.Is 'S' then [.sync]
  else if frame.Is 'D' ∨ frame.Is 'H' then [.other]
  else []

/-- The messages of a unit. -/
def ofFrames (analyze : ℕ → Str → Analysis) (frames : List Frame) : List Message :=
  frames.zipIdx.flatMap fun frame => ofFrame (analyze frame.2) frame.1

end Message

/-- What the gateway takes the server's statements and its unnamed portal to be. -/
structure View where
  statements : Statements
  /-- The statement of the unnamed portal, when it runs another by name. -/
  portal : Option Prepared

namespace View

/-- The statement at a name. -/
def statement (v : View) (name : List UInt8) : Prepared := (v.statements (key name)).getD (.unseen (key name))

/-- The statements run by name, as many as are followed. -/
def follow (v : View) : ℕ → Classified → Option Key → Classified
  | _, classified, none => classified
  | 0, classified, some _ => classified.combine (.forbidden reasonUncheckable)
  | depth + 1, classified, some name =>
    v.follow depth (classified.combine (v.statement name).classified) (v.statement name).executes

/-- What running a statement does. -/
def runs (v : View) (prepared : Prepared) : Classified :=
  v.follow maxExecuteDepth prepared.classified prepared.executes

/-- What the unnamed portal is to be followed for once a statement is bound to it. -/
def lateBound (prepared : Prepared) : Option Prepared := if prepared.executes.isSome then some prepared else none

/-- What a message makes of a view. -/
def perform (v : View) : Message → View
  | .bind portal statement => if portal = [] then { v with portal := lateBound (v.statement statement) } else v
  | message => { v with statements := (message.change.elim id fun c => c.1.effect) v.statements }

/-- The verdict for what a message runs. -/
def verdict (v : View) : Message → Classified
  | .bind portal statement =>
    if portal ≠ [] ∧ (v.statement statement).executes.isSome then .forbidden reasonNamedPortalExecute
    else v.runs (v.statement statement)
  | .execute portal => if portal = [] then (v.portal.map v.runs).getD .housekeeping else .housekeeping
  | .executeName name => v.runs (v.statement name)
  | _ => .housekeeping

theorem perform_bind (v : View) (portal statement : List UInt8) :
    v.perform (.bind portal statement) =
      if portal = [] then { v with portal := lateBound (v.statement statement) } else v := rfl

/-- What a bind may run. -/
theorem verdict_bind (v : View) (portal statement : List UInt8) :
    v.verdict (.bind portal statement) =
      if portal ≠ [] ∧ (v.statement statement).executes.isSome then
        .forbidden reasonNamedPortalExecute
      else v.runs (v.statement statement) := rfl

theorem verdict_execute (v : View) (portal : List UInt8) :
    v.verdict (.execute portal) =
      if portal = [] then (v.portal.map v.runs).getD .housekeeping else .housekeeping := rfl

/-- A bind prepares nothing. -/
theorem perform_bind_statements (v : View) (portal statement : List UInt8) :
    (v.perform (.bind portal statement)).statements = v.statements := by
  rw [perform_bind]
  split
  · rfl
  · rfl

end View

/-- The messages lead from one view to another, and each was judged, with all that its unit does,
at least as strictly as its own verdict, and was not refused. -/
def Replays (v : View) : List (Message × Classified) → View → Prop
  | [], w => w = v
  | (message, judged) :: rest, w =>
    (v.verdict message).rank ≤ judged.rank ∧ ¬ judged.Refused ∧ Replays (v.perform message) rest w

section Replay

variable {v w u : View}

theorem Replays.append {ms ns : List (Message × Classified)} (hms : Replays v ms w)
    (hns : Replays w ns u) : Replays v (ms ++ ns) u := by
  induction ms generalizing v with
  | nil =>
    obtain rfl : w = v := hms
    exact hns
  | cons m ms ih => exact ⟨hms.1, hms.2.1, ih hms.2.2⟩

theorem Replays.single {judged : Classified} (message : Message)
    (hverd : (v.verdict message).rank ≤ judged.rank) (hrefused : ¬ judged.Refused) :
    Replays v [(message, judged)] (v.perform message) :=
  ⟨hverd, hrefused, rfl⟩

theorem View.perform_portal_of_not_bindsUnnamed (v : View) {message : Message}
    (h : message.bindsUnnamed = false) : (v.perform message).portal = v.portal := by
  cases message with
  | bind portal =>
    have hportal : portal ≠ [] := of_decide_eq_false h
    exact congrArg View.portal (if_neg hportal)
  | _ => rfl

theorem Replays.portal_eq {ms : List (Message × Classified)} (h : Replays v ms w)
    (hbinds : ∀ m ∈ ms, m.1.bindsUnnamed = false) : w.portal = v.portal := by
  induction ms generalizing v with
  | nil => exact congrArg View.portal h
  | cons m ms ih =>
    have hrest := ih h.2.2 fun n hn => hbinds n (mem_cons_of_mem m hn)
    exact hrest.trans (v.perform_portal_of_not_bindsUnnamed (hbinds m mem_cons_self))

theorem Replays.statements_eq {ms : List (Message × Classified)} (h : Replays v ms w) :
    w.statements = (ms.filterMap fun m => m.1.change).foldl (fun s c => c.1.effect s) v.statements := by
  induction ms generalizing v with
  | nil => exact congrArg View.statements h
  | cons m ms ih =>
    rw [ih h.2.2]
    obtain ⟨message, judged⟩ := m
    cases message with
    | bind =>
      rw [v.perform_bind_statements]
      rfl
    | _ => rfl

end Replay

section Judge

/-- What a draft takes the statements and the unnamed portal to be. -/
def Draft.view (draft : Draft) : View := ⟨draft.current, draft.unnamedPortal.getD draft.names.unnamedPortal⟩

theorem Draft.follow_eq (draft : Draft) (depth : ℕ) (classified : Classified) (next : Option Key) :
    draft.follow depth classified next = draft.view.follow depth classified next := by
  induction depth generalizing classified next with
  | zero => cases next <;> rfl
  | succ depth ih =>
    cases next with
    | none => rfl
    | some => exact ih _ _

/-- A draft runs what it shows. -/
theorem Draft.runs_eq (draft : Draft) (prepared : Prepared) :
    draft.runs prepared = draft.view.runs prepared :=
  draft.follow_eq _ _ _

/-- One draft is another after some messages, each judged no stricter than a verdict for all. -/
structure Draft.Leads (draft : Draft) (messages : List Message) (draft' : Draft) (judged : Classified) :
    Prop where
  names : draft'.names = draft.names
  changes : draft'.changes = draft.changes ++ messages.filterMap Message.change
  replays : ¬ judged.Refused → Replays draft.view (messages.map (·, judged)) draft'.view

namespace Draft

variable {draft draft' draft'' : Draft} {judged : Classified}

theorem Leads.refl (draft : Draft) (judged : Classified) : draft.Leads [] draft judged :=
  ⟨rfl, (append_nil _).symm, fun _ => rfl⟩

/-- Messages one after another. -/
theorem Leads.trans {ms ns : List Message} (hms : draft.Leads ms draft' judged)
    (hns : draft'.Leads ns draft'' judged) : draft.Leads (ms ++ ns) draft'' judged := by
  refine ⟨hns.names.trans hms.names, ?_, fun hrefused => ?_⟩
  · rw [hns.changes, hms.changes, filterMap_append, append_assoc]
  · rw [map_append]
    exact (hms.replays hrefused).append (hns.replays hrefused)

/-- One message leads on. -/
theorem Leads.single {message : Message} (hnames : draft'.names = draft.names)
    (hchanges : draft'.changes = draft.changes ++ message.change.toList)
    (hview : draft'.view = draft.view.perform message)
    (hverd : (draft.view.verdict message).rank ≤ judged.rank) :
    draft.Leads [message] draft' judged := by
  refine ⟨hnames, ?_, fun hrefused => ?_⟩
  · rw [hchanges]
    cases hchange : message.change <;> simp [hchange]
  · rw [hview]
    exact .single message hverd hrefused

/-- A message that changes nothing. -/
theorem Leads.unnoticed {message : Message} (hchange : message.change = none)
    (hview : draft.view = draft.view.perform message)
    (hverd : (draft.view.verdict message).rank ≤ judged.rank) :
    draft.Leads [message] draft judged := by
  refine .single rfl ?_ hview hverd
  rw [hchange]
  exact (append_nil _).symm

/-- The current statement of a name. -/
theorem current_insert (draft : Draft) (name : Key) (prepared : Option Prepared) :
    current { draft with statements := draft.statements.insert name prepared } =
      update draft.current name prepared := by
  funext k
  unfold current
  rw [Table.lookup_insert]
  by_cases hk : k = name
  · subst hk
    rw [update_self, update_self]
  · rw [update_of_ne hk, update_of_ne hk]

theorem prepare_leads (draft : Draft) {draft' : Draft} (name : List UInt8) (prepared : Prepared)
    (via : Via) (hok : draft.prepare name prepared via = .ok draft') (judged : Classified) :
    draft.Leads [.prepare name prepared via] draft' judged := by
  unfold prepare at hok
  by_cases hbudget : maxPreparedBytes <
      draft.names.statementBytes + draft.addedBytes + prepared.cost (key name)
  · rw [if_pos hbudget] at hok
    cases hok
  · rw [if_neg hbudget] at hok
    cases hok
    refine .single rfl rfl ?_ (zero_le _)
    exact congrArg (View.mk · _) (draft.current_insert (key name) (some prepared))

theorem deallocate_leads (draft : Draft) (name : List UInt8) (via : Via) (judged : Classified) :
    draft.Leads [.deallocate name via] (draft.deallocate name via) judged := by
  refine .single rfl rfl ?_ (zero_le _)
  exact congrArg (View.mk · _) (draft.current_insert (key name) none)

theorem deallocateAll_leads (draft : Draft) (judged : Classified) :
    draft.Leads [.deallocateAll] draft.deallocateAll judged :=
  .single rfl rfl rfl (zero_le _)

theorem closePortal_leads (draft : Draft) (name : List UInt8) (judged : Classified) :
    draft.Leads [.closePortal name] draft.closePortal judged :=
  .single rfl rfl rfl (zero_le _)

theorem bind_leads (draft : Draft) (portal statement : List UInt8)
    (hverd : (draft.bind portal statement).2.1.rank ≤ judged.rank) :
    draft.Leads [.bind portal statement] (draft.bind portal statement).1 judged := by
  unfold bind at hverd ⊢
  by_cases hportal : portal = []
  · rw [if_pos hportal] at hverd ⊢
    refine .single rfl (append_nil _).symm ?_ ?_
    · exact (if_pos hportal).symm
    · rw [View.verdict_bind, if_neg fun h => h.1 hportal]
      rw [runs_eq] at hverd
      exact hverd
  · rw [if_neg hportal] at hverd ⊢
    have hview : draft.view = draft.view.perform (.bind portal statement) := (if_neg hportal).symm
    by_cases hlate : (draft.statement statement).executes.isSome = true
    · rw [if_pos hlate] at hverd ⊢
      refine .unnoticed rfl hview ?_
      rw [View.verdict_bind, if_pos ⟨hportal, hlate⟩]
      exact hverd
    · rw [if_neg hlate] at hverd ⊢
      refine .unnoticed rfl hview ?_
      rw [View.verdict_bind, if_neg fun h => hlate h.2]
      rw [runs_eq] at hverd
      exact hverd

theorem execute_leads (draft : Draft) (portal : List UInt8)
    (hverd : (draft.execute portal).rank ≤ judged.rank) :
    draft.Leads [.execute portal] draft judged := by
  refine .unnoticed rfl rfl ?_
  have hsame : draft.view.verdict (.execute portal) = draft.execute portal := by
    rw [View.verdict_execute]
    unfold execute
    by_cases hportal : portal = []
    · simp only [if_pos hportal]
      change (Option.map _ (draft.unnamedPortal.getD draft.names.unnamedPortal)).getD _ = _
      cases draft.unnamedPortal.getD draft.names.unnamedPortal with
      | none => rfl
      | some prepared => exact (draft.runs_eq prepared).symm
    · simp only [if_neg hportal]
  rw [hsame]
  exact hverd

theorem executeName_leads (draft : Draft) (name : List UInt8)
    (hverd : (draft.runsStatement name).rank ≤ judged.rank) :
    draft.Leads [.executeName name] draft judged := by
  refine .unnoticed rfl rfl ?_
  unfold runsStatement at hverd
  rw [runs_eq] at hverd
  exact hverd

end Draft

variable {judged : Classified}

/-- What is stricter than forbidden is refused. -/
theorem Classified.refused_of_forbidden_le {reason : Str} (h : (Classified.forbidden reason).rank ≤ judged.rank) :
    judged.Refused := h

theorem sqlEffect_leads (draft : Draft) (effect : Effect) (hrefused : ¬ judged.Refused)
    (hverd : (sqlEffect draft effect).2.rank ≤ judged.rank) :
    draft.Leads [.ofEffect effect] (sqlEffect draft effect).1 judged := by
  cases effect with
  | prepare name runs audit =>
    cases hprepare : draft.prepare (asBytes name) ⟨runs, audit, none⟩ .sql with
    | error =>
      simp only [sqlEffect, hprepare] at hverd
      exact absurd (Classified.refused_of_forbidden_le hverd) hrefused
    | ok =>
      simp only [sqlEffect, hprepare]
      exact draft.prepare_leads (asBytes name) ⟨runs, audit, none⟩ .sql hprepare judged
  | execute => exact draft.executeName_leads _ hverd
  | deallocate => exact draft.deallocate_leads _ _ judged
  | deallocateAll => exact draft.deallocateAll_leads judged

theorem foldl_sqlEffect_leads (effects : List Effect) (draft : Draft) (verdict : Classified)
    (hrefused : ¬ judged.Refused)
    (hverd : (effects.foldl (fun (draft, verdict) effect => ((sqlEffect draft effect).1, verdict.combine (sqlEffect draft effect).2)) (draft, verdict)).2.rank ≤ judged.rank) :
    draft.Leads (effects.map .ofEffect) (effects.foldl (fun (draft, verdict) effect =>
      ((sqlEffect draft effect).1, verdict.combine (sqlEffect draft effect).2))
        (draft, verdict)).1 judged ∧ verdict.rank ≤ judged.rank := by
  induction effects generalizing draft verdict with
  | nil => exact ⟨.refl draft judged, hverd⟩
  | cons effect effects ih =>
    obtain ⟨hrest, hcombine⟩ := ih _ _ hverd
    have hfirst := (Classified.rank_le_combine_right verdict _).trans hcombine
    refine ⟨?_, (Classified.rank_le_combine_left verdict _).trans hcombine⟩
    exact (sqlEffect_leads draft effect hrefused hfirst).trans hrest

/-- The end of a simple query, a `Sync` and the messages that do nothing to a draft. -/
theorem Draft.leads_neutral (draft : Draft) {message : Message}
    (h : message = .other ∨ message = .sync ∨ message = .queryEnd) : draft.Leads [message] draft judged := by
  rcases h with rfl | rfl | rfl <;> exact Leads.unnoticed rfl rfl (zero_le _)

/-- The draft after one frame, and whether the unit is synced by it. -/
structure JudgesFrame (j : Judging) (messages : List Message) (j' : Judging) (judged : Classified) :
    Prop where
  leads : j.draft.Leads messages j'.draft judged
  synced : j'.synced = (j.synced || messages.any Message.isEnd)
  classified : j'.classified = j.classified

theorem judgeMessage_leads (analyze : Str → Analysis) (alone : Bool) (j : Judging) (frame : Frame)
    (hrefused : ¬ judged.Refused) (hverd : (judgeMessage analyze alone j frame).2.rank ≤ judged.rank) :
    JudgesFrame j (Message.ofFrame analyze frame) (judgeMessage analyze alone j frame).1 judged := by
  have huncheckable {P : Prop} (h : (Classified.forbidden reasonUncheckable).rank ≤ judged.rank) : P :=
    absurd (Classified.refused_of_forbidden_le h) hrefused
  have hplain {messages : List Message} {draft : Draft} {audit : Str}
      (hleads : j.draft.Leads messages draft judged) (hend : messages.any Message.isEnd = false) :
      JudgesFrame j messages { j with draft := draft, audit := audit } judged :=
    ⟨hleads, by rw [hend, Bool.or_false], rfl⟩
  unfold judgeMessage at hverd ⊢
  unfold Message.ofFrame
  by_cases hQ : frame.Is 'Q'
  · simp only [if_pos hQ] at hverd ⊢
    by_cases halone : alone = true
    · rw [if_pos halone] at hverd ⊢
      cases hcstr : cstr frame with
      | none =>
        rw [hcstr] at hverd
        exact huncheckable hverd
      | some sql =>
        rw [hcstr] at hverd
        have hsql := (foldl_sqlEffect_leads (analyze sql).effects j.draft (analyze sql).classified
          hrefused hverd).1
        refine ⟨hsql.trans (Draft.leads_neutral _ (.inr (.inr rfl))), ?_, rfl⟩
        rw [any_append]
        exact (Bool.or_true _).symm.trans (congrArg _ (Bool.or_true _).symm)
    · rw [if_neg halone] at hverd
      exact huncheckable hverd
  simp only [if_neg hQ] at hverd ⊢
  by_cases hP : frame.Is 'P'
  · simp only [if_pos hP] at hverd ⊢
    cases hparse : parseMessage frame with
    | none =>
      rw [hparse] at hverd
      exact huncheckable hverd
    | some message =>
      obtain ⟨name, sql⟩ := message
      rw [hparse] at hverd
      unfold parse at hverd ⊢
      cases hprepare : j.draft.prepare name
          ⟨(parseEffects (analyze sql).classified (analyze sql).effects).1, (analyze sql).audit,
            (parseEffects (analyze sql).classified (analyze sql).effects).2⟩ .message with
      | error why =>
        simp only [hprepare] at hverd
        exact absurd (Classified.refused_of_forbidden_le hverd) hrefused
      | ok draft =>
        simp only [hprepare]
        exact hplain (j.draft.prepare_leads _ _ _ hprepare judged) rfl
  simp only [if_neg hP] at hverd ⊢
  by_cases hB : frame.Is 'B'
  · simp only [if_pos hB] at hverd ⊢
    cases hbind : bindMessage frame with
    | none =>
      rw [hbind] at hverd
      exact huncheckable hverd
    | some message =>
      obtain ⟨portal, statement⟩ := message
      rw [hbind] at hverd
      exact hplain (j.draft.bind_leads portal statement hverd) rfl
  simp only [if_neg hB] at hverd ⊢
  by_cases hE : frame.Is 'E'
  · simp only [if_pos hE] at hverd ⊢
    cases hname : nameMessage frame with
    | none =>
      rw [hname] at hverd
      exact huncheckable hverd
    | some portal =>
      rw [hname] at hverd
      exact hplain (j.draft.execute_leads portal hverd) rfl
  simp only [if_neg hE] at hverd ⊢
  by_cases hC : frame.Is 'C'
  · simp only [if_pos hC] at hverd ⊢
    cases hclose : closeMessage frame with
    | none =>
      rw [hclose] at hverd
      exact huncheckable hverd
    | some message =>
      obtain ⟨kind, name⟩ := message
      rw [hclose] at hverd
      by_cases hS : kind = byte 'S'
      · simp only [if_pos hS]
        exact hplain (j.draft.deallocate_leads name .message judged) rfl
      · simp only [if_neg hS] at hverd ⊢
        by_cases hportal : kind = byte 'P'
        · simp only [if_pos hportal]
          exact hplain (j.draft.closePortal_leads name judged) rfl
        · simp only [if_neg hportal] at hverd
          exact huncheckable hverd
  simp only [if_neg hC] at hverd ⊢
  by_cases hS : frame.Is 'S'
  · simp only [if_pos hS]
    exact ⟨Draft.leads_neutral _ (.inr (.inl rfl)), (Bool.or_true _).symm, rfl⟩
  simp only [if_neg hS] at hverd ⊢
  by_cases hother : frame.Is 'D' ∨ frame.Is 'H'
  · simp only [if_pos hother]
    exact hplain (Draft.leads_neutral _ (.inl rfl)) rfl
  simp only [if_neg hother] at hverd
  by_cases hF : frame.Is 'F'
  · simp only [if_pos hF] at hverd
    exact absurd (Classified.refused_of_forbidden_le hverd) hrefused
  · simp only [if_neg hF] at hverd
    exact huncheckable hverd

theorem foldl_judgeStep_leads (analyze : ℕ → Str → Analysis) (alone : Bool) (frames : List (Frame × ℕ)) (j : Judging)
    (hrefused : ¬ judged.Refused)
    (hverd : (frames.foldl (judgeStep analyze alone) j).classified.rank ≤ judged.rank) :
    j.draft.Leads (frames.flatMap fun frame => Message.ofFrame (analyze frame.2) frame.1)
        (frames.foldl (judgeStep analyze alone) j).draft judged ∧
      (frames.foldl (judgeStep analyze alone) j).synced = (j.synced ||
        (frames.flatMap fun frame => Message.ofFrame (analyze frame.2) frame.1).any Message.isEnd) ∧
      j.classified.rank ≤ judged.rank := by
  induction frames generalizing j with
  | nil => exact ⟨.refl _ _, (Bool.or_false _).symm, hverd⟩
  | cons frame frames ih =>
    obtain ⟨hrest, hsynced, hclass⟩ := ih _ hverd
    have hmessage := (Classified.rank_le_combine_right _ _).trans hclass
    have hfirst := judgeMessage_leads (analyze frame.2) alone j frame.1 hrefused hmessage
    refine ⟨?_, ?_, ?_⟩
    · exact hfirst.leads.trans hrest
    · rw [foldl_cons, hsynced, flatMap_cons, any_append, ← Bool.or_assoc]
      exact congrArg (· || _) hfirst.synced
    · rw [← hfirst.classified]
      exact (Classified.rank_le_combine_left _ _).trans hclass

theorem judgeMessage_rank_le (analyze : ℕ → Str → Analysis) (alone : Bool) (frames : List (Frame × ℕ)) (j : Judging)
    (hrefused : ¬ judged.Refused) (hverd : (frames.foldl (judgeStep analyze alone) j).classified.rank ≤ judged.rank)
    {frame : Frame × ℕ} (hframe : frame ∈ frames) :
    ∃ j', (judgeMessage (analyze frame.2) alone j' frame.1).2.rank ≤ judged.rank := by
  induction frames generalizing j with
  | nil => exact absurd hframe not_mem_nil
  | cons first frames ih =>
    rcases mem_cons.mp hframe with rfl | hrest
    · obtain ⟨_, _, hclass⟩ := foldl_judgeStep_leads analyze alone frames
        (judgeStep analyze alone j frame) hrefused hverd
      exact ⟨j, (Classified.rank_le_combine_right _ _).trans hclass⟩
    · exact ih _ hverd hrest

theorem judge_query_alone (analyze : ℕ → Str → Analysis) (frames : List Frame) (names : Names)
    (hrefused : ¬ (judge analyze frames names).classified.Refused) {frame : Frame}
    (hframe : frame ∈ frames) (hQ : frame.Is 'Q') : frames.length = 1 := by
  obtain ⟨i, hi⟩ := mem_iff_getElem?.mp hframe
  obtain ⟨j, hverd⟩ := judgeMessage_rank_le analyze (frames.length == 1) frames.zipIdx
    ⟨.new names, .housekeeping, [], false⟩ hrefused le_rfl (List.mk_mem_zipIdx_iff_getElem?.mpr hi)
  by_contra hlong
  have halone : (frames.length == 1) = false := beq_false_of_ne hlong
  unfold judgeMessage at hverd
  rw [halone] at hverd
  simp only [if_pos hQ, if_neg Bool.false_ne_true] at hverd
  exact hrefused (Classified.refused_of_forbidden_le hverd)

theorem Message.ofFrame_split (analyze : Str → Analysis) (frame : Frame) :
    ∃ body last, ofFrame analyze frame = body ++ last ∧ (∀ message ∈ body, message.isEnd = false) ∧
      last.length ≤ 1 := by
  have hsingle {messages : List Message} (h : messages.length ≤ 1) :
      ∃ body last, messages = body ++ last ∧ (∀ message ∈ body, message.isEnd = false) ∧ last.length ≤ 1 :=
    ⟨[], messages, rfl, nofun, h⟩
  unfold ofFrame
  split
  · split
    · next sql _ =>
      refine ⟨(analyze sql).effects.map ofEffect, [.queryEnd], rfl, fun message hmessage => ?_, le_rfl⟩
      obtain ⟨effect, _, rfl⟩ := mem_map.mp hmessage
      cases effect <;> rfl
    · exact hsingle (zero_le _)
  · refine hsingle ?_
    repeat' split
    all_goals simp

/-- A frame that is neither a `Sync` nor a simple query does not end the batch. -/
theorem Message.isEnd_eq_false_of_mem_ofFrame {analyze : Str → Analysis} {frame : Frame}
    (hS : ¬ frame.Is 'S') (hQ : ¬ frame.Is 'Q') {message : Message}
    (hmessage : message ∈ ofFrame analyze frame) : message.isEnd = false := by
  unfold ofFrame at hmessage
  rw [if_neg hQ] at hmessage
  repeat' split at hmessage
  all_goals first
    | exact absurd hmessage not_mem_nil
    | rw [mem_singleton.mp hmessage]; rfl

/-- The messages of a unit that is not refused, whose `Sync` is at most its last frame: only the
last message may end the batch. -/
theorem judge_messages_split (analyze : ℕ → Str → Analysis) (names : Names) {init : List Frame}
    {last : Frame} (hinit : ∀ frame ∈ init, ¬ frame.Is 'S')
    (hrefused : ¬ (judge analyze (init ++ [last]) names).classified.Refused) :
    ∃ body ending, Message.ofFrames analyze (init ++ [last]) = body ++ ending ∧
      (∀ message ∈ body, message.isEnd = false) ∧ ending.length ≤ 1 := by
  obtain ⟨body, ending, hlast, hbody, hending⟩ := Message.ofFrame_split (analyze init.length) last
  refine ⟨(init.zipIdx.flatMap fun frame => Message.ofFrame (analyze frame.2) frame.1) ++ body, ending,
    ?_, fun message hmessage => ?_, hending⟩
  · unfold Message.ofFrames
    rw [zipIdx_append, append_assoc, ← hlast]
    simp
  · rcases mem_append.mp hmessage with hearlier | hbodyMem
    · obtain ⟨frame, hframe, hmem⟩ := mem_flatMap.mp hearlier
      have hframeMem : frame.1 ∈ init := fst_mem_of_mem_zipIdx hframe
      refine Message.isEnd_eq_false_of_mem_ofFrame (hinit _ hframeMem) (fun hQ => ?_) hmem
      have hlength := judge_query_alone analyze (init ++ [last]) names hrefused
        (mem_append_left _ hframeMem) hQ
      have hpos := length_pos_of_mem hframeMem
      rw [length_append, length_singleton] at hlength
      omega
    · exact hbody message hbodyMem

/-- What the gateway takes the statements and the unnamed portal to be, between units. -/
def Names.view (names : Names) : View := ⟨names.statements.lookup, names.unnamedPortal⟩

/-- What is known of a judged unit that is not refused: its changes are those of its messages,
its verdict is at least as strict as each of theirs, and it is synced when one of them ends it. -/
theorem judge_spec (analyze : ℕ → Str → Analysis) (frames : List Frame) (names : Names)
    (hrefused : ¬ (judge analyze frames names).classified.Refused) :
    (judge analyze frames names).sent.changes = (Message.ofFrames analyze frames).filterMap Message.change ∧
      (judge analyze frames names).synced = (Message.ofFrames analyze frames).any Message.isEnd ∧
      ∃ w : View, Replays names.view
          ((Message.ofFrames analyze frames).map (·, (judge analyze frames names).classified)) w ∧
        w.portal = (judge analyze frames names).sent.unnamedPortal.getD names.unnamedPortal := by
  obtain ⟨hleads, hsynced, _⟩ := foldl_judgeStep_leads analyze (frames.length == 1) frames.zipIdx
    ⟨.new names, .housekeeping, [], false⟩ hrefused le_rfl
  refine ⟨hleads.changes.trans (nil_append _), hsynced, _, hleads.replays hrefused, ?_⟩
  exact congrArg (fun names : Names => Option.getD _ names.unnamedPortal) hleads.names

end Judge

end Onecli.Postgres
