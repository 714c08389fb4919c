import Onecli.Postgres.Coverage

/-!
# Names with unanswered changes

`Names::settle` merges the two states of a name that a change left unanswered. However many of the
unanswered changes the server made, the statement that it holds for a name is one of those that the
merged one was made of, so the merged one is classified at least as strictly; but of two statements
that run another by name the merged one keeps only the newer one's. Where the states of each name
run at most one other statement by name, running a name is judged at least as strictly as in any of
the maps that the server may hold.
-/

namespace Onecli.Postgres

open Option Runs

open Function (update update_of_ne update_self)

/-- The names, beside what the server is known to have made of the statements. -/
structure Known where
  names : Names
  /-- The statements before the changes that the server has not answered. -/
  base : Statements
  unanswered : List (Change × Via)

/-- A session at its start. -/
def Known.init : Known := ⟨.default, fun _ => none, []⟩

/-- A call on the names. A confirmed change was made, an error leaves the unanswered ones unmade,
and after `ReadyForQuery` the names are all that is known. -/
def Known.call (k : Known) : Call → Option Known
  | .send sent => (k.names.send sent).map fun names =>
    { k with names := names, unanswered := k.unanswered ++ sent.changes }
  | .observe tag body => (k.names.observe tag body).map fun names =>
    if tag = byte 'E' then ⟨names, k.base, []⟩
    else if tag = byte 'Z' then ⟨names, names.statements.lookup, []⟩
    else match k.unanswered with
      | [] => ⟨names, k.base, []⟩
      | (change, via) :: rest =>
        if change.confirmedBy via tag (Names.commandTag tag body) then
          ⟨names, change.effect k.base, rest⟩
        else ⟨names, k.base, k.unanswered⟩

/-- The statements after those of the changes that the server made; it made none that there is no
choice for. -/
def made : List (Change × Via) → List Bool → Statements → Statements
  | [], _, m => m
  | change :: changes, choices, m => made changes choices.tail (if choices.headD false then change.1.effect m else m)

/-- What running a name does in some statements, with those that it runs by name. -/
def Statements.runsName (m : Statements) (name : List UInt8) : Classified :=
  (View.mk m none).runs ((View.mk m none).statement name)

/-- After `ReadyForQuery` running a name is judged at least as strictly as it is with any choice of
the unanswered changes made. -/
def Conservative (k : Known) (call : Call) (k' : Known) : Prop :=
  ∀ body, call = .observe (byte 'Z') body → ∀ name choices,
    ((made k.unanswered choices k.base).runsName name).rank ≤
      ((Draft.new k'.names).runsStatement name).rank

/-- A name stands, or stood before an unanswered change of it, for a statement that runs this one
by name. -/
def Names.MayRun (names : Names) (name target : Key) : Prop :=
  (Statements.at names.statements.lookup name).executes = some target ∨
    ∃ u ∈ names.unconfirmed, ∃ prepared,
      u.before.recorded name = some (some prepared) ∧ prepared.executes = some target

/-- At `ReadyForQuery` each name may run at most one other statement by name. -/
def OneTarget (k : Known) (call : Call) : Prop :=
  ∀ body, call = .observe (byte 'Z') body → ∀ name target target',
    k.names.MayRun name target → k.names.MayRun name target' → target = target'

section Following

theorem Classified.rank_combine_le {a a' b b' : Classified} (ha : a.rank ≤ a'.rank)
    (hb : b.rank ≤ b'.rank) : (a.combine b).rank ≤ (a'.combine b').rank := by
  rw [rank_combine]
  apply Nat.max_le.mpr
  exact ⟨ha.trans (a'.rank_le_combine_left b'), hb.trans (a'.rank_le_combine_right b')⟩

/-- A name stands in one view for what it stands for in another. -/
def View.CoveredBy (v w : View) : Prop := ∀ name, Covered (v.statement name) (w.statement name)

theorem View.CoveredBy.follow_le {v w : View} (h : v.CoveredBy w) (depth : ℕ)
    {classified classified' : Classified} {next next' : Option Key}
    (hclass : classified.rank ≤ classified'.rank) (hnext : next = none ∨ next' = next) :
    (v.follow depth classified next).rank ≤ (w.follow depth classified' next').rank := by
  induction depth generalizing classified classified' next next' with
  | zero =>
    cases next with
    | none => exact hclass.trans (w.rank_le_follow 0 classified' next')
    | some name =>
      obtain rfl : next' = some name := hnext.resolve_left (some_ne_none name)
      exact Classified.rank_combine_le hclass le_rfl
  | succ depth ih =>
    cases next with
    | none => exact hclass.trans (w.rank_le_follow (depth + 1) classified' next')
    | some name =>
      obtain rfl : next' = some name := hnext.resolve_left (some_ne_none name)
      apply ih
      · exact Classified.rank_combine_le hclass (h name).1
      · exact (h name).2

theorem View.CoveredBy.runs_le {v w : View} (h : v.CoveredBy w) (name : List UInt8) :
    (v.runs (v.statement name)).rank ≤ (w.runs (w.statement name)).rank :=
  h.follow_le maxExecuteDepth (h name).1 (h name).2

end Following

section Settling

/-- A statement runs no other by name than this one. -/
def RunsOnly (target : Option Key) (prepared : Prepared) : Prop :=
  prepared.executes = none ∨ prepared.executes = target

variable {target : Option Key}

theorem RunsOnly.merged {name : Key} {after before : Option Prepared}
    (hafter : RunsOnly target (after.getD (.unseen name))) (hbefore : RunsOnly target (before.getD (.unseen name))) :
    RunsOnly target (merged name after before) := by
  unfold RunsOnly
  rw [merged_executes]
  cases hnewer : (after.getD (.unseen name)).executes with
  | none => exact hbefore
  | some =>
    rcases hafter with hnone | hsame
    · rw [hnewer] at hnone
      cases hnone
    · exact .inr (hnewer.symm.trans hsame)

theorem RunsOnly.agrees {p q : Prepared} (hp : RunsOnly target p) (hq : RunsOnly target q) :
    p.executes = none ∨ q.executes = none ∨ q.executes = p.executes := by
  rcases hp with hp | hp
  · exact .inl hp
  · rcases hq with hq | hq
    · exact .inr (.inl hq)
    · exact .inr (.inr (hq.trans hp.symm))

theorem Change.effect_cases (change : Change) (name : Key) :
    (∀ m s : Statements, change.effect m name = change.effect s name) ∨
      ∀ m : Statements, change.effect m name = m name := by
  cases change with
  | prepare changed prepared | deallocate changed =>
    by_cases hname : name = changed
    · subst hname
      refine .inl fun m s => ?_
      change update m name _ name = update s name _ name
      rw [update_self, update_self]
    · exact .inr fun m => update_of_ne hname _ _
  | deallocateAll => exact .inl fun m s => rfl
  | closePortal => exact .inr fun m => rfl

theorem choice_cases (change : Change) (choice : Bool) (m s : Statements) (name : Key) :
    (if choice then change.effect s else s) name = change.effect m name ∨
      (if choice then change.effect s else s) name = s name := by
  cases choice with
  | false => exact .inr rfl
  | true =>
    rcases change.effect_cases name with hsame | hleft
    · exact .inl (hsame s m)
    · exact .inr (hleft s)

/-- Whichever of the traced changes were made, the end of the batch covers what a name then stands
for: the statement there was before them all, or one that the settled one was made of. -/
theorem Traced.covered_made {m₀ m : Statements} {us : List Unconfirmed} (h : Traced m₀ us m) {name : Key}
    (hrecords : ∀ u ∈ us, ∀ before, u.before.recorded name = some before → RunsOnly target (before.getD (.unseen name)))
    (choices : List Bool) {s x : Statements} (hlast : Covered (Statements.at m name) (Statements.at x name))
    (honly : RunsOnly target (Statements.at x name))
    (hs : s name = m₀ name ∨ Covered (Statements.at s name) (Statements.at x name)) :
    Covered (Statements.at (made (us.map fun u => (u.change, u.via)) choices s) name)
      (Statements.at (us.foldl (fun m u => u.before.settle m) x) name) := by
  induction us generalizing m₀ s x choices with
  | nil =>
    obtain rfl : m = m₀ := h
    rcases hs with hs | hs
    · change Covered ((s name).getD _) _
      rw [hs]
      exact hlast
    · exact hs
  | cons u us ih =>
    obtain ⟨hrecord, hlater⟩ := List.forall_mem_cons.mp hrecords
    have hchoice := choice_cases u.change (choices.headD false) m₀ s name
    cases hrec : u.before.recorded name with
    | none =>
      have hsame : u.change.effect m₀ name = m₀ name := by
        rw [← Before.restore_of_not_recorded hrec (m := u.change.effect m₀)]
        exact congrFun h.1 name
      have hsettle := Before.at_settle_of_not_recorded hrec (m := x)
      apply ih h.2 hlater choices.tail
      · rw [hsettle]
        exact hlast
      · rw [hsettle]
        exact honly
      · rw [hsettle]
        rcases hchoice with hmade | hleft
        · exact .inl hmade
        · rcases hs with hs | hs
          · exact .inl (hleft.trans (hs.trans hsame.symm))
          · refine .inr ?_
            unfold Statements.at at hs ⊢
            rw [hleft]
            exact hs
    | some before =>
      have hbefore : m₀ name = before := (congrFun h.1 name).symm.trans (Before.restore_of_recorded hrec)
      have hbeforeOnly := hrecord before hrec
      have hsettle := Before.at_settle_of_recorded hrec (m := x)
      apply ih h.2 hlater choices.tail
      · rw [hsettle]
        exact hlast.merged_after before
      · rw [hsettle]
        exact honly.merged hbeforeOnly
      · rw [hsettle]
        rcases hchoice with hmade | hleft
        · exact .inl hmade
        · refine .inr ?_
          unfold Statements.at at hs ⊢
          rw [hleft]
          rcases hs with hs | hs
          · -- the statement from before the change is one of the two that are merged
            rw [hs, hbefore]
            exact .merged_before (x name) (.refl _) (hbeforeOnly.agrees honly)
          · exact hs.merged_after before

end Settling

section Sessions

variable {k k' : Known}

/-- What is known of the statements is what the names keep of them. -/
structure Known.Kept (k : Known) : Prop where
  balanced : k.names.Balanced
  unanswered : k.names.unconfirmed.map (fun u => (u.change, u.via)) = k.unanswered
  traced : Traced k.base k.names.unconfirmed k.names.statements.lookup

theorem Known.Kept.send (h : k.Kept) (sent : Sent) :
    ∃ k', k.call (.send sent) = some k' ∧ k'.Kept := by
  let bound : Names := { k.names with unnamedPortal := sent.unnamedPortal.getD k.names.unnamedPortal }
  have hbound : bound.Balanced := h.balanced
  obtain ⟨names, us, hfold, hbal, hunconf, hchanges, -, -, htraced⟩ := foldlM_sendChange_traced hbound sent.changes
  have hsend : k.names.send sent = some names := hfold
  refine ⟨{ k with names := names, unanswered := k.unanswered ++ sent.changes }, ?_, ⟨hbal, ?_, ?_⟩⟩
  · change (k.names.send sent).map _ = _
    rw [hsend]
    rfl
  · rw [hunconf, List.map_append, hchanges]
    exact congrArg (· ++ sent.changes) h.unanswered
  · rw [hunconf]
    exact htraced k.base k.names.unconfirmed h.traced

theorem Known.Kept.error (h : k.Kept) (body : List UInt8) :
    ∃ k', k.call (.observe (byte 'E') body) = some k' ∧ k'.Kept := by
  obtain ⟨names, hobs, hbal, hnone, _, hlookup⟩ := observe_error_spec h.balanced body
  refine ⟨⟨names, k.base, []⟩, ?_, ⟨hbal, ?_, ?_⟩⟩
  · change (k.names.observe (byte 'E') body).map _ = _
    rw [hobs]
    rfl
  · rw [hnone]
    rfl
  · rw [hnone, hlookup, h.traced.restore]
    rfl

theorem Known.Kept.ready (h : k.Kept) (body : List UInt8) :
    ∃ k', k.call (.observe (byte 'Z') body) = some k' ∧ k'.Kept ∧
      k'.names.statements.lookup =
        k.names.unconfirmed.foldl (fun m u => u.before.settle m) k.names.statements.lookup := by
  obtain ⟨names, hsettle, hbal, hnone, _, hlookup⟩ := settle_spec h.balanced (body.head? == some (byte 'I'))
  have hobs : k.names.observe (byte 'Z') body = some names := hsettle
  refine ⟨⟨names, names.statements.lookup, []⟩, ?_, ⟨hbal, ?_, ?_⟩, hlookup⟩
  · change (k.names.observe (byte 'Z') body).map _ = _
    rw [hobs]
    rfl
  · rw [hnone]
    rfl
  · rw [hnone]
    rfl

theorem Known.Kept.answer (h : k.Kept) {tag : UInt8} (body : List UInt8) (herror : tag ≠ byte 'E')
    (hready : tag ≠ byte 'Z') : ∃ k', k.call (.observe tag body) = some k' ∧ k'.Kept := by
  have hobs : k.names.observe tag body = _ := observe_of_answer tag body herror hready
  have hcall : k.call (.observe tag body) = some (match k.unanswered with
      | [] => ⟨if k.names.confirms tag body then
          { k.names with unconfirmed := k.names.unconfirmed.tail } else k.names, k.base, []⟩
      | (change, via) :: rest =>
        if change.confirmedBy via tag (Names.commandTag tag body) then
          ⟨if k.names.confirms tag body then
            { k.names with unconfirmed := k.names.unconfirmed.tail } else k.names, change.effect k.base, rest⟩
        else ⟨if k.names.confirms tag body then
          { k.names with unconfirmed := k.names.unconfirmed.tail } else k.names, k.base, k.unanswered⟩) := by
    change (k.names.observe tag body).map _ = _
    rw [hobs, map_some, if_neg herror, if_neg hready]
  refine ⟨_, hcall, ?_⟩
  have htraced := h.traced
  unfold Names.confirms
  rw [← h.unanswered]
  cases hnames : k.names.unconfirmed with
  | nil =>
    exact ⟨h.balanced, by simp [hnames], by simpa [hnames] using htraced⟩
  | cons u us =>
    rw [hnames] at htraced
    change Known.Kept (if u.change.confirmedBy u.via tag (Names.commandTag tag body) = true then
        ⟨if u.change.confirmedBy u.via tag (Names.commandTag tag body) = true then
          { k.names with unconfirmed := us } else k.names, u.change.effect k.base, us.map fun u => (u.change, u.via)⟩
      else ⟨if u.change.confirmedBy u.via tag (Names.commandTag tag body) = true then
          { k.names with unconfirmed := us } else k.names, k.base, (u :: us).map fun u => (u.change, u.via)⟩)
    by_cases hconfirmed : u.change.confirmedBy u.via tag (Names.commandTag tag body) = true
    · rw [if_pos hconfirmed, if_pos hconfirmed]
      exact ⟨h.balanced, rfl, htraced.2⟩
    · rw [if_neg hconfirmed, if_neg hconfirmed]
      refine ⟨h.balanced, ?_, ?_⟩
      · exact congrArg (List.map _) hnames
      · rw [hnames]
        exact htraced

/-- A call keeps the knowledge. -/
theorem Known.Kept.call (h : k.Kept) (call : Call) : ∃ k', k.call call = some k' ∧ k'.Kept := by
  cases call with
  | send sent => exact h.send sent
  | observe tag body =>
    by_cases herror : tag = byte 'E'
    · subst herror
      exact h.error body
    by_cases hready : tag = byte 'Z'
    · subst hready
      obtain ⟨k', hcall, hkept, _⟩ := h.ready body
      exact ⟨k', hcall, hkept⟩
    · exact h.answer body herror hready

/-- Nothing is known at first. -/
theorem Known.kept_init : Known.init.Kept := ⟨rfl, rfl, rfl⟩

/-- Any calls keep the knowledge. -/
theorem calls_known (calls : List Call) :
    ∃ k, run Known.call .init calls = some k ∧ k.Kept := by
  have hrun (k : Known) (h : k.Kept) : ∃ k', run Known.call k calls = some k' ∧ k'.Kept := by
    induction calls generalizing k with
    | nil => exact ⟨k, rfl, h⟩
    | cons call calls ih =>
      obtain ⟨first, hfirst, hkept⟩ := h.call call
      obtain ⟨last, hlast, hkept'⟩ := ih first hkept
      exact ⟨last, (run_cons_eq_some_iff Known.call k last call calls).mpr ⟨first, hfirst, hlast⟩, hkept'⟩
  exact hrun .init Known.kept_init

theorem runsOnly_of_mayRun {names : Names} {name : Key}
    (hone : ∀ target target', names.MayRun name target → names.MayRun name target' → target = target') :
    ∃ target, RunsOnly target (Statements.at names.statements.lookup name) ∧
      ∀ u ∈ names.unconfirmed, ∀ before, u.before.recorded name = some before →
        RunsOnly target (before.getD (.unseen name)) := by
  have honly {target : Option Key} (htarget : ∀ run, names.MayRun name run → target = some run)
      {prepared : Prepared} (hmay : ∀ run, prepared.executes = some run → names.MayRun name run) :
      RunsOnly target prepared := by
    cases hruns : prepared.executes with
    | none => exact .inl hruns
    | some run => exact .inr (hruns.trans (htarget run (hmay run hruns)).symm)
  have hall : ∃ target : Option Key, ∀ run, names.MayRun name run → target = some run := by
    by_cases hsome : ∃ run, names.MayRun name run
    · obtain ⟨run, hrun⟩ := hsome
      exact ⟨some run, fun run' hrun' => congrArg some (hone run run' hrun hrun')⟩
    · exact ⟨none, fun run hrun => absurd ⟨run, hrun⟩ hsome⟩
  obtain ⟨target, htarget⟩ := hall
  refine ⟨target, honly htarget fun run hruns => .inl hruns, fun u hu before hrec => ?_⟩
  cases before with
  | none => exact .inl rfl
  | some prepared => exact honly htarget fun run hruns => .inr ⟨u, hu, prepared, hrec, hruns⟩

/-- Where each name may run at most one other statement by name, `ReadyForQuery` leaves names that are
judged at least as strictly as with any choice of the unanswered changes. -/
theorem Known.Kept.conservative (h : k.Kept) {call : Call} (hone : OneTarget k call)
    (hcall : k.call call = some k') : Conservative k call k' := by
  intro body hready name choices
  subst hready
  obtain ⟨after, hafter, _, hlookup⟩ := h.ready body
  obtain rfl := some.inj (hafter.symm.trans hcall)
  have hcov : View.CoveredBy ⟨made k.unanswered choices k.base, none⟩ after.names.view := by
    intro name
    obtain ⟨target, honly, hrecords⟩ := runsOnly_of_mayRun (hone body rfl (key name))
    have hmade := h.traced.covered_made hrecords choices (.refl _) honly (.inl rfl)
    rw [h.unanswered, ← hlookup] at hmade
    exact hmade
  have hruns := hcov.runs_le name
  unfold Draft.runsStatement
  rw [Draft.runs_eq]
  exact hruns

/-- A session never fails; and where at each `ReadyForQuery` the states of each name run at most one
other statement by name, running any name afterwards is judged at least as strictly as with any
choice of the changes that were left unanswered. -/
theorem uncertain_names_conservative (calls : List Call) :
    (∃ k, run Known.call .init calls = some k) ∧
      (Runs.Meets Known.call OneTarget .init calls → Runs.Each Known.call Conservative .init calls) := by
  obtain ⟨k, hrun, _⟩ := calls_known calls
  refine ⟨⟨k, hrun⟩, fun hone => ?_⟩
  refine each_of_meets Known.call (fun k call k' h hone hcall => ?_) Known.kept_init hone
  obtain ⟨after, hafter, hkept⟩ := h.call call
  cases hafter.symm.trans hcall
  exact ⟨hkept, h.conservative hone hcall⟩

end Sessions

section Examples

/-- A statement that runs another by name. -/
def executing (name : String) : Prepared := ⟨.judged .read, "EXECUTE ".toList ++ name.toList, some (bytes name)⟩

/-- A statement is prepared that runs one by name that deletes. A batch fails with more of it to come,
which prepares that statement anew to run a query by name; the server skips that. -/
def skippedPrepare : List Call :=
  [.send ⟨[(.prepare (bytes "m") ⟨.judged .read, "SELECT x FROM t".toList, none⟩, .message),
      (.prepare (bytes "n") ⟨.judged .write, "DELETE FROM t".toList, none⟩, .message),
      (.prepare (bytes "s") (executing "n"), .message)], none⟩,
    .observe (byte '1') [], .observe (byte '1') [], .observe (byte '1') [], .observe (byte 'Z') [byte 'I'],
    .send ⟨[(.prepare (bytes "x") ⟨.judged .read, "SELECT y FROM t".toList, none⟩, .message)], none⟩,
    .observe (byte 'E') [], .send ⟨[(.prepare (bytes "s") (executing "m"), .message)], none⟩]

/-- The statement still deletes, and running it is judged to read. -/
theorem not_names_conservative : ¬ ∀ calls, Runs.Each Known.call Conservative .init calls := by
  intro hall
  have hrun : (run Known.call .init skippedPrepare).map (fun k =>
      (((made k.unanswered [false] k.base).runsName (bytes "s")).rank,
        (k.call (.observe (byte 'Z') [byte 'I'])).map fun k' =>
          ((Draft.new k'.names).runsStatement (bytes "s")).rank)) = some (2, some 1) := by decide +kernel
  obtain ⟨k, hk, hstate⟩ := map_eq_some_iff.mp hrun
  obtain ⟨hbefore, hstate⟩ := Prod.mk.inj hstate
  obtain ⟨k', hk', hafter⟩ := map_eq_some_iff.mp hstate
  have hstrict := hall (skippedPrepare ++ [.observe (byte 'Z') [byte 'I']]) skippedPrepare
    (.observe (byte 'Z') [byte 'I']) [] k k' rfl hk hk' [byte 'I'] rfl (bytes "s") [false]
  rw [hbefore, hafter] at hstrict
  exact absurd hstrict (by decide)

/-- A statement that runs another by name is prepared, and the server leaves that unanswered. -/
def unansweredPrepare : List Call :=
  [.send ⟨[(.prepare (bytes "s") (executing "n"), .message)], none⟩, .observe (byte 'Z') [byte 'I']]

/-- It may run nothing but that one, so it is judged at least as strictly as with it or without. -/
theorem uncertain_names_conservative_unanswered :
    Runs.Each Known.call Conservative .init unansweredPrepare := by
  refine (uncertain_names_conservative unansweredPrepare).2 ⟨fun body h => ?_, fun k hk => ?_⟩
  · cases h
  · have hstatements : k.names.statements = Table.empty.insert (bytes "s") (executing "n") := by
      cases hk
      rfl
    have hunconfirmed : k.names.unconfirmed = [⟨.prepare (bytes "s") (executing "n"), .message,
        .statement (bytes "s") none⟩] := by
      cases hk
      rfl
    have hone (name run : Key) (hrun : k.names.MayRun name run) : run = bytes "n" := by
      rcases hrun with hruns | ⟨u, hu, prepared, hrecorded, -⟩
      · unfold Statements.at at hruns
        rw [hstatements, Table.lookup_insert] at hruns
        by_cases hname : name = bytes "s"
        · rw [hname] at hruns
          exact (some.inj hruns).symm
        · rw [update_of_ne hname] at hruns
          cases hruns
      · rw [hunconfirmed] at hu
        cases List.mem_singleton.mp hu
        change (if bytes "s" = name then some none else none) = some (some prepared) at hrecorded
        by_cases hname : bytes "s" = name
        · rw [if_pos hname] at hrecorded
          cases hrecorded
        · rw [if_neg hname] at hrecorded
          cases hrecorded
    refine ⟨fun body _ name target target' htarget htarget' => ?_, fun _ _ => trivial⟩
    exact (hone name target htarget).trans (hone name target' htarget').symm

end Examples

end Onecli.Postgres
