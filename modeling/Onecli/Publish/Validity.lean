import Onecli.Publish.InSync

/-!
# No invalid rule is live

A rule is valid when it is created, and the rules of a grant are. An update checks its input merged with the rule that it
read, and writes its input over the rule that is there: what comes of it is valid exactly when no field that is set
conflicts with one that has been left, and changed in the meantime.
-/

namespace Onecli.Publish

open List Option Runs

section Targets

theorem any_dedupe {α κ : Type} [DecidableEq κ] {key : α → Option κ} {p : α → Bool} {seen : List κ} {l : List α}
    (hseen : ∀ a k, p a = true → key a = some k → k ∉ seen)
    (hapart : ∀ a b k, p a = true → p b = false → key a = some k → key b ≠ some k) :
    (dedupe key seen l).any p = l.any p := by
  induction l generalizing seen with
  | nil => rfl
  | cons a rest ih =>
    rw [dedupe]
    split
    · rw [any_cons, any_cons, ih hseen]
    · rename_i k hkey
      cases hp : p a with
      | true => rw [if_neg (hseen a k hp hkey), any_cons, any_cons, hp, Bool.true_or, Bool.true_or]
      | false =>
        split
        · rw [any_cons, hp, Bool.false_or, ih hseen]
        · rw [any_cons, any_cons, hp, Bool.false_or, Bool.false_or, ih]
          intro b j hb hj hmem
          rcases mem_cons.mp hmem with rfl | hmem
          · exact hapart b a j hb hp hj hkey
          · exact hseen b j hb hj hmem

theorem any_isConnection_dedupeTargets (targets : List Target) :
    (dedupeTargets targets).any Target.isConnection = targets.any Target.isConnection := by
  refine any_dedupe (fun _ _ _ _ => not_mem_nil) fun a b k ha hb hkey hkey' => ?_
  cases a with
  | connection =>
    cases b with
    | connection => cases hb
    | app | network => cases hkey'
    | secret secretId =>
      cases secretId with
      | none => cases hkey'
      | some =>
        cases hkey
        cases some.inj hkey'
  | _ => cases ha

theorem sessionPolicyValid_iff (targets : List Target) (conds : Option Conditions) (action : Action) :
    sessionPolicyValid targets conds action = true ↔
      (isSessionPolicy conds = true → action = .allow ∧ targets.any Target.isConnection = true) := by
  rw [sessionPolicyValid]
  cases isSessionPolicy conds <;> simp

end Targets

section Rules

theorem valid_of_create {input : CreatePolicyRuleInput} (hschema : createPolicyRuleSchema input = true)
    (hsess : sessionPolicyValid (input.targets.getD []) input.conditions input.action = true) {rule : Rule}
    (haction : rule.action = input.action) (hrateLimit : rule.rateLimit = input.rateLimit)
    (hwindow : rule.rateLimitWindow = input.rateLimitWindow)
    (happroval : rule.requireApproval = input.requireApproval.getD false)
    (hconds : rule.conditions = input.conditions)
    (htargets : rule.targets = dedupeTargets (input.targets.getD [])) : rule.Valid := by
  obtain ⟨hmodifiers, hpaired, -⟩ := of_decide_eq_true hschema
  rw [Rule.Valid, haction, hrateLimit, hwindow, happroval, hconds, htargets, any_isConnection_dedupeTargets]
  refine ⟨fun hblock => ?_, hpaired, (sessionPolicyValid_iff _ _ _).mp hsess⟩
  rcases hmodifiers with hallow | ⟨hnone, -, hno⟩
  · exact absurd hblock hallow
  · exact ⟨hnone, hno⟩

theorem valid_grant (create : GrantCreate) (logicalId priority : ℕ) : (create.rule logicalId priority).Valid := by
  cases create with
  | connection name choice =>
    cases choice <;> simp [Rule.Valid, GrantCreate.rule, isSessionPolicy, Target.isConnection]
  | secret => simp [Rule.Valid, GrantCreate.rule, isSessionPolicy]

theorem valid_of_blank {rule : Rule} (h : rule.Blank) (action : Action) : Rule.Valid { rule with action := action } := by
  obtain ⟨-, -, hrateLimit, hwindow, happroval, hconds⟩ := h
  refine ⟨fun _ => ⟨hrateLimit, happroval⟩, ?_, fun hsess => ?_⟩
  · rw [hrateLimit, hwindow]
    rfl
  · rw [hconds] at hsess
    cases hsess

end Rules

namespace UpdatePolicyRuleInput

variable {input : UpdatePolicyRuleInput} {existing rule : Rule}

theorem block_apply_iff
    (hcheck : ¬ (input.action.getD existing.action = .block ∧
      ((input.rateLimit.getD existing.rateLimit).isSome = true ∨
        (input.rateLimitWindow.getD existing.rateLimitWindow).isSome = true ∨
          input.requireApproval.getD existing.requireApproval = true)))
    (hvalid : rule.action = .block → rule.rateLimit = none ∧ rule.requireApproval = false) :
    ((input.apply rule).action = .block →
        (input.apply rule).rateLimit = none ∧ (input.apply rule).requireApproval = false) ↔
      (input.action = some .block →
          (input.rateLimit = none → rule.rateLimit = none) ∧
            (input.requireApproval = none → rule.requireApproval = false)) ∧
        (input.action = none → rule.action = .block →
          input.rateLimit.join = none ∧ input.requireApproval ≠ some true) := by
  rw [apply]
  cases haction : input.action with
  | none => cases hlimit : input.rateLimit <;> cases happroval : input.requireApproval <;> simp_all
  | some action =>
    cases action with
    | allow => simp
    | block => cases hlimit : input.rateLimit <;> cases happroval : input.requireApproval <;> simp_all

theorem paired_apply_iff
    (hcheck : (input.rateLimit.getD existing.rateLimit).isSome =
      (input.rateLimitWindow.getD existing.rateLimitWindow).isSome)
    (hvalid : rule.rateLimit.isSome = rule.rateLimitWindow.isSome) :
    (input.apply rule).rateLimit.isSome = (input.apply rule).rateLimitWindow.isSome ↔
      (∀ rateLimit ∈ input.rateLimit, input.rateLimitWindow = none → rateLimit.isSome = rule.rateLimitWindow.isSome) ∧
        ∀ window ∈ input.rateLimitWindow, input.rateLimit = none → rule.rateLimit.isSome = window.isSome := by
  rw [apply]
  cases hlimit : input.rateLimit <;> cases hwindow : input.rateLimitWindow <;> simp_all

theorem session_apply_iff
    (hcheck : input.conditions.isSome = true ∨ input.targets.isSome = true ∨ input.action.isSome = true →
      isSessionPolicy (input.conditions.getD existing.conditions) = true →
        input.action.getD existing.action = .allow ∧
          (input.targets.getD (existing.targets.filter Target.isConnection)).any Target.isConnection = true)
    (hvalid : isSessionPolicy rule.conditions = true →
      rule.action = .allow ∧ rule.targets.any Target.isConnection = true) :
    (isSessionPolicy (input.apply rule).conditions = true →
        (input.apply rule).action = .allow ∧ (input.apply rule).targets.any Target.isConnection = true) ↔
      (input.conditions = none → isSessionPolicy rule.conditions = true →
          input.action ≠ some .block ∧ ∀ targets ∈ input.targets, targets.any Target.isConnection = true) ∧
        ∀ conds ∈ input.conditions, isSessionPolicy conds = true →
          (input.action = none → rule.action = .allow) ∧
            (input.targets = none → rule.targets.any Target.isConnection = true) := by
  have htargets : ((input.targets.map dedupeTargets).getD rule.targets).any Target.isConnection =
      (input.targets.getD rule.targets).any Target.isConnection := by
    cases input.targets with
    | none => rfl
    | some targets => exact any_isConnection_dedupeTargets targets
  rw [apply]
  rw [htargets]
  cases hconds : input.conditions with
  | none =>
    simp only [mem_def, getD_none, forall_const, reduceCtorEq, false_implies, and_true]
    refine forall_congr' fun hsess => ?_
    obtain ⟨hallow, hconn⟩ := hvalid hsess
    refine and_congr ?_ ?_
    · cases input.action with
      | none => simp [hallow]
      | some action => cases action <;> simp
    · cases input.targets <;> simp [hconn]
  | some =>
    rw [hconds] at hcheck
    simp only [mem_def, getD_some, reduceCtorEq, false_implies, true_and, Option.some.injEq, forall_eq']
    refine forall_congr' fun hsess => ?_
    obtain ⟨hallow, hconn⟩ := hcheck (.inl rfl) hsess
    refine and_congr ?_ ?_
    · cases haction : input.action with
      | none => simp
      | some =>
        rw [haction] at hallow
        simpa using hallow
    · cases hset : input.targets with
      | none => simp
      | some =>
        rw [hset] at hconn
        simpa using hconn

/-- An edit keeps a rule valid exactly where it agrees. -/
theorem valid_apply_iff (hcheck : input.check existing = true) (hvalid : rule.Valid) :
    (input.apply rule).Valid ↔ input.Agrees rule := by
  obtain ⟨hblock, hpaired, -, hsess⟩ := of_decide_eq_true hcheck
  rw [Rule.Valid, Agrees, block_apply_iff hblock hvalid.1, paired_apply_iff hpaired hvalid.2.1,
    session_apply_iff (fun hset => (sessionPolicyValid_iff _ _ _).mp (hsess hset)) hvalid.2.2]
  simp only [and_assoc]

end UpdatePolicyRuleInput

namespace World

variable {w : World}

/-- An inserted rule must be valid. -/
theorem allValid_insert_iff (rule : ℕ → Rule) : (w.insert rule).AllValid ↔ w.AllValid ∧ (rule w.created).Valid := by
  constructor
  · intro hall
    refine ⟨fun row hrow => hall row (mem_append_left _ hrow), ?_⟩
    exact hall ⟨w.created, rule w.created⟩ (mem_append_right _ mem_cons_self)
  · intro h row hrow
    rcases mem_append.mp hrow with hrow | hnew
    · exact h.1 row hrow
    · rw [mem_singleton.mp hnew]
      exact h.2

theorem allValid_ensureDefault_iff : w.ensureDefault.AllValid ↔ w.AllValid := by
  rw [ensureDefault]
  split
  · exact Iff.rfl
  · rw [allValid_insert_iff, and_iff_left_iff_imp]
    intro _
    exact ⟨fun _ => ⟨rfl, rfl⟩, rfl, fun hsess => by cases hsess⟩

theorem allValid_publishDraftInTx_iff : w.publishDraftInTx.AllValid ↔ w.AllValid := allValid_ensureDefault_iff

theorem AllValid.filter (h : w.AllValid) (p : Row → Bool) : AllValid { w with draft := w.draft.filter p } :=
  fun row hrow => h row (mem_of_mem_filter hrow)

theorem AllValid.appendRules (h : w.AllValid) (priority : ℕ) (creates : List GrantCreate) :
    (w.appendRules priority creates).AllValid := by
  induction creates generalizing w priority with
  | nil => exact h
  | cons create rest ih => exact ih ((allValid_insert_iff _).mpr ⟨h, valid_grant create _ _⟩) (priority + 1)

theorem valid_forget {principal : Identity} {rule rule' : Rule} (h : rule.forget principal = some rule')
    (hvalid : rule.Valid) : rule'.Valid := by
  rw [Rows.forget_eq h]
  exact hvalid

@[simp] theorem updates_publishDraftInTx : w.publishDraftInTx.updates = w.updates := by
  rw [publishDraftInTx, ensureDefault]
  split <;> rfl

@[simp] theorem updates_appendRules (priority : ℕ) (creates : List GrantCreate) :
    (w.appendRules priority creates).updates = w.updates := by
  induction creates generalizing w priority with
  | nil => rfl
  | cons create rest ih => exact ih (priority + 1)

theorem AllValid.update_iff (h : w.AllValid) {id : ℕ} {input : UpdatePolicyRuleInput} {existing : Rule}
    (hcheck : input.check existing = true) :
    (w.updatePolicyRule id input).AllValid ↔ ∀ row ∈ w.draft, row.id = id → input.Agrees row.rule := by
  rw [updatePolicyRule]
  split
  · rw [allValid_publishDraftInTx_iff]
    refine List.forall_mem_map.trans (forall₂_congr fun row hrow => ?_)
    split
    · rename_i hid
      rw [forall_prop_of_true hid]
      exact input.valid_apply_iff hcheck (h row hrow)
    · rename_i hid
      exact iff_of_true (h row hrow) fun heq => absurd heq hid
  · rename_i hgone
    refine iff_of_true h fun row hrow hid => absurd ?_ hgone
    exact List.any_eq_true.mpr ⟨row, hrow, decide_eq_true hid⟩

end World

/-- What holds as long as updates agree with the rules that they are written over. -/
structure Checked (w : World) : Prop where
  sound : Sound w
  valid : w.AllValid
  -- an update has passed the checks with some rule that it read
  checked : ∀ i id input, w.updates i = some (id, input) → ∃ existing, input.check existing = true

namespace Checked

variable {u v : World}

/-- All rows stay valid exactly where the writer's read still agrees. -/
theorem allValid_iff {e : Event} (h : Checked u) (hstep : step u e = some v) : v.AllValid ↔ Agrees u e := by
  cases e with
  | create =>
    obtain ⟨hschema, hv⟩ := ite_none_right_eq_some.mp hstep
    refine iff_of_true ?_ trivial
    split at hv
    · exact some.inj hv ▸ h.valid
    · rename_i haccepted
      cases hv
      have hsess := Decidable.not_not.mp (not_or.mp haccepted).2
      rw [World.createPolicyRule, World.allValid_publishDraftInTx_iff, World.allValid_insert_iff]
      exact ⟨h.valid, valid_of_create hschema hsess rfl rfl rfl rfl rfl rfl⟩
  | read =>
    refine iff_of_true ?_ trivial
    rw [Publish.step] at hstep
    split at hstep
    · split at hstep <;> exact some.inj hstep ▸ h.valid
    · exact some.inj hstep ▸ h.valid
  | update i =>
    rw [Publish.step] at hstep
    split at hstep
    · rename_i id input hupdate
      cases hstep
      obtain ⟨existing, hcheck⟩ := h.checked i id input hupdate
      rw [Agrees, hupdate]
      refine (h.valid.update_iff hcheck).trans ?_
      constructor
      · rintro hagrees update hread
        cases hread
        exact hagrees
      · exact fun hagrees => hagrees (id, input) rfl
    · cases hstep
  | delete =>
    cases hstep
    refine iff_of_true ?_ trivial
    rw [World.deletePolicyRule]
    split
    · rw [World.allValid_publishDraftInTx_iff]
      exact h.valid.filter _
    · exact h.valid
  | reorder =>
    cases hstep
    refine iff_of_true ?_ trivial
    rw [World.reorderPolicyRules]
    split
    · rw [World.allValid_publishDraftInTx_iff]
      refine List.forall_mem_map.mpr fun row hrow => ?_
      split <;> exact h.valid row hrow
    · exact h.valid
  | setDefault action =>
    cases hstep
    refine iff_of_true ?_ trivial
    rw [World.setPolicyDefaultAction, World.allValid_publishDraftInTx_iff]
    refine List.forall_mem_map.mpr fun row hrow => ?_
    split
    · rename_i hdefault
      exact valid_of_blank (h.sound.rows.ensureDefault.tidy.blank row hrow hdefault) action
    · exact World.allValid_ensureDefault_iff.mpr h.valid row hrow
  | replace deleteWhere creates =>
    cases hstep
    refine iff_of_true ?_ trivial
    rw [World.replaceAndPublish, World.allValid_publishDraftInTx_iff]
    exact (h.valid.filter _).appendRules _ creates
  | attach where' creates =>
    cases hstep
    refine iff_of_true ?_ trivial
    rw [World.attachDefaultConnectionGrant]
    split
    · exact h.valid
    · rw [World.allValid_publishDraftInTx_iff]
      exact h.valid.appendRules _ creates
  | drop =>
    cases hstep
    refine iff_of_true (fun row' hrow' => ?_) trivial
    obtain ⟨row, hrow, hforget⟩ := mem_filterMap.mp hrow'
    obtain ⟨rule, hrule, rfl⟩ := map_eq_some_iff.mp hforget
    exact World.valid_forget hrule (h.valid row hrow)
  | publish =>
    cases hstep
    exact iff_of_true (World.allValid_publishDraftInTx_iff.mpr h.valid) trivial

theorem updates_of_step {e : Event} (h : Checked u) (hstep : step u e = some v) {i id : ℕ}
    {input : UpdatePolicyRuleInput} (hupdate : v.updates i = some (id, input)) :
    ∃ existing, input.check existing = true := by
  have hsame (hupdates : v.updates = u.updates) : ∃ existing, input.check existing = true := by
    rw [hupdates] at hupdate
    exact h.checked i id input hupdate
  cases e with
  | create =>
    obtain ⟨-, hv⟩ := ite_none_right_eq_some.mp hstep
    split at hv
    · exact hsame (some.inj hv ▸ rfl)
    · exact hsame (some.inj hv ▸ World.updates_publishDraftInTx)
  | read j =>
    rw [Publish.step] at hstep
    split at hstep
    · rename_i row hfind
      split at hstep
      · rename_i hcheck
        cases hstep
        dsimp only at hupdate
        obtain ⟨-, hupdate⟩ | ⟨-, hupdate⟩ := update_cases hupdate
        · obtain ⟨-, rfl⟩ := Prod.mk.inj (some.inj hupdate)
          exact ⟨row.rule, hcheck⟩
        · exact h.checked i id input hupdate
      · exact hsame (some.inj hstep ▸ rfl)
    · exact hsame (some.inj hstep ▸ rfl)
  | update j =>
    rw [Publish.step] at hstep
    split at hstep
    · cases hstep
      dsimp only at hupdate
      obtain ⟨-, hupdate⟩ | ⟨-, hupdate⟩ := update_cases hupdate
      · cases hupdate
      · exact h.checked i id input hupdate
    · cases hstep
  | delete =>
    refine hsame ?_
    rw [← some.inj hstep, World.deletePolicyRule]
    split
    · exact World.updates_publishDraftInTx
    · rfl
  | reorder =>
    refine hsame ?_
    rw [← some.inj hstep, World.reorderPolicyRules]
    split
    · exact World.updates_publishDraftInTx
    · rfl
  | setDefault =>
    refine hsame ?_
    rw [← some.inj hstep, World.setPolicyDefaultAction, World.updates_publishDraftInTx, World.ensureDefault]
    split <;> rfl
  | replace =>
    refine hsame ?_
    rw [← some.inj hstep, World.replaceAndPublish, World.updates_publishDraftInTx, World.appendGrantRules,
      World.updates_appendRules]
  | attach =>
    refine hsame ?_
    rw [← some.inj hstep, World.attachDefaultConnectionGrant]
    split
    · rfl
    · rw [World.updates_publishDraftInTx, World.appendGrantRules, World.updates_appendRules]
  | drop => exact hsame (some.inj hstep ▸ rfl)
  | publish => exact hsame (some.inj hstep ▸ World.updates_publishDraftInTx)

/-- A writer whose read agrees keeps the rows checked. -/
theorem step {e : Event} (h : Checked u) (hagrees : Agrees u e) (hstep : step u e = some v) : Checked v where
  sound := h.sound.step hstep
  valid := (h.allValid_iff hstep).mpr hagrees
  checked := fun _ _ _ hupdate => h.updates_of_step hstep hupdate

/-- Nothing is published. -/
theorem empty : Checked World.empty where
  sound := Sound.empty
  valid := fun _ hrow => by cases hrow
  checked := fun _ _ _ hupdate => by cases hupdate

end Checked

/-- Draft and live policy never drift and no rule is ever invalid exactly where every update agrees with the rule that it
is written over. -/
theorem publish_exact {es : List Event} {t : World} (hrun : run step World.empty es = some t) :
    Runs.Throughout step (fun w => w.InSync ∧ w.Arranged ∧ w.AllValid) World.empty es ↔
      Runs.Meets step Agrees World.empty es := by
  refine throughout_iff_meets step (I := Checked) (fun w h => ?_) (fun u e v h hagrees hstep => h.step hagrees hstep)
    (fun u e v h hnot hstep hall => hnot ((h.allValid_iff hstep).mp hall.2.2)) .empty hrun
  obtain ⟨hinSync, harranged⟩ := h.sound.inSync_arranged
  exact ⟨hinSync, harranged, h.valid⟩

/-- An update that sets nothing. -/
def unset : UpdatePolicyRuleInput := ⟨none, none, none, none, none, none, none, none, none, none⟩

/-- A rule that allows without more. -/
def allowed : CreatePolicyRuleInput := ⟨"Mail", none, none, .allow, none, none, none, none, none, none⟩

/-- One update asks for approval and another renames the rule, and both have read it before they are written. -/
def renamed : List Event :=
  [.create { allowed with targets := some [.network "mail.example" none none] },
    .read 0 0 { unset with requireApproval := some true }, .read 1 0 { unset with name := some "Post" },
    .update 0, .update 1]

/-- Both are written over a rule that they agree with. -/
theorem publish_exact_renamed :
    Runs.Throughout step (fun w => w.InSync ∧ w.Arranged ∧ w.AllValid) World.empty renamed := by
  obtain ⟨t, ht⟩ := Option.isSome_iff_exists.mp
    (show (run step .empty renamed).isSome by decide +kernel)
  exact (publish_exact ht).mpr (by decide +kernel)

/-- One update asks for approval and another blocks, and both have read the rule before they are written. -/
def blocked : List Event :=
  [.create { allowed with targets := some [.network "mail.example" none none] },
    .read 0 0 { unset with requireApproval := some true }, .read 1 0 { unset with action := some .block },
    .update 0, .update 1]

/-- What is live is a block with an approval. -/
theorem block_with_approval :
    ¬ Runs.Throughout step (fun w => w.InSync ∧ w.Arranged ∧ w.AllValid) World.empty blocked := by
  intro hall
  obtain ⟨t, ht⟩ := Option.isSome_iff_exists.mp
    (show (run step .empty blocked).isSome by decide +kernel)
  have hend : (run step .empty blocked).all (fun w =>
      w.draft.any fun row => row.rule.action = .block && row.rule.requireApproval) = true := by
    decide +kernel
  rw [ht, Option.all_some, List.any_eq_true] at hend
  obtain ⟨row, hrow, hboth⟩ := hend
  obtain ⟨hblock, happroval⟩ := Bool.and_eq_true_iff.mp hboth
  have hvalid := (hall blocked [] t (List.append_nil _).symm ht).2.2 row hrow
  exact Bool.false_ne_true ((hvalid.1 (of_decide_eq_true hblock)).2.symm.trans happroval)

end Onecli.Publish
