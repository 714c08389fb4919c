import Onecli.Foundation.Runs
import Onecli.Publish.Draft
import Mathlib.Data.List.Perm.Basic

/-!
# The draft is what is live

Every writer leaves a draft whose rows have ids and logical ids of their own, whose priorities are distinct and which has
at most one default rule, and publishes it. A principal that is forgotten is forgotten in what is live as in the draft,
and the default rule, which names no one, stays in both.
-/

namespace Onecli.Publish

open Function (comp_apply update update_of_ne update_self)
open List Option Bool Nat

section Lists

variable {α β : Type}

theorem filterMap_filterMap_sublist {f : α → Option α} {g : α → Option β} {l : List α}
    (hf : ∀ a ∈ l, ∀ b, f a = some b → g b = g a) : ((l.filterMap f).filterMap g).Sublist (l.filterMap g) := by
  induction l with
  | nil => exact List.Sublist.refl _
  | cons a rest ih =>
    have hrest := ih fun c hc => hf c (mem_cons_of_mem a hc)
    cases hfa : f a with
    | none =>
      rw [filterMap_cons_none hfa]
      exact hrest.trans ((sublist_cons_self a rest).filterMap g)
    | some b =>
      rw [filterMap_cons_some hfa, filterMap_cons, filterMap_cons, hf a mem_cons_self b hfa]
      cases g a with
      | none => exact hrest
      | some c => exact hrest.cons_cons c

theorem map_filter_eq (p : α → Bool) (g : α → β) (l : List α) :
    (l.filter p).map g = l.filterMap fun a => if p a then some (g a) else none := by
  induction l with
  | nil => rfl
  | cons a rest ih =>
    rw [filter_cons, filterMap_cons]
    cases p a with
    | true => rw [if_pos rfl, if_pos rfl, map_cons, ih]
    | false => rw [if_neg Bool.false_ne_true, if_neg Bool.false_ne_true, ih]

theorem le_foldr_max {l : List ℕ} {n : ℕ} (h : n ∈ l) : n ≤ l.foldr max 0 := by
  induction l with
  | nil => cases h
  | cons m rest ih =>
    rcases mem_cons.mp h with rfl | hrest
    · exact le_max_left _ _
    · exact le_trans (ih hrest) (le_max_right _ _)

theorem foldr_max_eq {l : List ℕ} {n : ℕ} (hmem : n ∈ l) (hle : ∀ m ∈ l, m ≤ n) : l.foldr max 0 = n := by
  refine le_antisymm ?_ (le_foldr_max hmem)
  clear hmem
  induction l with
  | nil => exact zero_le n
  | cons m rest ih =>
    exact Nat.max_le.mpr ⟨hle m mem_cons_self, ih fun k hk => hle k (mem_cons_of_mem m hk)⟩

end Lists

/-- What the default rule keeps: it names no one, and has no modifier and no condition. -/
def Rule.Blank (rule : Rule) : Prop :=
  rule.identities = [] ∧ rule.source = .default ∧ rule.rateLimit = none ∧ rule.rateLimitWindow = none ∧
    rule.requireApproval = false ∧ rule.conditions = none

/-- A draft whose rows are told apart and arranged. -/
structure Tidy (draft : List Row) (created : ℕ) : Prop where
  ids : (draft.map (·.id)).Nodup
  logicalIds : (draft.map (·.rule.logicalId)).Nodup
  fresh : ∀ row ∈ draft, row.id < created ∧ row.rule.logicalId < created
  priorities : ((draft.filter fun row => !row.rule.isDefault).map (·.rule.priority)).Nodup
  single : (draft.filter (·.rule.isDefault)).length ≤ 1
  blank : ∀ row ∈ draft, row.rule.isDefault = true → row.rule.Blank

/-- What rows are rewritten to keeps what tells them apart. -/
structure Keeps (f : Row → Option Row) (row : Row) : Prop where
  id : ∀ row', f row = some row' → row'.id = row.id
  logicalId : ∀ row', f row = some row' → row'.rule.logicalId = row.rule.logicalId
  isDefault : ∀ row', f row = some row' → row'.rule.isDefault = row.rule.isDefault
  blank : ∀ row', f row = some row' → row.rule.isDefault = true → row.rule.Blank → row'.rule.Blank

namespace Tidy

variable {draft : List Row} {created : ℕ}

section

variable (h : Tidy draft created)
include h

theorem rewrite {f : Row → Option Row} (hf : ∀ row ∈ draft, Keeps f row)
    (hprios : (((draft.filterMap f).filter fun row => !row.rule.isDefault).map (·.rule.priority)).Nodup) : Tidy
    (draft.filterMap f) created where
  ids := by
    have hids := h.ids
    rw [← List.filterMap_eq_map'] at hids ⊢
    refine hids.sublist (filterMap_filterMap_sublist fun row hrow row' hrow' => ?_)
    exact congrArg some ((hf row hrow).id row' hrow')
  logicalIds := by
    have hids := h.logicalIds
    rw [← List.filterMap_eq_map'] at hids ⊢
    refine hids.sublist (filterMap_filterMap_sublist fun row hrow row' hrow' => ?_)
    exact congrArg some ((hf row hrow).logicalId row' hrow')
  fresh := by
    intro row' hrow'
    obtain ⟨row, hrow, heq⟩ := mem_filterMap.mp hrow'
    rw [(hf row hrow).id row' heq, (hf row hrow).logicalId row' heq]
    exact h.fresh row hrow
  priorities := hprios
  single := by
    have hsingle := h.single
    rw [← length_map fun _ => (), map_filter_eq] at hsingle ⊢
    refine le_trans (filterMap_filterMap_sublist fun row hrow row' hrow' => ?_).length_le hsingle
    rw [(hf row hrow).isDefault row' hrow']
  blank := by
    intro row' hrow' hdef
    obtain ⟨row, hrow, heq⟩ := mem_filterMap.mp hrow'
    rw [(hf row hrow).isDefault row' heq] at hdef
    exact (hf row hrow).blank row' heq hdef (h.blank row hrow hdef)

theorem rewrite_of_priority {f : Row → Option Row} (hf : ∀ row ∈ draft, Keeps f row)
    (hpriority : ∀ row ∈ draft, ∀ row', f row = some row' → row'.rule.priority = row.rule.priority) : Tidy
    (draft.filterMap f) created := by
  refine h.rewrite hf ?_
  have hprios := h.priorities
  rw [map_filter_eq] at hprios ⊢
  refine hprios.sublist (filterMap_filterMap_sublist fun row hrow row' hrow' => ?_)
  rw [(hf row hrow).isDefault row' hrow', hpriority row hrow row' hrow']

theorem append {rule : Rule} (hlogicalId : rule.logicalId = created)
    (hprios : ((List.filter (fun row : Row => !row.rule.isDefault) (draft ++ [⟨created, rule⟩])).map
    (·.rule.priority)).Nodup)
    (hsingle : (List.filter (fun row : Row => row.rule.isDefault) (draft ++ [⟨created, rule⟩])).length ≤ 1)
    (hblank : rule.isDefault = true → rule.Blank) : Tidy (draft ++ [⟨created, rule⟩]) (created + 1) where
  ids := by
    rw [map_append, List.nodup_append']
    refine ⟨h.ids, nodup_singleton _, ?_⟩
    intro id hid hnew
    obtain ⟨row, hrow, rfl⟩ := List.mem_map.mp hid
    exact Nat.ne_of_lt (h.fresh row hrow).1 (mem_singleton.mp hnew)
  logicalIds := by
    rw [map_append, List.nodup_append']
    refine ⟨h.logicalIds, nodup_singleton _, ?_⟩
    intro logicalId hid hnew
    obtain ⟨row, hrow, rfl⟩ := List.mem_map.mp hid
    exact Nat.ne_of_lt (h.fresh row hrow).2 ((mem_singleton.mp hnew).trans hlogicalId)
  fresh := by
    intro row hrow
    rcases mem_append.mp hrow with hrow | hrow
    · exact ⟨lt_succ_of_lt (h.fresh row hrow).1, lt_succ_of_lt (h.fresh row hrow).2⟩
    · rw [mem_singleton.mp hrow]
      exact ⟨lt_succ_self created, hlogicalId ▸ lt_succ_self created⟩
  priorities := hprios
  single := hsingle
  blank := by
    intro row hrow hrule
    rcases mem_append.mp hrow with hrow | hrow
    · exact h.blank row hrow hrule
    · rw [mem_singleton.mp hrow] at hrule ⊢
      exact hblank hrule

theorem insert {rule : Rule} (hlogicalId : rule.logicalId = created) (hdef : rule.isDefault = false)
    (hpriority : ∀ row ∈ draft, row.rule.isDefault = false → row.rule.priority < rule.priority) : Tidy (draft ++
    [⟨created, rule⟩]) (created + 1) := by
  refine h.append hlogicalId ?_ ?_ ?_
  · rw [filter_append, map_append, List.nodup_append']
    refine ⟨h.priorities, ?_, ?_⟩
    · simp [hdef]
    · intro priority hold hnew
      obtain ⟨row, hrow, rfl⟩ := List.mem_map.mp hold
      obtain ⟨hrow, hnot⟩ := mem_filter.mp hrow
      obtain ⟨new, hmem, heq⟩ := List.mem_map.mp hnew
      rw [mem_singleton.mp (mem_filter.mp hmem).1] at heq
      have hlt := hpriority row hrow (by simpa using hnot)
      dsimp only at heq
      omega
  · rw [filter_append, filter_singleton, hdef]
    simpa using h.single
  · rw [hdef]
    exact nofun

theorem insert_default (hnone : draft.any (·.rule.isDefault) = false) {rule : Rule}
    (hlogicalId : rule.logicalId = created) (hdef : rule.isDefault = true) (hblank : rule.Blank) : Tidy
    (draft ++ [⟨created, rule⟩]) (created + 1) := by
  refine h.append hlogicalId ?_ ?_ fun _ => hblank
  · rw [filter_append, filter_singleton, hdef]
    simpa using h.priorities
  · have hnil : draft.filter (·.rule.isDefault) = [] := by
      rw [filter_eq_nil_iff]
      intro row hrow hrule
      rw [List.any_eq_false] at hnone
      exact hnone row hrow hrule
    rw [filter_append, hnil]
    exact length_filter_le _ _

end

end Tidy

namespace World

variable {w : World}

theorem le_generation {s : Snapshot} (h : s ∈ w.published) : s.generation ≤ w.generation :=
  le_foldr_max (List.mem_map_of_mem h)

theorem generation_eq {s : Snapshot} (h : s ∈ w.published) (hle : ∀ t ∈ w.published, t.generation ≤ s.generation) :
    w.generation = s.generation := by
  refine foldr_max_eq (List.mem_map_of_mem h) fun n hn => ?_
  obtain ⟨t, ht, rfl⟩ := List.mem_map.mp hn
  exact hle t ht

theorem live_snapshotDraftRules (draftRules : List Row) (hne : draftRules ≠ []) :
    (w.snapshotDraftRules draftRules).live = draftRules.map (·.rule) := by
  have hkeep (s : Snapshot) : s ∈ (w.snapshotDraftRules draftRules).published →
      s ∈ w.published ∨ s ∈ draftRules.map fun row => ⟨w.generation + 1, row.rule⟩ := by
    intro hs
    rw [snapshotDraftRules] at hs
    split at hs
    · exact mem_append.mp (mem_filter.mp hs).1
    · exact mem_append.mp hs
  have hnew (s : Snapshot) (hs : s ∈ draftRules.map fun row => (⟨w.generation + 1, row.rule⟩ : Snapshot)) :
      s.generation = w.generation + 1 := by
    obtain ⟨row, -, rfl⟩ := List.mem_map.mp hs
    rfl
  -- the new generation is above every other
  have hgeneration : (w.snapshotDraftRules draftRules).generation = w.generation + 1 := by
    obtain ⟨row, hrow⟩ := exists_mem_of_ne_nil draftRules hne
    have hmem : (⟨w.generation + 1, row.rule⟩ : Snapshot) ∈ (w.snapshotDraftRules draftRules).published := by
      have happend : (⟨w.generation + 1, row.rule⟩ : Snapshot) ∈
          w.published ++ draftRules.map fun row => ⟨w.generation + 1, row.rule⟩ :=
        mem_append_right _ (List.mem_map.mpr ⟨row, hrow, rfl⟩)
      rw [snapshotDraftRules]
      split
      · refine mem_filter.mpr ⟨happend, decide_eq_true ?_⟩
        rw [PUBLISHED_GENERATION_RETENTION]
        dsimp only
        omega
      · exact happend
    refine generation_eq hmem fun t ht => ?_
    rcases hkeep t ht with hold | hold
    · exact le_succ_of_le (le_generation hold)
    · exact le_of_eq (hnew t hold)
  have hold : w.published.filter (fun s => s.generation = w.generation + 1) = [] := by
    rw [filter_eq_nil_iff]
    intro s hs heq
    have hle := le_generation hs
    have heq := of_decide_eq_true heq
    omega
  have hall : (draftRules.map fun row => (⟨w.generation + 1, row.rule⟩ : Snapshot)).filter
      (fun s => s.generation = w.generation + 1) = draftRules.map fun row => ⟨w.generation + 1, row.rule⟩ := by
    rw [filter_eq_self]
    exact fun s hs => decide_eq_true (hnew s hs)
  have hpruned : (w.snapshotDraftRules draftRules).published.filter (fun s => s.generation = w.generation + 1) =
      draftRules.map fun row => ⟨w.generation + 1, row.rule⟩ := by
    rw [snapshotDraftRules]
    split
    · rw [List.filter_filter, filter_congr (q := fun s => decide (s.generation = w.generation + 1)),
        filter_append, hold, hall, nil_append]
      intro s _
      rw [PUBLISHED_GENERATION_RETENTION, ← decide_and, decide_eq_decide]
      omega
    · rw [filter_append, hold, hall, nil_append]
  rw [live, hgeneration, hpruned, List.map_map]
  rfl

theorem exists_default_ensureDefault : ∃ row ∈ w.ensureDefault.draft, row.rule.isDefault = true := by
  rw [ensureDefault]
  split
  · rename_i hany
    exact List.any_eq_true.mp hany
  · exact ⟨_, mem_append_right _ (mem_singleton_self _), rfl⟩

theorem live_publishDraftInTx :
    w.publishDraftInTx.live.Perm (w.publishDraftInTx.draft.map (·.rule)) := by
  have hperm : (w.ensureDefault.draft.insertionSort (before · ·)).Perm w.ensureDefault.draft := perm_insertionSort _ _
  rw [publishDraftInTx, live_snapshotDraftRules]
  · exact hperm.map _
  · obtain ⟨row, hrow, -⟩ := exists_default_ensureDefault (w := w)
    exact ne_nil_of_mem (hperm.mem_iff.mpr hrow)

end World

/-- A tidy draft, and updates that have read a rule which is not the default. -/
structure Rows (w : World) : Prop where
  tidy : Tidy w.draft w.created
  reading : ∀ i id input, w.updates i = some (id, input) →
    id < w.created ∧ ∀ row ∈ w.draft, row.id = id → row.rule.isDefault = false

namespace Rows

variable {w : World}

/-- A draft that stays tidy keeps the rows. -/
theorem of_draft (h : Rows w) {w' : World} (htidy : Tidy w'.draft w'.created) (hupdates : w'.updates = w.updates)
    (hcreated : w.created ≤ w'.created)
    (hrows : ∀ row' ∈ w'.draft, row'.id < w.created →
      ∃ row ∈ w.draft, row.id = row'.id ∧ row'.rule.isDefault = row.rule.isDefault) : Rows w' where
  tidy := htidy
  reading := by
    intro i id input hupdate
    rw [hupdates] at hupdate
    obtain ⟨hlt, hnot⟩ := h.reading i id input hupdate
    refine ⟨lt_of_lt_of_le hlt hcreated, fun row' hrow' hid => ?_⟩
    obtain ⟨row, hrow, hsame, hdef⟩ := hrows row' hrow' (hid ▸ hlt)
    rw [hdef]
    exact hnot row hrow (hsame.trans hid)

/-- A rewrite keeps the rows. -/
theorem rewrite (h : Rows w) {w' : World} {f : Row → Option Row} (hdraft : w'.draft = w.draft.filterMap f)
    (hcreated : w'.created = w.created) (hupdates : w'.updates = w.updates) (hf : ∀ row ∈ w.draft, Keeps f row)
    (hpriority : ∀ row ∈ w.draft, ∀ row', f row = some row' → row'.rule.priority = row.rule.priority) : Rows w' := by
  refine h.of_draft ?_ hupdates (le_of_eq hcreated.symm) fun row' hrow' _ => ?_
  · rw [hdraft, hcreated]
    exact h.tidy.rewrite_of_priority hf hpriority
  · rw [hdraft] at hrow'
    obtain ⟨row, hrow, heq⟩ := mem_filterMap.mp hrow'
    exact ⟨row, hrow, ((hf row hrow).id row' heq).symm, (hf row hrow).isDefault row' heq⟩

theorem filter (h : Rows w) (p : Row → Bool) : Rows { w with draft := w.draft.filter p } := by
  refine h.rewrite (f := Option.guard p) (by rw [filterMap_eq_filter]) rfl rfl (fun row _ => ?_) ?_
  · constructor <;> intro row' hrow' <;> obtain ⟨rfl, -⟩ := guard_eq_some_iff.mp hrow'
    · rfl
    · rfl
    · rfl
    · exact fun _ hblank => hblank
  · intro row _ row' hrow'
    obtain ⟨rfl, -⟩ := guard_eq_some_iff.mp hrow'
    rfl

theorem append (h : Rows w) {rule : ℕ → Rule} (htidy : Tidy (w.insert rule).draft (w.insert rule).created) :
    Rows (w.insert rule) := by
  refine h.of_draft htidy rfl (le_succ _) fun row' hrow' hlt => ?_
  rcases mem_append.mp hrow' with hold | hnew
  · exact ⟨row', hold, rfl, rfl⟩
  · rw [mem_singleton.mp hnew] at hlt
    exact absurd hlt (lt_irrefl _)

theorem insert (h : Rows w) {rule : ℕ → Rule} (hlogicalId : (rule w.created).logicalId = w.created)
    (hdef : (rule w.created).isDefault = false)
    (hpriority : ∀ row ∈ w.draft, row.rule.isDefault = false → row.rule.priority < (rule w.created).priority) :
    Rows (w.insert rule) :=
  h.append (h.tidy.insert hlogicalId hdef hpriority)

/-- The default that is ensured keeps the rows. -/
theorem ensureDefault (h : Rows w) : Rows w.ensureDefault := by
  rw [World.ensureDefault]
  split
  · exact h
  · rename_i hnone
    exact h.append (h.tidy.insert_default (eq_false_of_not_eq_true hnone) rfl rfl ⟨rfl, rfl, rfl, rfl, rfl, rfl⟩)

theorem le_tail {row : Row} (hrow : row ∈ w.draft) (hdef : row.rule.isDefault = false) :
    row.rule.priority ≤ w.tail := by
  refine le_foldr_max (List.mem_map_of_mem (f := fun row : Row => row.rule.priority) (mem_filter.mpr ⟨hrow, ?_⟩))
  rw [hdef]
  rfl

theorem appendRules (h : Rows w) {priority : ℕ} (creates : List GrantCreate)
    (hpriority : ∀ row ∈ w.draft, row.rule.isDefault = false → row.rule.priority < priority) :
    Rows (w.appendRules priority creates) := by
  induction creates generalizing w priority with
  | nil => exact h
  | cons create rest ih =>
    have hfields (logicalId : ℕ) : (create.rule logicalId priority).logicalId = logicalId ∧
        (create.rule logicalId priority).isDefault = false ∧ (create.rule logicalId priority).priority = priority := by
      cases create <;> exact ⟨rfl, rfl, rfl⟩
    obtain ⟨hlogicalId, hdef, hsame⟩ := hfields w.created
    refine ih (h.insert hlogicalId hdef fun row hrow hrule => ?_) fun row hrow hrule => ?_
    · rw [hsame]
      exact hpriority row hrow hrule
    · rcases mem_append.mp hrow with hold | hnew
      · exact lt_succ_of_lt (hpriority row hold hrule)
      · rw [mem_singleton.mp hnew, hsame]
        exact lt_succ_self priority

theorem appendGrantRules (h : Rows w) (creates : List GrantCreate) : Rows (w.appendGrantRules creates) :=
  h.appendRules creates fun _ hrow hdef => lt_succ_of_le (le_tail hrow hdef)

theorem modify (h : Rows w) {id : ℕ} {f : Rule → Rule} (hnot : ∀ row ∈ w.draft, row.id = id → row.rule.isDefault = false)
    (hf : ∀ rule, (f rule).logicalId = rule.logicalId ∧ (f rule).isDefault = rule.isDefault ∧
      (f rule).priority = rule.priority) : Rows (w.modify id f) := by
  refine h.rewrite (f := fun row => some (if row.id = id then { row with rule := f row.rule } else row))
    (by rw [List.filterMap_eq_map']; rfl) rfl rfl (fun row hrow => ?_) fun row _ row' hrow' => ?_
  · constructor <;> intro row' hrow' <;> obtain rfl := some.inj hrow'
    · split <;> rfl
    · split
      · exact (hf row.rule).1
      · rfl
    · split
      · exact (hf row.rule).2.1
      · rfl
    · intro hdef hblank
      rw [if_neg fun hid => by rw [hnot row hrow hid] at hdef; cases hdef]
      exact hblank
  · cases hrow'
    split
    · exact (hf row.rule).2.2
    · rfl

theorem setAction (h : Rows w) (action : Action) :
    Rows { w with
      draft := w.draft.map fun row =>
        if row.rule.isDefault then { row with rule := { row.rule with action := action } } else row } := by
  refine h.rewrite
    (f := fun row => some (if row.rule.isDefault then { row with rule := { row.rule with action := action } } else row))
    (by rw [List.filterMap_eq_map']) rfl rfl (fun row hrow => ?_) fun row _ row' hrow' => ?_
  · constructor <;> intro row' hrow' <;> obtain rfl := some.inj hrow'
    · split <;> rfl
    · split <;> rfl
    · split
      · rename_i hdef
        exact hdef.symm ▸ hdef
      · rfl
    · intro _ hblank
      split <;> exact hblank
  · cases hrow'
    split <;> rfl

theorem forget_eq {principal : Identity} {rule rule' : Rule} (h : rule.forget principal = some rule') :
    rule' = { rule with identities := rule.identities.filter (· ≠ principal) } := by
  cases principal with
  | agent =>
    simp only [Rule.forget] at h
    split at h
    · cases h
    · split at h
      · cases h
      · exact (some.inj h).symm
  | _ =>
    simp only [Rule.forget] at h
    split at h
    · cases h
    · exact (some.inj h).symm

theorem forget (h : Rows w) (principal : Identity) : Rows (w.dropPrincipalFromPolicyInTx principal) := by
  have hrule (row row' : Row)
      (hrow' : ((row.rule.forget principal).map fun rule => { row with rule := rule }) = some row') :
      row' = { row with
        rule := { row.rule with identities := row.rule.identities.filter (· ≠ principal) } } := by
    obtain ⟨rule, hforget, rfl⟩ := map_eq_some_iff.mp hrow'
    rw [forget_eq hforget]
  refine h.rewrite (f := fun row => (row.rule.forget principal).map fun rule => { row with rule := rule }) rfl rfl rfl
    (fun row _ => ?_) fun row _ row' hrow' => ?_
  · constructor <;> intro row' hrow' <;> rw [hrule row row' hrow']
    rintro - ⟨hidentities, hrest⟩
    refine ⟨?_, hrest⟩
    rw [hidentities]
    rfl
  · rw [hrule row row' hrow']

theorem reorder (h : Rows w) {orderedIds : List ℕ} (hnames : w.namesEveryRuleOnce orderedIds = true) :
    Rows { w with
      draft := w.draft.map fun row =>
        if row.id ∈ orderedIds then
          { row with rule := { row.rule with priority := orderedIds.idxOf row.id + 1 } }
        else row } := by
  obtain ⟨-, hevery, -⟩ := of_decide_eq_true hnames
  have hsame (row : Row) : (if row.id ∈ orderedIds then
        ({ row with rule := { row.rule with priority := orderedIds.idxOf row.id + 1 } } : Row)
      else row).id = row.id ∧ (if row.id ∈ orderedIds then
        ({ row with rule := { row.rule with priority := orderedIds.idxOf row.id + 1 } } : Row)
      else row).rule.isDefault = row.rule.isDefault := by
    split <;> exact ⟨rfl, rfl⟩
  have htidy := h.tidy.rewrite (f := fun row => some (if row.id ∈ orderedIds then
        { row with rule := { row.rule with priority := orderedIds.idxOf row.id + 1 } }
      else row)) (fun row hrow => ?_) ?_
  · rw [List.filterMap_eq_map'] at htidy
    refine h.of_draft htidy rfl (le_refl _) fun row' hrow' _ => ?_
    obtain ⟨row, hrow, rfl⟩ := List.mem_map.mp hrow'
    exact ⟨row, hrow, (hsame row).1.symm, (hsame row).2⟩
  · constructor <;> intro row' hrow' <;> obtain rfl := some.inj hrow'
    · exact (hsame row).1
    · split <;> rfl
    · exact (hsame row).2
    · intro _ hblank
      split <;> exact hblank
  · -- a rule's priority tells its place in the order, and so its id
    rw [List.filterMap_eq_map', List.filter_map, List.map_map]
    have hids : ((w.draft.filter fun row => !row.rule.isDefault).map (·.id)).Nodup :=
      h.tidy.ids.sublist (filter_sublist.map _)
    have hfilter : (fun row : Row => !row.rule.isDefault) ∘ (fun row => if row.id ∈ orderedIds then
        ({ row with rule := { row.rule with priority := orderedIds.idxOf row.id + 1 } } : Row)
      else row) = fun row => !row.rule.isDefault := by
      funext row
      rw [comp_apply, (hsame row).2]
    rw [hfilter, nodup_map_iff_inj_on (List.Nodup.of_map _ hids)]
    intro a ha b hb heq
    obtain ⟨ha, hadefault⟩ := mem_filter.mp ha
    obtain ⟨hb, hbdefault⟩ := mem_filter.mp hb
    have hamem := hevery a ha (by simpa using hadefault)
    have hbmem := hevery b hb (by simpa using hbdefault)
    rw [comp_apply, comp_apply, if_pos hamem, if_pos hbmem] at heq
    have hid : a.id = b.id := (idxOf_inj hamem).mp (succ.inj heq)
    exact inj_on_of_nodup_map h.tidy.ids ha hb hid

end Rows

/-- A tidy draft that is what is live once anything was published, and has its default rule then. -/
structure Sound (w : World) : Prop where
  rows : Rows w
  synced : w.published ≠ [] → w.live.Perm (w.draft.map (·.rule)) ∧ ∃ row ∈ w.draft, row.rule.isDefault = true

theorem Rows.publish {w : World} (h : Rows w) : Sound w.publishDraftInTx where
  rows := ⟨h.ensureDefault.tidy, h.ensureDefault.reading⟩
  synced := fun _ => ⟨World.live_publishDraftInTx, World.exists_default_ensureDefault⟩

namespace Sound

variable {w : World}

theorem live_forget (principal : Identity)
    (hgeneration : (w.dropPrincipalFromPolicyInTx principal).generation = w.generation) :
    (w.dropPrincipalFromPolicyInTx principal).live = w.live.filterMap (·.forget principal) := by
  rw [World.live, World.live, hgeneration, map_filter_eq, map_filter_eq, World.dropPrincipalFromPolicyInTx,
    filterMap_filterMap, filterMap_filterMap]
  refine congrArg (List.filterMap · w.published) (funext fun s => ?_)
  by_cases hs : s.generation = w.generation
  · cases hforget : s.rule.forget principal <;> simp [hs, hforget]
  · cases hforget : s.rule.forget principal <;> simp [hs]

theorem forget_blank (principal : Identity) {rule : Rule} (h : rule.Blank) : rule.forget principal = some rule := by
  obtain ⟨hidentities, hsource, -⟩ := h
  have hsame : ({ rule with identities := rule.identities.filter (· ≠ principal) } : Rule) = rule := by
    rw [hidentities, filter_nil, ← hidentities]
  have hkeeps : ¬ (rule.identities ≠ [] ∧ rule.identities.all (· = principal) = true) := fun hnamed =>
    hnamed.1 hidentities
  have hgrant : ¬ (rule.source = .grant ∧ rule.identities = []) := by
    rw [hsource]
    simp
  cases principal with
  | agent =>
    simp only [Rule.forget]
    rw [if_neg hkeeps, if_neg hgrant, hsame]
  | _ =>
    simp only [Rule.forget]
    rw [if_neg hkeeps, hsame]

theorem forget (h : Sound w) (principal : Identity) : Sound (w.dropPrincipalFromPolicyInTx principal) where
  rows := h.rows.forget principal
  synced := by
    intro hpublished
    have hne : w.published ≠ [] := by
      intro hnil
      rw [World.dropPrincipalFromPolicyInTx, hnil] at hpublished
      exact hpublished rfl
    obtain ⟨hperm, row, hrow, hdef⟩ := h.synced hne
    have hkeep := forget_blank principal (h.rows.tidy.blank row hrow hdef)
    -- the default rule stays in the highest generation
    have hlive : row.rule ∈ w.live := hperm.mem_iff.mpr (List.mem_map_of_mem hrow)
    obtain ⟨s, hs, hrule⟩ := List.mem_map.mp hlive
    obtain ⟨hs, hgeneration⟩ := mem_filter.mp hs
    have hmem : s ∈ (w.dropPrincipalFromPolicyInTx principal).published := by
      refine mem_filterMap.mpr ⟨s, hs, ?_⟩
      rw [hrule, hkeep, ← hrule]
      rfl
    have hsame : (w.dropPrincipalFromPolicyInTx principal).generation = w.generation := by
      rw [← of_decide_eq_true hgeneration]
      refine World.generation_eq hmem fun t ht => ?_
      obtain ⟨t', ht', heq⟩ := mem_filterMap.mp ht
      obtain ⟨rule, -, rfl⟩ := map_eq_some_iff.mp heq
      rw [of_decide_eq_true hgeneration]
      exact World.le_generation (s := t') ht'
    refine ⟨?_, row, ?_, hdef⟩
    · rw [live_forget principal hsame]
      refine (hperm.filterMap _).trans (List.Perm.of_eq ?_)
      rw [World.dropPrincipalFromPolicyInTx, ← List.filterMap_eq_map', filterMap_filterMap, filterMap_filterMap]
      refine congrArg (List.filterMap · w.draft) (funext fun row => ?_)
      cases hforget : row.rule.forget principal <;> simp [hforget]
    · refine mem_filterMap.mpr ⟨row, hrow, ?_⟩
      rw [hkeep]
      rfl

theorem with_updates (h : Sound w) {updates : ℕ → Option (ℕ × UpdatePolicyRuleInput)}
    (hreading : ∀ i id input, updates i = some (id, input) →
      id < w.created ∧ ∀ row ∈ w.draft, row.id = id → row.rule.isDefault = false) :
    Sound { w with updates := updates } :=
  ⟨⟨h.rows.tidy, hreading⟩, h.synced⟩

theorem read (h : Sound w) (i : ℕ) {id : ℕ} {row : Row} (input : UpdatePolicyRuleInput) (hfind : w.find id = some row) :
    Sound { w with updates := update w.updates i (some (id, input)) } := by
  refine h.with_updates fun j id' input' hupdate => ?_
  obtain ⟨-, hupdate⟩ | ⟨-, hupdate⟩ := update_cases hupdate
  · obtain ⟨rfl, -⟩ := Prod.mk.inj (some.inj hupdate)
    have hmem := List.mem_of_find?_eq_some hfind
    have hfound := List.find?_some hfind
    rw [and_eq_true, decide_eq_true_eq, Bool.not_eq_true'] at hfound
    refine ⟨hfound.1 ▸ (h.rows.tidy.fresh row hmem).1, fun row' hrow' hid => ?_⟩
    obtain rfl := inj_on_of_nodup_map h.rows.tidy.ids hrow' hmem (hid.trans hfound.1.symm)
    exact hfound.2
  · exact h.rows.reading j id' input' hupdate

theorem update (h : Sound w) {i id : ℕ} {input : UpdatePolicyRuleInput} (hupdate : w.updates i = some (id, input)) :
    Sound { w.updatePolicyRule id input with updates := update w.updates i none } := by
  have hwritten : Sound (w.updatePolicyRule id input) ∧ (w.updatePolicyRule id input).updates = w.updates := by
    rw [World.updatePolicyRule]
    split
    · have hfields (rule : Rule) : (input.apply rule).logicalId = rule.logicalId ∧
          (input.apply rule).isDefault = rule.isDefault ∧ (input.apply rule).priority = rule.priority :=
        ⟨rfl, rfl, rfl⟩
      refine ⟨(h.rows.modify (h.rows.reading i id input hupdate).2 hfields).publish, ?_⟩
      rw [World.publishDraftInTx, World.snapshotDraftRules, World.ensureDefault]
      split <;> rfl
    · exact ⟨h, rfl⟩
  obtain ⟨hsound, hupdates⟩ := hwritten
  refine hsound.with_updates fun j id' input' hj => ?_
  by_cases hji : j = i
  · rw [hji, update_self] at hj
    cases hj
  · rw [update_of_ne hji, ← hupdates] at hj
    exact hsound.rows.reading j id' input' hj

/-- Every writer keeps the tables sound. -/
theorem step {u v : World} {e : Event} (h : Sound u) (hstep : step u e = some v) : Sound v := by
  cases e with
  | create =>
    obtain ⟨-, hv⟩ := ite_none_right_eq_some.mp hstep
    split at hv
    · exact some.inj hv ▸ h
    · cases hv
      refine (h.rows.insert rfl rfl fun row hrow hdef => ?_).publish
      exact lt_succ_of_le (Rows.le_tail hrow hdef)
  | read i id input =>
    rw [Publish.step] at hstep
    split at hstep
    · rename_i row hfind
      split at hstep
      · exact some.inj hstep ▸ h.read i input hfind
      · exact some.inj hstep ▸ h
    · exact some.inj hstep ▸ h
  | update =>
    rw [Publish.step] at hstep
    split at hstep
    · rename_i id input hupdate
      exact some.inj hstep ▸ h.update hupdate
    · cases hstep
  | delete =>
    cases hstep
    rw [World.deletePolicyRule]
    split
    · exact (h.rows.filter _).publish
    · exact h
  | reorder =>
    cases hstep
    rw [World.reorderPolicyRules]
    split
    · rename_i hnames
      exact (h.rows.reorder hnames).publish
    · exact h
  | setDefault action =>
    cases hstep
    exact (h.rows.ensureDefault.setAction action).publish
  | replace deleteWhere creates =>
    cases hstep
    exact ((h.rows.filter _).appendGrantRules creates).publish
  | attach where' creates =>
    cases hstep
    rw [World.attachDefaultConnectionGrant]
    split
    · exact h
    · exact (h.rows.appendGrantRules creates).publish
  | drop principal =>
    cases hstep
    exact h.forget principal
  | publish =>
    cases hstep
    exact h.rows.publish

/-- The empty tables are sound. -/
theorem empty : Sound World.empty where
  rows :=
    { tidy := by constructor <;> simp [World.empty]
      reading := fun _ _ _ hupdate => by cases hupdate }
  synced := fun hne => absurd rfl hne

/-- Sound tables are in sync. -/
theorem inSync_arranged (h : Sound w) : w.InSync ∧ w.Arranged :=
  ⟨fun hne => ⟨(h.synced hne).1, h.rows.tidy.logicalIds⟩, h.rows.tidy.priorities, h.rows.tidy.single⟩

end Sound

/-- However the writers are interleaved, what is live is the draft, whose rules are arranged. -/
theorem run_inSync (es : List Event) :
    Runs.Throughout step (fun w => w.InSync ∧ w.Arranged) World.empty es := by
  intro front back w hsplit hrun
  have hsound := Runs.throughout_of_meets step (I := Sound) (fun u e v hu _ hstep => hu.step hstep) .empty
    (Runs.meets_true step .empty es)
  exact (hsound front back w hsplit hrun).inSync_arranged

end Onecli.Publish
