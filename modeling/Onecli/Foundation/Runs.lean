import Onecli.Foundation.Updates

/-!
# Runs of a transition system

A system takes labelled steps; a step that is not possible answers `none`. Choices of the
environment (which party moves, what a network answers) are part of the label, so a run is
determined by its labels. What every step preserves, every run preserves.
-/

namespace Runs

open List Option

variable {S E : Type*} (step : S → E → Option S)

/-- The state after a list of steps, when all of them are possible. -/
def run : S → List E → Option S
  | s, [] => some s
  | s, e :: es => (step s e).bind fun s' => run s' es

/-- Every step of the run meets a condition on its label and on the state before it. -/
def Meets (P : S → E → Prop) : S → List E → Prop
  | _, [] => True
  | s, e :: es => P s e ∧ ∀ s', step s e = some s' → Meets P s' es

/-- A run's first step, and the rest of it. -/
theorem run_cons_eq_some_iff (s t : S) (e : E) (es : List E) :
    run step s (e :: es) = some t ↔ ∃ s', step s e = some s' ∧ run step s' es = some t := by
  rw [run, bind_eq_some_iff]

/-- A run in two parts. -/
theorem run_append (s : S) (es fs : List E) :
    run step s (es ++ fs) = (run step s es).bind fun t => run step t fs := by
  induction es generalizing s with
  | nil => rfl
  | cons e es ih =>
    rw [cons_append, run, run, bind_assoc]
    exact congrArg _ (funext ih)

variable {es : List E}

/-- A first step that meets a condition, and a rest that does. -/
theorem meets_cons_of_eq {P : S → E → Prop} {s s' : S} {e : E} (hstep : step s e = some s') (hfirst : P s e)
    (hrest : Meets step P s' es) : Meets step P s (e :: es) := by
  refine ⟨hfirst, fun t ht => ?_⟩
  cases hstep.symm.trans ht
  exact hrest

/-- A condition on the labels alone. -/
theorem meets_of_forall_mem {P : E → Prop} (s : S) (h : ∀ e ∈ es, P e) : Meets step (fun _ e => P e) s es := by
  induction es generalizing s with
  | nil => trivial
  | cons e es ih => exact ⟨h e mem_cons_self, fun s' _ => ih s' fun f hf => h f (mem_cons_of_mem e hf)⟩

/-- What every step keeps, a run keeps. -/
theorem run_invariant {I : S → Prop} (hstep : ∀ s e s', I s → step s e = some s' → I s') {s t : S} (hs : I s)
    (hrun : run step s es = some t) : I t := by
  induction es generalizing s with
  | nil =>
    cases hrun
    exact hs
  | cons e es ih =>
    obtain ⟨s', hfirst, hrest⟩ := (run_cons_eq_some_iff step s t e es).mp hrun
    exact ih (hstep s e s' hs hfirst) hrest

/-- An invariant that the steps meeting a condition preserve holds at the end of every run
whose steps all meet it. -/
theorem run_invariant_of_meets {I : S → Prop} {P : S → E → Prop}
    (hstep : ∀ s e s', I s → P s e → step s e = some s' → I s') {s t : S} (hs : I s) (hmeets : Meets step P s es)
    (hrun : run step s es = some t) : I t := by
  induction es generalizing s with
  | nil =>
    cases hrun
    exact hs
  | cons e es ih =>
    obtain ⟨s', hfirst, hrest⟩ := (run_cons_eq_some_iff step s t e es).mp hrun
    exact ih (hstep s e s' hs hmeets.1 hfirst) (hmeets.2 s' hfirst) hrest

variable {P : S → E → Prop} {s t : S} {es : List E} {s : S} {I : S → Prop} {R : S → S → Prop}

/-- An invariant of the labels so far and of the state, that the steps meeting a condition preserve, holds at the
end of every run whose steps all meet it. -/
theorem history_of_meets {I : List E → S → Prop}
    (hstep : ∀ front s e s', I front s → P s e → step s e = some s' → I (front ++ [e]) s') {front es : List E}
    (hs : I front s) (hmeets : Meets step P s es) (hrun : run step s es = some t) : I (front ++ es) t := by
  induction es generalizing s front with
  | nil =>
    cases hrun
    rw [append_nil]
    exact hs
  | cons e es ih =>
    obtain ⟨s', hfirst, hrest⟩ := (run_cons_eq_some_iff step s t e es).mp hrun
    rw [append_cons]
    exact ih (hstep front s e s' hs hmeets.1 hfirst) (hmeets.2 s' hfirst) hrest

/-- A property of every state that a run passes through. -/
def Throughout (Q : S → Prop) (s : S) (es : List E) : Prop :=
  ∀ front back t, es = front ++ back → run step s front = some t → Q t

theorem throughout_cons_iff {Q : S → Prop} {s s' : S} {e : E} (hstep : step s e = some s') :
    Throughout step Q s (e :: es) ↔ Q s ∧ Throughout step Q s' es := by
  constructor
  · intro hall
    refine ⟨hall [] (e :: es) s rfl rfl, fun front back t hsplit hfront => ?_⟩
    refine hall (e :: front) back t (congrArg (e :: ·) hsplit) ?_
    exact (run_cons_eq_some_iff step s t e front).mpr ⟨s', hstep, hfront⟩
  · rintro ⟨hs, hrest⟩ front back t hsplit hfront
    cases front with
    | nil => exact some.inj hfront ▸ hs
    | cons f front =>
      obtain ⟨hf, hback⟩ := List.cons.inj hsplit
      subst hf
      obtain ⟨s'', hstep', hfront⟩ := (run_cons_eq_some_iff step s t e front).mp hfront
      cases hstep.symm.trans hstep'
      exact hrest front back t hback hfront

/-- Where the steps meeting a condition preserve an invariant and the others break a property that it
gives, a run has the property throughout exactly when its steps all meet the condition. -/
theorem throughout_iff_meets {I Q : S → Prop} (hgives : ∀ s, I s → Q s)
    (hkeeps : ∀ s e s', I s → P s e → step s e = some s' → I s')
    (hbreaks : ∀ s e s', I s → ¬ P s e → step s e = some s' → ¬ Q s') (hs : I s) (hrun : run step s es = some t) :
    Throughout step Q s es ↔ Meets step P s es := by
  induction es generalizing s with
  | nil =>
    refine iff_of_true (fun front back u hsplit hfront => ?_) trivial
    rw [(nil_eq_append_iff.mp hsplit).1] at hfront
    exact some.inj hfront ▸ hgives s hs
  | cons e es ih =>
    obtain ⟨s', hstep, hrest⟩ := (run_cons_eq_some_iff step s t e es).mp hrun
    rw [throughout_cons_iff step hstep]
    constructor
    · rintro ⟨-, hlater⟩
      have hfirst : P s e := Classical.byContradiction fun hnot =>
        hbreaks s e s' hs hnot hstep (hlater [] es s' rfl rfl)
      exact meets_cons_of_eq step hstep hfirst ((ih (hkeeps s e s' hs hfirst hstep) hrest).mp hlater)
    · intro hmeets
      have hs' := hkeeps s e s' hs hmeets.1 hstep
      exact ⟨hgives s hs, (ih hs' hrest).mpr (hmeets.2 s' hstep)⟩

/-- Where all steps preserve an invariant, and from a good state exactly those meeting a condition lead to a good one,
a run stays good exactly when its steps all meet the condition. -/
theorem throughout_iff_meets_of_iff {I Q Q' : S → Prop} (hkeeps : ∀ s e s', I s → step s e = some s' → I s')
    (hiff : ∀ s e s', I s → Q s → step s e = some s' → (Q s' ↔ P s e)) (hQ : ∀ s, I s → (Q' s ↔ Q s)) (hs : I s)
    (hgood : Q s) (hrun : run step s es = some t) : Throughout step Q' s es ↔ Meets step P s es := by
  refine throughout_iff_meets step (I := fun s => I s ∧ Q s) (fun s h => (hQ s h.1).mpr h.2)
    (fun s e s' h hcond hstep => ?_) (fun s e s' h hnot hstep hall => ?_) ⟨hs, hgood⟩ hrun
  · exact ⟨hkeeps s e s' h.1 hstep, (hiff s e s' h.1 h.2 hstep).mpr hcond⟩
  · exact hnot ((hiff s e s' h.1 h.2 hstep).mp ((hQ s' (hkeeps s e s' h.1 hstep)).mp hall))

/-- A beginning of a run meets the condition too. -/
theorem Meets.front {es fs : List E} (hmeets : Meets step P s (es ++ fs)) : Meets step P s es := by
  induction es generalizing s with
  | nil => trivial
  | cons e es ih => exact ⟨hmeets.1, fun s' hstep => ih (hmeets.2 s' hstep)⟩

/-- An invariant that the steps meeting a condition preserve holds throughout a run whose steps all
meet it. -/
theorem throughout_of_meets (hstep : ∀ s e s', I s → P s e → step s e = some s' → I s') (hs : I s)
    (hmeets : Meets step P s es) : Throughout step I s es := by
  intro front back t hsplit hfront
  subst hsplit
  exact run_invariant_of_meets step hstep hs (Meets.front step hmeets) hfront

theorem meets_of_throughout {Q : S → Prop} (h : Throughout step Q s es) : Meets step (fun u _ => Q u) s es := by
  induction es generalizing s with
  | nil => trivial
  | cons e es ih =>
    refine ⟨h [] (e :: es) s rfl rfl, fun s' hstep => ih fun front back t hsplit hfront => ?_⟩
    refine h (e :: front) back t (congrArg (e :: ·) hsplit) ?_
    exact (run_cons_eq_some_iff step s t e front).mpr ⟨s', hstep, hfront⟩

/-- A weaker condition is met too. -/
theorem Meets.imp {P P' : S → E → Prop} (himp : ∀ s e, P s e → P' s e) (h : Meets step P s es) :
    Meets step P' s es := by
  induction es generalizing s with
  | nil => trivial
  | cons e es ih => exact ⟨himp s e h.1, fun s' hstep => ih (h.2 s' hstep)⟩

/-- A relation of every state that a run passes through to every later one. -/
def Along (R : S → S → Prop) (s : S) (es : List E) : Prop :=
  ∀ front middle back u v, es = front ++ (middle ++ back) → run step s front = some u →
    run step u middle = some v → R u v

theorem along_cons_iff {s s' : S} {e : E} (hstep : step s e = some s') :
    Along step R s (e :: es) ↔ Throughout step (R s) s (e :: es) ∧ Along step R s' es := by
  constructor
  · intro hall
    refine ⟨fun front back t hsplit hfront => hall [] front back s t hsplit rfl hfront, ?_⟩
    intro front middle back u v hsplit hfront hmiddle
    refine hall (e :: front) middle back u v (congrArg (e :: ·) hsplit) ?_ hmiddle
    exact (run_cons_eq_some_iff step s u e front).mpr ⟨s', hstep, hfront⟩
  · rintro ⟨hfirst, hrest⟩ front middle back u v hsplit hfront hmiddle
    cases front with
    | nil =>
      cases hfront
      exact hfirst middle back v hsplit hmiddle
    | cons f front =>
      obtain ⟨hf, hback⟩ := List.cons.inj hsplit
      subst hf
      obtain ⟨s'', hstep', hfront⟩ := (run_cons_eq_some_iff step s u e front).mp hfront
      cases hstep.symm.trans hstep'
      exact hrest front middle back u v hback hfront hmiddle

/-- Where a step meets a condition exactly when it is related to its result, by a relation that is
reflexive and transitive, a run is related along its way exactly when its steps all meet the
condition. -/
theorem along_iff_meets (hrefl : ∀ s, I s → R s s) (htrans : ∀ s t u, R s t → R t u → R s u)
    (hkeeps : ∀ s e s', I s → P s e → step s e = some s' → I s')
    (hiff : ∀ s e s', I s → step s e = some s' → (P s e ↔ R s s')) (hs : I s) (hrun : run step s es = some t) :
    Along step R s es ↔ Meets step P s es := by
  induction es generalizing s with
  | nil =>
    refine iff_of_true (fun front middle back u v hsplit hfront hmiddle => ?_) trivial
    obtain ⟨rfl, hnil⟩ := nil_eq_append_iff.mp hsplit
    obtain ⟨rfl, rfl⟩ := append_eq_nil_iff.mp hnil
    cases hfront
    cases hmiddle
    exact hrefl s hs
  | cons e es ih =>
    obtain ⟨s', hstep, hrest⟩ := (run_cons_eq_some_iff step s t e es).mp hrun
    rw [along_cons_iff step hstep]
    constructor
    · rintro ⟨hfirst, hlater⟩
      have hP : P s e :=
        (hiff s e s' hs hstep).mpr (hfirst [e] es s' rfl ((run_cons_eq_some_iff step s s' e []).mpr
          ⟨s', hstep, rfl⟩))
      exact meets_cons_of_eq step hstep hP ((ih (hkeeps s e s' hs hP hstep) hrest).mp hlater)
    · intro hmeets
      refine ⟨?_, (ih (hkeeps s e s' hs hmeets.1 hstep) hrest).mpr (hmeets.2 s' hstep)⟩
      have hstart : I s ∧ R s s := ⟨hs, hrefl s hs⟩
      have hthroughout : Throughout step (fun u => I u ∧ R s u) s (e :: es) := by
        refine throughout_of_meets step ?_ hstart hmeets
        intro u f v hu hf hnext
        exact ⟨hkeeps u f v hu.1 hf hnext, htrans s u v hu.2 ((hiff u f v hu.1 hnext).mp hf)⟩
      exact fun front back u hsplit hfront => (hthroughout front back u hsplit hfront).2

/-- Every step of a run, by the states before and after it. -/
def Steps (R : S → S → Prop) (s : S) (es : List E) : Prop :=
  ∀ front e back u v, es = front ++ e :: back → run step s front = some u → step u e = some v → R u v

theorem Steps.back {front back : List E} (hsteps : Steps step R s (front ++ back))
    (hfront : run step s front = some t) : Steps step R t back := by
  intro front' e back' u v hsplit hrun hstep
  refine hsteps (front ++ front') e back' u v ?_ ?_ hstep
  · rw [hsplit, append_assoc]
  · rw [run_append, hfront]
    exact hrun

theorem Steps.front {front back : List E} (hsteps : Steps step R s (front ++ back)) : Steps step R s front := by
  intro front' e back' u v hsplit hrun hstep
  refine hsteps front' e (back' ++ back) u v ?_ hrun hstep
  rw [hsplit, append_assoc, cons_append]

theorem Steps.run_keeps {F : S → Prop} (hsteps : Steps step (fun u v => F u → F v) s es) (hs : F s)
    (hrun : run step s es = some t) : F t := by
  induction es generalizing s with
  | nil => exact some.inj hrun ▸ hs
  | cons e es ih =>
    obtain ⟨s', hstep, hrest⟩ := (run_cons_eq_some_iff step s t e es).mp hrun
    have hfirst : run step s [e] = some s' := (run_cons_eq_some_iff step s s' e []).mpr ⟨s', hstep, rfl⟩
    exact ih (Steps.back step hsteps hfirst) (hsteps [] e es s s' rfl rfl hstep hs) hrest

theorem Steps.along (hrefl : ∀ s, R s s) (htrans : ∀ s t u, R s t → R t u → R s u) (hsteps : Steps step R s es) :
    Along step R s es := by
  intro front middle back u v hsplit hfront hmiddle
  subst hsplit
  have hlater : Steps step R u middle := Steps.front step (Steps.back step hsteps hfront)
  have hkeeps : Steps step (fun x y => R u x → R u y) u middle := by
    intro front' e back' x y hsplit hrun hstep hx
    exact htrans u x y hx (hlater front' e back' x y hsplit hrun hstep)
  exact Steps.run_keeps step hkeeps (hrefl u) hmiddle

/-- Every step of a run, by its label and the states before and after it. -/
def Each (R : S → E → S → Prop) (s : S) (es : List E) : Prop :=
  ∀ front e back u v, es = front ++ e :: back → run step s front = some u → step u e = some v → R u e v

/-- Where the steps meeting a condition keep an invariant and are of a kind, all steps of a run that meet it
are. -/
theorem each_of_meets {R : S → E → S → Prop} (hstep : ∀ s e s', I s → P s e → step s e = some s' → I s' ∧ R s e s')
    (hs : I s) (hmeets : Meets step P s es) : Each step R s es := by
  induction es generalizing s with
  | nil =>
    intro front e back u v hsplit
    cases nil_eq_append_iff.mp hsplit |>.2
  | cons e es ih =>
    intro front f back u v hsplit hfront hnext
    cases front with
    | nil =>
      obtain ⟨rfl, -⟩ := List.cons.inj hsplit
      cases hfront
      exact (hstep s e v hs hmeets.1 hnext).2
    | cons g front =>
      obtain ⟨rfl, hback⟩ := List.cons.inj hsplit
      obtain ⟨s', hfirst, hrest⟩ := (run_cons_eq_some_iff step s u e front).mp hfront
      exact ih (hstep s e s' hs hmeets.1 hfirst).1 (hmeets.2 s' hfirst) front f back u v hback hrest hnext

/-- Where the steps meeting a condition keep an invariant and relate the states around them, all steps of a
run that meet it do. -/
theorem steps_of_meets (hstep : ∀ s e s', I s → P s e → step s e = some s' → I s' ∧ R s s') (hs : I s)
    (hmeets : Meets step P s es) : Steps step R s es :=
  each_of_meets step (R := fun u _ v => R u v) hstep hs hmeets

/-- Where the steps of a kind are those that meet a condition, the steps of a run are all of the kind exactly
when they all meet the condition. -/
theorem each_iff_meets {R : S → E → S → Prop} (hiff : ∀ s e s', step s e = some s' → (P s e ↔ R s e s'))
    (hrun : run step s es = some t) : Each step R s es ↔ Meets step P s es := by
  constructor
  · intro heach
    induction es generalizing s with
    | nil => trivial
    | cons e es ih =>
      obtain ⟨s', hstep, hrest⟩ := (run_cons_eq_some_iff step s t e es).mp hrun
      refine meets_cons_of_eq step hstep ((hiff s e s' hstep).mpr (heach [] e es s s' rfl rfl hstep)) ?_
      refine ih hrest fun front f back u v hsplit hfront hnext => ?_
      refine heach (e :: front) f back u v (congrArg (e :: ·) hsplit) ?_ hnext
      exact (run_cons_eq_some_iff step s u e front).mpr ⟨s', hstep, hfront⟩
  · intro hmeets
    exact each_of_meets step (I := fun _ => True) (fun s e s' _ hP hstep => ⟨trivial, (hiff s e s' hstep).mp hP⟩)
      trivial hmeets

/-- Every run meets the empty condition. -/
theorem meets_true (s : S) (es : List E) : Meets step (fun _ _ => True) s es :=
  meets_of_forall_mem step s fun _ _ => trivial

/-- No two steps of a run are of a kind. -/
def AtMostOnce (R : S → S → Prop) (s : S) (es : List E) : Prop :=
  ∀ front e middle f back u u' v v', es = front ++ e :: (middle ++ f :: back) → run step s front = some u →
    step u e = some u' → run step u' middle = some v → step v f = some v' → R u u' → ¬ R v v'

theorem atMostOnce_of_fence {F : S → Prop} (hsteps : Steps step (fun u v => (R u v → ¬ F u ∧ F v) ∧ (F u → F v)) s es) :
    AtMostOnce step R s es := by
  intro front e middle f back u u' v v' hsplit hfront he hmiddle hf hfirst hsecond
  subst hsplit
  have hlater := Steps.back step hsteps hfront
  have hclosed : F u' := ((hlater [] e _ u u' rfl rfl he).1 hfirst).2
  have hone : run step u [e] = some u' := (run_cons_eq_some_iff step u u' e []).mpr ⟨u', he, rfl⟩
  have hrest : Steps step _ u' (middle ++ f :: back) := Steps.back step hlater hone
  have hkeeps : Steps step (fun u v => F u → F v) u' middle := by
    intro front' g back' w w' hsplit' hrun hstep
    exact (Steps.front step hrest front' g back' w w' hsplit' hrun hstep).2
  have hstill : F v := Steps.run_keeps step hkeeps hclosed hmiddle
  exact ((hrest middle f back v v' rfl hmiddle hf).1 hsecond).1 hstill

/-- What is left of a run meets the condition too. -/
theorem Meets.back {front back : List E} (hmeets : Meets step P s (front ++ back))
    (hfront : run step s front = some t) : Meets step P t back := by
  induction front generalizing s with
  | nil =>
    cases hfront
    exact hmeets
  | cons e front ih =>
    obtain ⟨s', hstep, hrest⟩ := (run_cons_eq_some_iff step s t e front).mp hfront
    exact ih (hmeets.2 s' hstep) hrest

/-- Where the steps meeting a condition keep an invariant and relate the states around them, a run of such steps
is related along its way. -/
theorem along_of_meets (hrefl : ∀ s, I s → R s s) (htrans : ∀ s t u, R s t → R t u → R s u)
    (hstep : ∀ s e s', I s → P s e → step s e = some s' → I s' ∧ R s s') (hs : I s) (hmeets : Meets step P s es) :
    Along step R s es := by
  intro front middle back u v hsplit hfront hmiddle
  subst hsplit
  have hkeeps : ∀ s e s', I s → P s e → step s e = some s' → I s' :=
    fun s e s' h hP hnext => (hstep s e s' h hP hnext).1
  have hu : I u := run_invariant_of_meets step hkeeps hs (Meets.front step hmeets) hfront
  have hlater : Meets step P u middle := Meets.front step (Meets.back step hmeets hfront)
  refine (run_invariant_of_meets step (I := fun w => I w ∧ R u w) ?_ ⟨hu, hrefl u hu⟩ hlater hmiddle).2
  intro w e w' hw hP hnext
  obtain ⟨hw', hrel⟩ := hstep w e w' hw.1 hP hnext
  exact ⟨hw', htrans u w w' hw.2 hrel⟩

/-- Every step of the run meets a condition on its label and on what was logged of the steps before it. -/
def Logged {L : Type*} (log : L → S → E → L) (C : L → S → E → Prop) : L → S → List E → Prop
  | _, _, [] => True
  | l, s, e :: es => C l s e ∧ ∀ s', step s e = some s' → Logged log C (log l s e) s' es

/-- Where an invariant of the log and of the state is kept by the steps that the log admits, and makes them meet
a condition, all steps of a run so logged meet it. -/
theorem meets_of_logged {L : Type*} {log : L → S → E → L} {C : L → S → E → Prop} {I : L → S → Prop}
    (hgives : ∀ l s e, I l s → C l s e → P s e)
    (hkeeps : ∀ l s e s', I l s → C l s e → step s e = some s' → I (log l s e) s') {l : L} (hs : I l s)
    (hlogged : Logged step log C l s es) : Meets step P s es := by
  induction es generalizing l s with
  | nil => trivial
  | cons e es ih =>
    refine ⟨hgives l s e hs hlogged.1, fun s' hstep => ?_⟩
    exact ih (hkeeps l s e s' hs hlogged.1 hstep) (hlogged.2 s' hstep)

instance decidableMeets {P : S → E → Prop} [∀ s e, Decidable (P s e)] :
    ∀ (s : S) (es : List E), Decidable (Meets step P s es)
  | _, [] => .isTrue trivial
  | s, e :: es =>
    match hstep : step s e with
    | none => decidable_of_iff (P s e) ⟨fun h => ⟨h, fun _ h' => nomatch hstep.symm.trans h'⟩, fun h => h.1⟩
    | some s' =>
      have : Decidable (Meets step P s' es) := decidableMeets s' es
      decidable_of_iff (P s e ∧ Meets step P s' es)
        ⟨fun h => meets_cons_of_eq step hstep h.1 h.2, fun h => ⟨h.1, h.2 s' hstep⟩⟩

instance decidableLogged {L : Type*} {log : L → S → E → L} {C : L → S → E → Prop} [∀ l s e, Decidable (C l s e)] :
    ∀ (l : L) (s : S) (es : List E), Decidable (Logged step log C l s es)
  | _, _, [] => .isTrue trivial
  | l, s, e :: es =>
    match hstep : step s e with
    | none => decidable_of_iff (C l s e) ⟨fun h => ⟨h, fun _ h' => nomatch hstep.symm.trans h'⟩, fun h => h.1⟩
    | some s' =>
      have : Decidable (Logged step log C (log l s e) s' es) := decidableLogged (log l s e) s' es
      decidable_of_iff (C l s e ∧ Logged step log C (log l s e) s' es)
        ⟨fun h => ⟨h.1, fun _ ht => some.inj (hstep.symm.trans ht) ▸ h.2⟩, fun h => ⟨h.1, h.2 s' hstep⟩⟩

end Runs
