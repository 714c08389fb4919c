import Mathlib.Data.List.Basic

/-!
# Decoding a stream that arrives in pieces

A decoder takes one item at a time off the front of a buffer. A reader decodes from its buffer and
waits for more of the stream where the buffer holds no whole item; the wait may be given up and
taken up again. As what a decoder found does not change when more of the stream is known, the items
that a reader returns are those of the whole stream, however it arrived.
-/

namespace Onecli.Foundation

/-- A decoder of items at the front of a buffer. -/
structure Decoder (B A E : Type) where
  /-- The first item and what follows it; none where the buffer does not hold all of it. -/
  step : List B → Except E (Option (A × List B))
  consumes {buf rest : List B} {a : A} :
    step buf = .ok (some (a, rest)) → rest.length < buf.length
  extends_item {buf rest : List B} {a : A} (more : List B) :
    step buf = .ok (some (a, rest)) → step (buf ++ more) = .ok (some (a, rest ++ more))
  extends_error {buf : List B} {e : E} (more : List B) :
    step buf = .error e → step (buf ++ more) = .error e

/-- What a reader sees that waits for the stream. -/
inductive Arrival (B : Type) where
  /-- A read; one of no bytes would be the end. -/
  | data (chunk : { chunk : List B // chunk ≠ [] })
  /-- The wait is given up. -/
  | cancelled

/-- What has been read once all of this arrived. -/
def received {B : Type} : List (Arrival B) → List B
  | [] => []
  | .data chunk :: later => chunk.val ++ received later
  | .cancelled :: later => received later

/-- How a call of a reader ends. -/
inductive Pulled (A E T : Type) where
  | item (a : A)
  | stopped (result : Except E T)
  | cancelled

namespace Decoder

variable {B A E T : Type} (d : Decoder B A E) (finish : List B → Except E T)

/-- One call of a reader: how it ends, the buffer it leaves, and what is still to arrive. -/
def pull (buf : List B) (arrivals : List (Arrival B)) :
    Pulled A E T × List B × List (Arrival B) :=
  match d.step buf with
  | .error e => (.stopped (.error e), buf, arrivals)
  | .ok (some (a, rest)) => (.item a, rest, arrivals)
  | .ok none =>
    match arrivals with
    | [] => (.stopped (finish buf), buf, [])
    | .cancelled :: later => (.cancelled, buf, later)
    | .data chunk :: later => pull (buf ++ chunk.val) later

/-- A bound on the calls that are still to come. -/
def pending (buf : List B) (arrivals : List (Arrival B)) : ℕ :=
  buf.length + (received arrivals).length + arrivals.length

/-- The items of a stream and where they end, all of it at once. -/
def drain (bytes : List B) : List A × Except E T :=
  match _hstep : d.step bytes with
  | .error e => ([], .error e)
  | .ok none => ([], finish bytes)
  | .ok (some (a, rest)) => (a :: (drain rest).1, (drain rest).2)
termination_by bytes.length
decreasing_by all_goals exact d.consumes _hstep

section Drain

variable {bytes rest : List B} {a : A} {e : E}

/-- A drain that finds an item goes on behind it. -/
theorem drain_item (h : d.step bytes = .ok (some (a, rest))) :
    d.drain finish bytes = (a :: (d.drain finish rest).1, (d.drain finish rest).2) := by
  rw [drain]
  split
  · next hstep => cases h.symm.trans hstep
  · next hstep => cases h.symm.trans hstep
  · next hstep =>
    cases h.symm.trans hstep
    rfl

theorem drain_error (h : d.step bytes = .error e) : d.drain finish bytes = ([], .error e) := by
  rw [drain]
  split
  · next hstep =>
    cases h.symm.trans hstep
    rfl
  · next hstep => cases h.symm.trans hstep
  · next hstep => cases h.symm.trans hstep

/-- A drain that finds none ends. -/
theorem drain_none (h : d.step bytes = .ok none) : d.drain finish bytes = ([], finish bytes) := by
  rw [drain]
  split
  · next hstep => cases h.symm.trans hstep
  · rfl
  · next hstep => cases h.symm.trans hstep

end Drain

/-- What a call returns is what the whole stream has at its front. -/
def Returns (buf : List B) (arrivals : List (Arrival B)) :
    Pulled A E T × List B × List (Arrival B) → Prop
  | (.item a, buf', later) =>
    d.drain finish (buf ++ received arrivals) =
        (a :: (d.drain finish (buf' ++ received later)).1, (d.drain finish (buf' ++ received later)).2) ∧
      pending buf' later < pending buf arrivals
  | (.stopped result, _, _) => d.drain finish (buf ++ received arrivals) = ([], result)
  | (.cancelled, buf', later) =>
    buf' ++ received later = buf ++ received arrivals ∧ pending buf' later < pending buf arrivals

theorem Returns.data {buf : List B} {chunk : { chunk : List B // chunk ≠ [] }}
    {later : List (Arrival B)} {call : Pulled A E T × List B × List (Arrival B)}
    (h : d.Returns finish (buf ++ chunk.val) later call) :
    d.Returns finish buf (.data chunk :: later) call := by
  obtain ⟨pulled, buf', rest⟩ := call
  have hstream : buf ++ chunk.val ++ received later = buf ++ received (.data chunk :: later) :=
    List.append_assoc _ _ _
  have hpend : pending (buf ++ chunk.val) later < pending buf (.data chunk :: later) := by
    have hlength := congrArg List.length hstream
    rw [List.length_append, List.length_append] at hlength
    unfold pending
    rw [List.length_cons]
    rw [List.length_append] at hlength ⊢
    omega
  cases pulled with
  | item => exact ⟨hstream ▸ h.1, Nat.lt_trans h.2 hpend⟩
  | stopped =>
    change d.drain finish _ = _
    rw [← hstream]
    exact h
  | cancelled => exact ⟨h.1.trans hstream, Nat.lt_trans h.2 hpend⟩

/-- Every pull returns. -/
theorem pull_returns (buf : List B) (arrivals : List (Arrival B)) :
    d.Returns finish buf arrivals (d.pull finish buf arrivals) := by
  induction arrivals generalizing buf with
  | nil =>
    unfold pull
    cases hstep : d.step buf with
    | error =>
      have hmore := d.extends_error (received []) hstep
      exact d.drain_error finish hmore
    | ok found =>
      cases found with
      | none =>
        change d.drain finish (buf ++ []) = ([], finish buf)
        rw [List.append_nil]
        exact d.drain_none finish hstep
      | some =>
        have hmore := d.extends_item (received []) hstep
        have hless := d.consumes hstep
        refine ⟨d.drain_item finish hmore, ?_⟩
        unfold pending
        omega
  | cons arrival later ih =>
    unfold pull
    cases hstep : d.step buf with
    | error =>
      have hmore := d.extends_error (received (arrival :: later)) hstep
      exact d.drain_error finish hmore
    | ok found =>
      cases found with
      | none =>
        cases arrival with
        | data chunk => exact Returns.data d finish (ih (buf ++ chunk.val))
        | cancelled =>
          refine ⟨rfl, ?_⟩
          change buf.length + (received later).length + later.length <
            buf.length + (received later).length + (later.length + 1)
          omega
      | some =>
        have hmore := d.extends_item (received (arrival :: later)) hstep
        have hless := d.consumes hstep
        refine ⟨d.drain_item finish hmore, ?_⟩
        unfold pending
        omega

/-- The calls of a reader until one stops: the items they return, and how the last one ends. A
call whose wait was given up is made again. -/
def pulls (buf : List B) (arrivals : List (Arrival B)) : List A × Except E T :=
  match _hcall : d.pull finish buf arrivals with
  | (.item a, buf', later) => (a :: (pulls buf' later).1, (pulls buf' later).2)
  | (.stopped result, _, _) => ([], result)
  | (.cancelled, buf', later) => pulls buf' later
termination_by pending buf arrivals
decreasing_by
  all_goals
    have hret := d.pull_returns finish buf arrivals
    rw [_hcall] at hret
    exact hret.2

/-- Pulls drain what has arrived, however it was cut. -/
theorem pulls_eq_drain (buf : List B) (arrivals : List (Arrival B)) :
    d.pulls finish buf arrivals = d.drain finish (buf ++ received arrivals) := by
  induction hbound : pending buf arrivals using Nat.strongRecOn generalizing buf arrivals with
  | ind n ih =>
    have hret := d.pull_returns finish buf arrivals
    rw [pulls]
    split
    · next a buf' later hcall =>
      rw [hcall] at hret
      rw [ih _ (hbound ▸ hret.2) buf' later rfl]
      exact hret.1.symm
    · next result buf' later hcall =>
      rw [hcall] at hret
      exact hret.symm
    · next buf' later hcall =>
      rw [hcall] at hret
      rw [ih _ (hbound ▸ hret.2) buf' later rfl, hret.1]

end Decoder

end Onecli.Foundation
