import Onecli.Foundation.CommonSubsequence
import Onecli.Gateway.Text

/-!
# A card that leads with what changes

`lead_with` of `summary/src/change.rs`: the rows that were compared make room for the change rows,
which go in after the Endpoint row. The rows that stay move, and with them the indices that the
records and the fallback range hold.
-/

namespace Onecli.Summary

open CommonSubsequence List Nat
open Gateway (Str)

/-- `ApprovalDetail`. -/
structure Detail where
  label : Str
  value : Str
  url : Option Str
  deriving DecidableEq

/-- `RecordRef`: the index of the row that names a record. -/
structure RecordRef where
  detailIndex : ℕ
  object : Str
  id : Str

/-- What `lead_with` reads of an `ApprovalSummary`; the fallback range is a start and an end. -/
structure ApprovalSummary where
  details : List Detail
  refs : List RecordRef
  fallback : Option (ℕ × ℕ)

/-- The label of an Endpoint row. -/
def Detail.isEndpoint (d : Detail) : Bool := d.label == "Endpoint".toList

/-- `fallback.clone().unwrap_or(0..0)`. -/
def ApprovalSummary.fallbackRows (s : ApprovalSummary) : ℕ × ℕ := s.fallback.getD (0, 0)

/-- Where the first Endpoint row stands. -/
def endpointAt (details : List Detail) : Option ℕ := details.findIdx? Detail.isEndpoint

/-- The row stays on the card. -/
def stays (s : ApprovalSummary) (i : ℕ) (d : Detail) : Bool :=
  decide (i < (endpointAt s.details).getD 0) || d.isEndpoint || d.url.isSome ||
    (s.refs.map RecordRef.detailIndex).contains i ||
    (decide (s.fallbackRows.1 ≤ i) && decide (i < s.fallbackRows.2))

/-- Which rows stay. -/
def stayFlags (s : ApprovalSummary) : List Bool := s.details.zipIdx.map fun (d, i) => stays s i d

/-- `moved`: where each row stands among those that stay. -/
def movedTo : ℕ → List Bool → List (Option ℕ)
  | _, [] => []
  | n, true :: flags => some n :: movedTo (n + 1) flags
  | n, false :: flags => none :: movedTo n flags

/-- The place of the row that `i` named; an index past the rows panics on the fallback range. -/
def movedPlace (moved : List (Option ℕ)) (i : ℕ) : Option ℕ := (moved[i]?).join

/-- `lead_with`. -/
def leadWith (s : ApprovalSummary) (rows : List Detail) : ApprovalSummary :=
  let moved := movedTo 0 (stayFlags s)
  let details := flagged true (stayFlags s) s.details
  let place := ((endpointAt details).map (· + 1)).getD 0
  let shift := fun p => if place ≤ p then p + rows.length else p
  let positions := (List.range' s.fallbackRows.1 (s.fallbackRows.2 - s.fallbackRows.1)).filterMap fun i =>
    (movedPlace moved i).map shift
  { details := details.take place ++ rows ++ details.drop place
    refs := s.refs.map fun r =>
      match movedPlace moved r.detailIndex with
      | some p => { r with detailIndex := shift p }
      | none => r
    fallback := s.fallback.map fun _ =>
      match positions.head?, positions.getLast? with
      | some first, some last => (first, last + 1)
      | _, _ => (0, 0) }

/-! ## What has to stay in place -/

/-- The references and the fallback range point at rows. -/
structure ApprovalSummary.Pointed (s : ApprovalSummary) : Prop where
  refs : ∀ r ∈ s.refs, r.detailIndex < s.details.length
  fallback : s.fallbackRows.1 < s.fallbackRows.2 → s.fallbackRows.2 ≤ s.details.length

/-- The rows that are not values compared: the context ahead of the Endpoint, the Endpoint rows,
the linked rows, the record rows and the fallback rows. -/
def Retained (s : ApprovalSummary) (i : ℕ) : Prop :=
  ∃ d, s.details[i]? = some d ∧
    ((∃ e, endpointAt s.details = some e ∧ i < e) ∨ d.label = "Endpoint".toList ∨ d.url ≠ none ∨
      (∃ r ∈ s.refs, r.detailIndex = i) ∨ (s.fallbackRows.1 ≤ i ∧ i < s.fallbackRows.2))

/-- The retained rows keep their order and their text, and each reference keeps its row; `place`
says where a row has gone. -/
structure KeepsRows (s s' : ApprovalSummary) (place : ℕ → ℕ) : Prop where
  order : ∀ i j, Retained s i → Retained s j → i < j → place i < place j
  rows : ∀ i, Retained s i → s'.details[place i]? = s.details[i]?
  refs : s'.refs = s.refs.map fun r => { r with detailIndex := place r.detailIndex }

/-- The new fallback range covers exactly the rows that the old one covered. -/
def CoversSame (s s' : ApprovalSummary) (place : ℕ → ℕ) : Prop :=
  s'.fallback.isSome = s.fallback.isSome ∧
    ∀ p, (s'.fallbackRows.1 ≤ p ∧ p < s'.fallbackRows.2) ↔
      ∃ i, s.fallbackRows.1 ≤ i ∧ i < s.fallbackRows.2 ∧ place i = p

/-- The fallback range holds the Endpoint row and the row after it, between which rows go in. -/
def Spans (s : ApprovalSummary) (rows : List Detail) : Prop :=
  rows ≠ [] ∧ ∃ e, endpointAt s.details = some e ∧ s.fallbackRows.1 ≤ e ∧ e + 1 < s.fallbackRows.2

/-! ## Where the rows go -/

theorem movedPlace_movedTo {flags : List Bool} {i : ℕ} (h : flags[i]? = some true) (n : ℕ) :
    movedPlace (movedTo n flags) i = some (n + rank flags i) := by
  induction flags generalizing i n with
  | nil => cases h
  | cons flag flags ih =>
    cases i with
    | zero =>
      obtain rfl : flag = true := Option.some.inj h
      rfl
    | succ i =>
      have hrest : flags[i]? = some true := h
      cases flag with
      | true =>
        have hrank : rank (true :: flags) (i + 1) = rank flags i + 1 := by simp [rank]
        rw [hrank, ← Nat.add_assoc, Nat.add_right_comm]
        exact ih hrest (n + 1)
      | false =>
        have hrank : rank (false :: flags) (i + 1) = rank flags i := by simp [rank]
        exact ih hrest n

section Places

variable {s : ApprovalSummary}

/-- The flags of the retained rows. -/
theorem stayFlags_iff (i : ℕ) : (stayFlags s)[i]? = some true ↔ Retained s i := by
  have hbefore : decide (i < (endpointAt s.details).getD 0) = true ↔ ∃ e, endpointAt s.details = some e ∧ i < e := by
    cases endpointAt s.details <;> simp
  have hrefs : (s.refs.map RecordRef.detailIndex).contains i = true ↔ ∃ r ∈ s.refs, r.detailIndex = i := by
    simp
  have hstays (d : Detail) : stays s i d = true ↔
      (∃ e, endpointAt s.details = some e ∧ i < e) ∨ d.label = "Endpoint".toList ∨ d.url ≠ none ∨
        (∃ r ∈ s.refs, r.detailIndex = i) ∨ (s.fallbackRows.1 ≤ i ∧ i < s.fallbackRows.2) := by
    rw [← hbefore, ← hrefs]
    simp only [stays, Detail.isEndpoint, Bool.or_eq_true, Bool.and_eq_true, beq_iff_eq, decide_eq_true_eq,
      Option.isSome_iff_ne_none, or_assoc]
  simp only [stayFlags, List.getElem?_map, List.getElem?_zipIdx, Option.map_map, Option.map_eq_some_iff,
    Function.comp_apply, zero_add, Retained, ← hstays]

theorem stay_of_le {e i : ℕ} (he : endpointAt s.details = some e) (h : i ≤ e) : Retained s i := by
  obtain ⟨hlt, hlabel, -⟩ := List.findIdx?_eq_some_iff_getElem.mp he
  refine ⟨s.details[i], List.getElem?_eq_getElem _, ?_⟩
  rcases lt_or_eq_of_le h with hless | rfl
  · exact .inl ⟨e, he, hless⟩
  · exact Or.inr (Or.inl (by simpa [Detail.isEndpoint] using hlabel))

/-- Up to the endpoint every row stays. -/
theorem rank_of_le {e i : ℕ} (he : endpointAt s.details = some e) (h : i ≤ e + 1) :
    rank (stayFlags s) i = i :=
  rank_of_all fun j hj => (stayFlags_iff j).mpr (stay_of_le he (by omega))

/-- The endpoint stays. -/
theorem endpointAt_flagged : endpointAt (flagged true (stayFlags s) s.details) = endpointAt s.details := by
  cases he : endpointAt s.details with
  | none =>
    rw [endpointAt, List.findIdx?_eq_none_iff] at he ⊢
    exact fun d hd => he d ((flagged_sublist true _ _).subset hd)
  | some e =>
    have hsame (i : ℕ) (hi : i ≤ e) : (flagged true (stayFlags s) s.details)[i]? = s.details[i]? := by
      have hget : (flagged true (stayFlags s) s.details)[rank (stayFlags s) i]? = s.details[i]? :=
        getElem?_flagged ((stayFlags_iff i).mpr (stay_of_le he hi))
      rwa [rank_of_le he (by omega)] at hget
    obtain ⟨hlt, hlabel, hbefore⟩ := List.findIdx?_eq_some_iff_getElem.mp he
    obtain ⟨hlt', hget⟩ := List.getElem?_eq_some_iff.mp ((hsame e le_rfl).trans (List.getElem?_eq_getElem hlt))
    refine List.findIdx?_eq_some_iff_getElem.mpr ⟨hlt', hget ▸ hlabel, fun j hj => ?_⟩
    have hj' := hsame j hj.le
    rw [List.getElem?_eq_getElem (hj.trans hlt'), List.getElem?_eq_getElem (hj.trans hlt)] at hj'
    exact Option.some.inj hj' ▸ hbefore j hj

/-- Where the change rows go in. -/
def leadPlace (s : ApprovalSummary) : ℕ := ((endpointAt s.details).map (· + 1)).getD 0

/-- Where a retained row goes. -/
def newPlace (s : ApprovalSummary) (rows : List Detail) (i : ℕ) : ℕ :=
  if leadPlace s ≤ i then rank (stayFlags s) i + rows.length else i

/-- A place stays behind the lead. -/
theorem rank_lead {i : ℕ} : leadPlace s ≤ rank (stayFlags s) i ↔ leadPlace s ≤ i := by
  unfold leadPlace
  cases he : endpointAt s.details with
  | none => simp
  | some e =>
    show e + 1 ≤ rank (stayFlags s) i ↔ e + 1 ≤ i
    constructor
    · intro h
      by_contra hlt
      rw [rank_of_le he (by omega)] at h
      omega
    · intro h
      have hmono := rank_mono (stayFlags s) h
      rwa [rank_of_le he le_rfl] at hmono

/-- Where a place moves to. -/
theorem shift_rank (rows : List Detail) (i : ℕ) :
    (if leadPlace s ≤ rank (stayFlags s) i then rank (stayFlags s) i + rows.length
      else rank (stayFlags s) i) = newPlace s rows i := by
  simp only [newPlace, rank_lead]
  split_ifs with h
  · rfl
  · cases he : endpointAt s.details with
    | none => simp [leadPlace, he] at h
    | some =>
      refine rank_of_le he ?_
      simp only [leadPlace, he, Option.map_some, Option.getD_some] at h
      omega

theorem getElem?_insert {kept rows : List Detail} {place p : ℕ} (hplace : place ≤ kept.length) :
    (kept.take place ++ rows ++ kept.drop place)[if place ≤ p then p + rows.length else p]? = kept[p]? := by
  have hlen : (kept.take place).length = place := length_take_of_le hplace
  split_ifs with h
  · rw [List.getElem?_append_right (by rw [length_append]; omega), length_append, List.getElem?_drop]
    congr 1
    omega
  · rw [append_assoc, List.getElem?_append_left (by omega), List.getElem?_take_of_lt (by omega)]

theorem leadPlace_le : leadPlace s ≤ (flagged true (stayFlags s) s.details).length := by
  rw [leadPlace, ← endpointAt_flagged]
  cases he : endpointAt (flagged true (stayFlags s) s.details) with
  | none => exact zero_le _
  | some => exact (List.findIdx?_eq_some_iff_getElem.mp he).1

theorem leadWith_details (rows : List Detail) : (leadWith s rows).details =
    (flagged true (stayFlags s) s.details).take (leadPlace s) ++ rows ++
      (flagged true (stayFlags s) s.details).drop (leadPlace s) := by
  simp only [leadWith, endpointAt_flagged, leadPlace]

theorem movedPlace_shift {i : ℕ} (h : Retained s i) (rows : List Detail) :
    (movedPlace (movedTo 0 (stayFlags s)) i).map
      (fun p => if leadPlace s ≤ p then p + rows.length else p) = some (newPlace s rows i) := by
  rw [movedPlace_movedTo ((stayFlags_iff i).mpr h), zero_add, Option.map_some, shift_rank]

/-- What stays in front keeps its rows in order. -/
theorem keepsRows_leadWith (hpointed : s.Pointed) (rows : List Detail) :
    KeepsRows s (leadWith s rows) (newPlace s rows) := by
  refine ⟨?_, ?_, ?_⟩
  · intro i j hi hj hlt
    have hrank := rank_lt ((stayFlags_iff i).mpr hi) hlt
    have hlead := rank_lead (s := s) (i := j)
    simp only [newPlace]
    split_ifs <;> omega
  · intro i hi
    rw [leadWith_details, ← shift_rank, getElem?_insert leadPlace_le]
    exact getElem?_flagged ((stayFlags_iff i).mpr hi)
  · refine map_congr_left fun r hr => ?_
    have hretained : Retained s r.detailIndex := by
      have hlt := hpointed.refs r hr
      exact ⟨s.details[r.detailIndex], List.getElem?_eq_getElem hlt, by
        exact .inr (.inr (.inr (.inl ⟨r, hr, rfl⟩)))⟩
    obtain ⟨p, hp, hshift⟩ := Option.map_eq_some_iff.mp (movedPlace_shift hretained rows)
    simp only [endpointAt_flagged]
    rw [hp, ← hshift]
    rfl

theorem positions_eq {a b : ℕ} (h : ∀ i, a ≤ i → i < b → Retained s i) (rows : List Detail) :
    ((List.range' a (b - a)).filterMap fun i => (movedPlace (movedTo 0 (stayFlags s)) i).map
      fun p => if leadPlace s ≤ p then p + rows.length else p) = (List.range' a (b - a)).map (newPlace s rows) := by
  rw [← filterMap_eq_map]
  refine filterMap_congr fun i hi => ?_
  rw [List.mem_range'_1] at hi
  exact movedPlace_shift (h i hi.1 (by omega)) rows

/-- A fallback row is retained. -/
theorem retained_of_fallback (hpointed : s.Pointed) {i : ℕ} (hstart : s.fallbackRows.1 ≤ i)
    (hend : i < s.fallbackRows.2) : Retained s i := by
  have hlt : i < s.details.length := hend.trans_le (hpointed.fallback (hstart.trans_lt hend))
  exact ⟨s.details[i], List.getElem?_eq_getElem hlt, .inr (.inr (.inr (.inr ⟨hstart, hend⟩)))⟩

theorem leadWith_fallback (hpointed : s.Pointed) (rows : List Detail) :
    (leadWith s rows).fallback = s.fallback.map fun _ =>
      if s.fallbackRows.1 < s.fallbackRows.2 then
        (newPlace s rows s.fallbackRows.1, newPlace s rows (s.fallbackRows.2 - 1) + 1)
      else (0, 0) := by
  have hpositions := positions_eq (s := s)
    (fun i hstart hend => retained_of_fallback hpointed (i := i) hstart hend) rows
  simp only [leadWith, endpointAt_flagged]
  rw [leadPlace] at hpositions
  simp only [hpositions]
  congr 1
  funext _
  split_ifs with hlt
  · have hne : s.fallbackRows.2 - s.fallbackRows.1 ≠ 0 := by omega
    have hlast : s.fallbackRows.1 + (s.fallbackRows.2 - s.fallbackRows.1) - 1 = s.fallbackRows.2 - 1 := by omega
    rw [List.head?_map, List.getLast?_map, List.head?_range', List.getLast?_range', if_neg hne, if_neg hne, hlast]
    rfl
  · rw [Nat.sub_eq_zero_of_le (by omega)]
    rfl

theorem newPlace_succ {i : ℕ} (hi : Retained s i) {rows : List Detail} (h : rows = [] ∨ i + 1 ≠ leadPlace s) :
    newPlace s rows (i + 1) = newPlace s rows i + 1 := by
  have hrank := rank_succ ((stayFlags_iff i).mpr hi)
  have hlow := shift_rank (s := s) [] i
  have hhigh := shift_rank (s := s) [] (i + 1)
  simp only [newPlace, length_nil, add_zero, ite_self] at hlow hhigh ⊢
  rcases h with rfl | hne
  · simp only [length_nil, add_zero]
    omega
  · split_ifs at hlow hhigh ⊢ <;> omega

theorem newPlace_add {a b : ℕ} (h : ∀ i, a ≤ i → i < b → Retained s i) {rows : List Detail}
    (hspan : ∀ i, a ≤ i → i + 1 < b → rows = [] ∨ i + 1 ≠ leadPlace s) (n : ℕ) (hn : a + n < b) :
    newPlace s rows (a + n) = newPlace s rows a + n := by
  induction n with
  | zero => rfl
  | succ n ih =>
    rw [← add_assoc, newPlace_succ (h _ (by omega) (by omega)) (hspan _ (by omega) (by omega)), ih (by omega),
      add_assoc]

theorem fallbackRows_leadWith (hpointed : s.Pointed) (rows : List Detail) :
    (leadWith s rows).fallbackRows =
      if s.fallbackRows.1 < s.fallbackRows.2 then
        (newPlace s rows s.fallbackRows.1, newPlace s rows (s.fallbackRows.2 - 1) + 1)
      else (0, 0) := by
  rw [ApprovalSummary.fallbackRows, leadWith_fallback hpointed]
  cases hfallback : s.fallback with
  | none => simp [ApprovalSummary.fallbackRows, hfallback]
  | some => rfl

/-- Every place is covered by the same rows exactly where no range spans. -/
theorem coversSame_leadWith_iff (hpointed : s.Pointed) (rows : List Detail) :
    CoversSame s (leadWith s rows) (newPlace s rows) ↔ ¬ Spans s rows := by
  rw [CoversSame, fallbackRows_leadWith hpointed]
  constructor
  · rintro ⟨-, hcovers⟩ ⟨hrows, e, he, hstart, hend⟩
    have hlead : leadPlace s = e + 1 := by rw [leadPlace, he]; rfl
    have hpos : 0 < rows.length := length_pos_iff.mpr hrows
    rw [if_pos (by omega)] at hcovers
    have hfirst : newPlace s rows s.fallbackRows.1 = s.fallbackRows.1 := if_neg (by omega)
    have hlast : e + 1 < newPlace s rows (s.fallbackRows.2 - 1) + 1 := by
      have hrank := (rank_lead (s := s) (i := s.fallbackRows.2 - 1)).mpr (by omega)
      rw [newPlace, if_pos (by omega)]
      omega
    obtain ⟨i, -, -, hi⟩ := (hcovers (e + 1)).mp ⟨by rw [hfirst]; omega, hlast⟩
    have hrank := rank_lead (s := s) (i := i)
    rw [newPlace] at hi
    split_ifs at hi <;> omega
  · intro hspan
    refine ⟨by rw [leadWith_fallback hpointed, Option.isSome_map], fun p => ?_⟩
    split_ifs with hlt
    · have hmid : ∀ i, s.fallbackRows.1 ≤ i → i + 1 < s.fallbackRows.2 → rows = [] ∨ i + 1 ≠ leadPlace s := by
        intro i hstart hend
        by_contra hboth
        rw [not_or] at hboth
        cases he : endpointAt s.details with
        | none => simp [leadPlace, he] at hboth
        | some e =>
          obtain rfl : i = e := by simpa [leadPlace, he] using hboth.2
          exact hspan ⟨hboth.1, i, he, hstart, hend⟩
      have hadd := newPlace_add
        (fun i hstart hend => retained_of_fallback hpointed (s := s) (i := i) hstart hend) hmid
      have hlast := hadd (s.fallbackRows.2 - 1 - s.fallbackRows.1) (by omega)
      rw [Nat.add_sub_cancel' (by omega)] at hlast
      constructor
      · rintro ⟨hge, hle⟩
        refine ⟨s.fallbackRows.1 + (p - newPlace s rows s.fallbackRows.1), by omega, by omega, ?_⟩
        rw [hadd _ (by omega)]
        omega
      · rintro ⟨i, hstart, hend, rfl⟩
        have hi := hadd (i - s.fallbackRows.1) (by omega)
        rw [Nat.add_sub_cancel' hstart] at hi
        omega
    · constructor
      · rintro ⟨-, hneg⟩
        exact absurd hneg (not_lt_zero p)
      · rintro ⟨i, hstart, hend, -⟩
        omega

end Places

/-- Leading with changes keeps every retained row, in order, and every reference on its row; the
fallback range covers the rows it covered exactly when the change rows do not go in between them. -/
theorem leadWith_keeps_rows (s : ApprovalSummary) (rows : List Detail) (hpointed : s.Pointed) :
    ∃ place, KeepsRows s (leadWith s rows) place ∧ (CoversSame s (leadWith s rows) place ↔ ¬ Spans s rows) :=
  ⟨newPlace s rows, keepsRows_leadWith hpointed rows, coversSame_leadWith_iff hpointed rows⟩

/-- A card with context ahead of its Endpoint, and a record row that is the fallback's. -/
def contactCard : ApprovalSummary where
  details := [⟨"Safety context".toList, "Provider warning".toList, none⟩, ⟨"Endpoint".toList, "/x/1".toList, none⟩,
    ⟨"Title".toList, "Boss".toList, none⟩, ⟨"Account".toList, "001".toList, none⟩]
  refs := [⟨3, "Account".toList, "001".toList⟩]
  fallback := some (3, 4)

/-- A changed title. -/
def titleChange : List Detail := [⟨"Title".toList, "Boss → Chief".toList, none⟩]

/-- The card of a contact leads with the new title. -/
theorem leadWith_keeps_rows_contact :
    ∃ place, KeepsRows contactCard (leadWith contactCard titleChange) place ∧
      (CoversSame contactCard (leadWith contactCard titleChange) place ↔ ¬ Spans contactCard titleChange) :=
  leadWith_keeps_rows contactCard titleChange ⟨by decide, by decide⟩

/-- A card whose fallback range starts at the Endpoint row. -/
def spanningCard : ApprovalSummary where
  details := [⟨"Endpoint".toList, "/x/1".toList, none⟩, ⟨"Account".toList, "001".toList, none⟩]
  refs := []
  fallback := some (0, 2)

/-- There the change row becomes one of the fallback's. -/
theorem leadWith_widens_fallback :
    spanningCard.Pointed ∧ ¬ ∃ place, KeepsRows spanningCard (leadWith spanningCard titleChange) place ∧
      CoversSame spanningCard (leadWith spanningCard titleChange) place := by
  refine ⟨⟨by decide, by decide⟩, ?_⟩
  rintro ⟨place, hkeeps, -, hcovers⟩
  have hrange : (leadWith spanningCard titleChange).fallbackRows = (0, 3) := by decide +kernel
  rw [hrange] at hcovers
  obtain ⟨i, -, hi, hplace⟩ := (hcovers 1).mp ⟨by omega, by omega⟩
  have hretained : Retained spanningCard i := retained_of_fallback ⟨by decide, by decide⟩ (zero_le i) hi
  have hrow := hkeeps.rows i hretained
  rw [hplace] at hrow
  have hlt : i < 2 := hi
  obtain rfl | rfl : i = 0 ∨ i = 1 := by omega
  · exact absurd hrow (by decide +kernel)
  · exact absurd hrow (by decide +kernel)

end Onecli.Summary
