import Mathlib.Data.List.Infix

/-!
# Reading a log from a cursor on

A log is written in the order of an index. A reader who starts at a cursor is shown its entries one after the other,
some of them from the log and some from elsewhere. What the reader has been shown covers the log up to a mark when no
entry between the cursor and the mark is missing from it; it stays so while the log grows above the mark.
-/

namespace LogTail

open List Nat

variable {α : Type*} (index : α → ℕ)

/-- What is shown of a log between a cursor and a mark: every entry of it, in the order of the index. -/
structure Covers (log shown : List α) (cursor mark : ℕ) : Prop where
  rises : shown.Pairwise fun a b => index a < index b
  within : ∀ a ∈ shown, cursor < index a ∧ index a ≤ mark
  complete : ∀ a ∈ log, cursor < index a → index a ≤ mark → a ∈ shown

namespace Covers

variable {index} {log log' shown page rest : List α} {cursor middle mark mark' : ℕ} {a b : α}

theorem nil (log : List α) (cursor : ℕ) : Covers index log [] cursor cursor where
  rises := List.Pairwise.nil
  within := nofun
  complete := fun _ _ habove hbelow => absurd hbelow (not_le.mpr habove)

theorem grows (h : Covers index log shown cursor mark)
    (hnew : ∀ a ∈ log', a ∈ log ∨ index a ≤ cursor ∨ mark < index a) : Covers index log' shown cursor mark where
  __ := h
  complete := by
    intro a ha habove hbelow
    rcases hnew a ha with hold | hlow | hhigh
    · exact h.complete a hold habove hbelow
    · exact absurd hlow (not_le.mpr habove)
    · exact absurd hbelow (not_le.mpr hhigh)

theorem skip (h : Covers index log shown cursor mark) (hle : mark ≤ mark')
    (hnone : ∀ a ∈ log, index a ≤ mark' → index a ≤ mark) : Covers index log shown cursor mark' where
  rises := h.rises
  within := fun a ha => ⟨(h.within a ha).1, (h.within a ha).2.trans hle⟩
  complete := fun a ha habove hbelow => h.complete a ha habove (hnone a ha hbelow)

theorem append (h : Covers index log shown cursor middle) (hpage : Covers index log page middle mark)
    (hcursor : cursor ≤ middle) (hmark : middle ≤ mark) : Covers index log (shown ++ page) cursor mark where
  rises := pairwise_append.mpr ⟨h.rises, hpage.rises, fun a ha b hb =>
    lt_of_le_of_lt (h.within a ha).2 (hpage.within b hb).1⟩
  within := by
    intro a ha
    rcases mem_append.mp ha with ha | ha
    · exact ⟨(h.within a ha).1, (h.within a ha).2.trans hmark⟩
    · exact ⟨lt_of_le_of_lt hcursor (hpage.within a ha).1, (hpage.within a ha).2⟩
  complete := by
    intro a ha habove hbelow
    rcases lt_or_ge middle (index a) with hlater | hearlier
    · exact mem_append_right _ (hpage.complete a ha hlater hbelow)
    · exact mem_append_left _ (h.complete a ha habove hearlier)

theorem head (h : Covers index log (a :: rest) cursor mark) : Covers index log [a] cursor (index a) where
  rises := pairwise_singleton _ a
  within := by
    intro b hb
    rw [mem_singleton.mp hb]
    exact ⟨(h.within a mem_cons_self).1, le_rfl⟩
  complete := by
    intro b hb habove hbelow
    have hmem := h.complete b hb habove (hbelow.trans (h.within a mem_cons_self).2)
    rcases mem_cons.mp hmem with rfl | hlater
    · exact mem_singleton_self b
    · exact absurd hbelow (not_le.mpr ((pairwise_cons.mp h.rises).1 b hlater))

theorem tail (h : Covers index log (a :: rest) cursor mark) : Covers index log rest (index a) mark where
  rises := (pairwise_cons.mp h.rises).2
  within := fun b hb => ⟨(pairwise_cons.mp h.rises).1 b hb, (h.within b (mem_cons_of_mem a hb)).2⟩
  complete := by
    intro b hb habove hbelow
    have hmem := h.complete b hb ((h.within a mem_cons_self).1.trans habove) hbelow
    rcases mem_cons.mp hmem with rfl | hlater
    · exact absurd habove (lt_irrefl _)
    · exact hlater

theorem single (hnext : mark + 1 = index a) (honly : ∀ b ∈ log, index b = index a → b = a) :
    Covers index log [a] mark (index a) where
  rises := pairwise_singleton _ a
  within := by
    intro b hb
    rw [mem_singleton.mp hb]
    exact ⟨lt_of_succ_le hnext.le, le_rfl⟩
  complete := by
    intro b hb habove hbelow
    rw [honly b hb (le_antisymm hbelow (hnext ▸ habove))]
    exact mem_singleton_self a

/-- What lies between the cursor and a shown entry was shown before it. -/
theorem mem_front (h : Covers index log shown cursor mark) {front back : List α} (hshown : shown = front ++ a :: back)
    (hb : b ∈ log) (habove : cursor < index b) (hbelow : index b < index a) : b ∈ front := by
  subst hshown
  have hmark := (h.within a (mem_append_right _ mem_cons_self)).2
  rcases mem_append.mp (h.complete b hb habove (hbelow.le.trans hmark)) with hfront | hback
  · exact hfront
  · have hrises := (pairwise_append.mp h.rises).2.1
    rcases mem_cons.mp hback with rfl | hlater
    · exact absurd hbelow (lt_irrefl _)
    · exact absurd hbelow (not_lt.mpr ((pairwise_cons.mp hrises).1 b hlater).le)

/-- What lies below the last entry of a prefix is in the prefix. -/
theorem mem_of_front (h : Covers index log shown cursor mark) {front : List α} (hfront : front <+: shown) (hb : b ∈ log)
    (habove : cursor < index b) (hbelow : index b ≤ front.getLast?.elim cursor index) : b ∈ front := by
  obtain ⟨back, rfl⟩ := hfront
  cases hlast : front.getLast? with
  | none =>
    rw [hlast] at hbelow
    exact absurd habove (not_lt.mpr hbelow)
  | some a =>
    rw [hlast] at hbelow
    obtain ⟨front, rfl⟩ := List.getLast?_eq_some_iff.mp hlast
    have ha : a ∈ front ++ [a] ++ back := mem_append_left _ (mem_append_right _ (mem_singleton_self a))
    rcases mem_append.mp (h.complete b hb habove (hbelow.trans (h.within a ha).2)) with hmem | hmem
    · exact hmem
    · have hrises := (pairwise_append.mp h.rises).2.2 a (mem_append_right _ (mem_singleton_self a)) b hmem
      exact absurd hbelow (not_le.mpr hrises)

end Covers

variable {index} {log : List α}

theorem covers_take (hlog : log.Pairwise fun a b => index a < index b) (cursor count : ℕ) :
    Covers index log ((log.filter fun a => cursor < index a).take count) cursor
      (((log.filter fun a => cursor < index a).take count).getLast?.elim cursor index) := by
  set above := log.filter fun a => cursor < index a with habove
  have hrises : above.Pairwise fun a b => index a < index b := hlog.filter _
  have hsplit := hrises
  rw [← take_append_drop count above, pairwise_append] at hsplit
  have hmem {a : α} (ha : a ∈ above) : cursor < index a := of_decide_eq_true (mem_filter.mp ha).2
  refine ⟨hsplit.1, fun a ha => ⟨hmem (mem_of_mem_take ha), ?_⟩, fun a ha hlow hhigh => ?_⟩
  · cases hlast : (above.take count).getLast? with
    | none =>
      rw [List.getLast?_eq_none_iff.mp hlast] at ha
      cases ha
    | some last =>
      obtain ⟨front, hfront⟩ := List.getLast?_eq_some_iff.mp hlast
      have hpage := hsplit.1
      rw [hfront] at ha hpage
      rcases mem_append.mp ha with ha | ha
      · exact ((pairwise_append.mp hpage).2.2 a ha last (mem_singleton_self last)).le
      · rw [mem_singleton.mp ha]
        exact le_rfl
  · have ha' : a ∈ above := mem_filter.mpr ⟨ha, decide_eq_true hlow⟩
    rw [← take_append_drop count above] at ha'
    rcases mem_append.mp ha' with hfirst | hlater
    · exact hfirst
    · cases hlast : (above.take count).getLast? with
      | none =>
        rw [hlast] at hhigh
        exact absurd hlow (not_lt.mpr hhigh)
      | some last =>
        rw [hlast] at hhigh
        have hless := hsplit.2.2 last (List.mem_of_getLast? hlast) a hlater
        exact absurd hhigh (not_le.mpr hless)

theorem le_of_length_le (hlog : log.Pairwise fun a b => index a < index b) {cursor count : ℕ}
    (hlength : (log.filter fun a => cursor < index a).length ≤ count) {a : α} (ha : a ∈ log) :
    index a ≤ ((log.filter fun a => cursor < index a).take count).getLast?.elim cursor index := by
  have hcovers := covers_take hlog cursor count
  rw [take_of_length_le hlength] at hcovers ⊢
  rcases lt_or_ge cursor (index a) with habove | hbelow
  · exact (hcovers.within a (mem_filter.mpr ⟨ha, decide_eq_true habove⟩)).2
  · refine hbelow.trans ?_
    cases hlast : (log.filter fun a => cursor < index a).getLast? with
    | none => exact le_rfl
    | some last => exact (of_decide_eq_true (mem_filter.mp (List.mem_of_getLast? hlast)).2 : cursor < index last).le

end LogTail
