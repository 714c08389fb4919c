import Onecli.Gateway.Text

/-!
# Decoding the beginning of some bytes

Where `String::from_utf8_lossy` is given the first bytes of a body only, it decodes what it decodes of the whole body up
to the place of the cut. A character that the cut goes through becomes one U+FFFD more.
-/

namespace Onecli.Gateway

open CodeUnits List Option Bool Nat

theorem byteBetween_eq_true {low b high : UInt8} :
    (decide (low ≤ b) && decide (b ≤ high)) = true ↔ low.toNat ≤ b.toNat ∧ b.toNat ≤ high.toNat := by
  rw [and_eq_true, decide_eq_true_eq, decide_eq_true_eq, UInt8.le_iff_toNat_le, UInt8.le_iff_toNat_le]

theorem secondByteOk_of_toNat {first second : UInt8} (hfirst : 0xE0 ≤ first.toNat ∧ first.toNat ≤ 0xF4)
    (hsecond : 0x80 ≤ second.toNat ∧ second.toNat ≤ 0xBF) (hE0 : first.toNat = 0xE0 → 0xA0 ≤ second.toNat)
    (hED : first.toNat = 0xED → second.toNat ≤ 0x9F) (hF0 : first.toNat = 0xF0 → 0x90 ≤ second.toNat)
    (hF4 : first.toNat = 0xF4 → second.toNat ≤ 0x8F) : secondByteOk first second = true := by
  unfold secondByteOk
  simp only [← UInt8.toNat_inj]
  split
  · next h => exact byteBetween_eq_true.mpr ⟨hE0 h, hsecond.2⟩
  · next hneE0 =>
    change first.toNat ≠ 0xE0 at hneE0
    split
    · next h => exact byteBetween_eq_true.mpr ⟨hsecond.1, hED h⟩
    · split
      · next h => exact byteBetween_eq_true.mpr ⟨hF0 h, hsecond.2⟩
      · split
        · next h => exact byteBetween_eq_true.mpr ⟨hsecond.1, hF4 h⟩
        · next hneF4 =>
          change first.toNat ≠ 0xF4 at hneF4
          refine (and_eq_true _ _).mpr ⟨byteBetween_eq_true.mpr ⟨?_, ?_⟩, byteBetween_eq_true.mpr hsecond⟩
          · change 0xE1 ≤ first.toNat
            omega
          · change first.toNat ≤ 0xF3
            omega

theorem secondByteOk_of_encode {c : Char} {first second third : UInt8} {rest : List UInt8}
    (h : String.utf8EncodeChar c = first :: second :: third :: rest) :
    secondByteOk first second = true ∧ (rest ≠ [] → (0xF0 ≤ first && isContinuation third) = true) := by
  have hvalid : c.val.toNat < 0xD800 ∨ 0xDFFF < c.val.toNat ∧ c.val.toNat < 0x110000 := c.valid
  have hbyte {n : ℕ} (hn : n < 256) {b : UInt8} (hb : UInt8.ofNat n = b) : b.toNat = n := by
    rw [← hb, UInt8.toNat_ofNat', mod_eq_of_lt hn]
  unfold String.utf8EncodeChar at h
  dsimp only at h
  split_ifs at h with h1 h2 h3
  · simp at h
  · simp at h
  · obtain ⟨hfirst, h⟩ := List.cons.inj h
    obtain ⟨hsecond, h⟩ := List.cons.inj h
    obtain ⟨-, h⟩ := List.cons.inj h
    have hf := hbyte (by omega) hfirst
    have hs := hbyte (by omega) hsecond
    exact ⟨secondByteOk_of_toNat (by omega) (by omega) (by omega) (by omega) (by omega) (by omega),
      fun hrest => absurd h.symm hrest⟩
  · obtain ⟨hfirst, h⟩ := List.cons.inj h
    obtain ⟨hsecond, h⟩ := List.cons.inj h
    obtain ⟨hthird, -⟩ := List.cons.inj h
    have hf := hbyte (by omega) hfirst
    have hs := hbyte (by omega) hsecond
    have ht := hbyte (by omega) hthird
    refine ⟨secondByteOk_of_toNat (by omega) (by omega) (by omega) (by omega) (by omega) (by omega), fun _ => ?_⟩
    unfold isContinuation
    simp only [UInt8.le_iff_toNat_le, and_eq_true, decide_eq_true_eq, UInt8.reduceToNat]
    omega

theorem length_le_brokenTail {c : Char} {first : UInt8} {rest missing : List UInt8}
    (h : String.utf8EncodeChar c = first :: (rest ++ missing)) (hmiss : missing ≠ []) :
    rest.length ≤ brokenTail first rest := by
  have hlength := String.length_utf8EncodeChar c
  have hsize := c.utf8Size_le_four
  rw [h, length_cons, length_append] at hlength
  obtain ⟨lost, missing, rfl⟩ := exists_cons_of_ne_nil hmiss
  rw [length_cons] at hlength
  match rest with
  | [] => exact zero_le _
  | [second] =>
    have hsecond := (secondByteOk_of_encode h).1
    unfold brokenTail
    dsimp only
    rw [if_pos hsecond]
    split
    · exact le_succ 1
    · exact le_refl 1
  | [second, third] =>
    obtain ⟨hsecond, hthird⟩ := secondByteOk_of_encode h
    unfold brokenTail
    dsimp only
    rw [if_pos hsecond, List.head?_cons, any_some, if_pos (hthird (cons_ne_nil _ _))]
    exact le_refl 2
  | _ :: _ :: _ :: rest =>
    rw [length_cons, length_cons, length_cons] at hlength
    omega

theorem exists_of_decode {bytes : List UInt8} {c : Char} (h : bytes.toByteArray.utf8DecodeChar? 0 = some c) :
    ∃ rest, bytes = String.utf8EncodeChar c ++ rest := by
  obtain ⟨rest, hrest⟩ := ByteArray.exists_of_utf8DecodeChar?_eq_some h
  refine ⟨rest.data.toList, ?_⟩
  have hlist := congrArg (fun b => b.data.toList) hrest
  simpa [data_toByteArray] using hlist

theorem decode_append_of_broken {first : UInt8} {rest : List UInt8}
    (hnone : (first :: rest).toByteArray.utf8DecodeChar? 0 = none) (hbroken : brokenTail first rest < rest.length)
    (after : List UInt8) :
    (first :: (rest ++ after)).toByteArray.utf8DecodeChar? 0 = none ∧
      brokenTail first (rest ++ after) = brokenTail first rest := by
  constructor
  · cases hdecode : (first :: (rest ++ after)).toByteArray.utf8DecodeChar? 0 with
    | none => rfl
    | some c =>
      obtain ⟨tail, htail⟩ := exists_of_decode hdecode
      rw [← cons_append] at htail
      cases append_eq_append_iff.mp htail with
      | inl hcut =>
        obtain ⟨missing, hencode, -⟩ := hcut
        cases missing with
        | nil =>
          rw [append_nil] at hencode
          rw [← hencode, ← append_nil (String.utf8EncodeChar c), toByteArray_append] at hnone
          rw [ByteArray.utf8DecodeChar?_utf8EncodeChar_append] at hnone
          cases hnone
        | cons lost missing =>
          have hle := length_le_brokenTail hencode (cons_ne_nil lost missing)
          omega
      | inr hwhole =>
        obtain ⟨left, hfront, -⟩ := hwhole
        rw [hfront, toByteArray_append, ByteArray.utf8DecodeChar?_utf8EncodeChar_append] at hnone
        cases hnone
  · match rest with
    | [] => exact absurd hbroken (not_lt_zero _)
    | [second] =>
      unfold brokenTail at hbroken ⊢
      rw [singleton_append]
      dsimp only at hbroken ⊢
      split at hbroken
      · rw [length_singleton] at hbroken
        split at hbroken <;> omega
      · next hsecond => rw [if_neg hsecond, if_neg hsecond]
    | second :: third :: rest => rfl

theorem decodeLossy_append (p after : List UInt8) {n m : ℕ} (hn : p.length ≤ n) (hm : (p ++ after).length ≤ m) :
    ∃ q t r, decodeLossy n p = q ++ t ∧ decodeLossy m (p ++ after) = q ++ r ∧ (t = [] ∨ t = ['\uFFFD']) := by
  induction n generalizing p m with
  | zero =>
    obtain rfl := eq_nil_of_length_eq_zero (le_zero.mp hn)
    exact ⟨[], [], _, rfl, rfl, .inl rfl⟩
  | succ n ih =>
    cases p with
    | nil => exact ⟨[], [], _, rfl, rfl, .inl rfl⟩
    | cons first rest =>
      rw [length_cons] at hn
      rw [cons_append, length_cons] at hm
      cases m with
      | zero => omega
      | succ m =>
        rw [cons_append, decodeLossy, decodeLossy]
        have hrest : ∀ k, k ≤ rest.length → ∃ q t r, decodeLossy n (rest.drop k) = q ++ t ∧
            decodeLossy m ((rest ++ after).drop k) = q ++ r ∧ (t = [] ∨ t = ['\uFFFD']) := by
          intro k hk
          rw [drop_append_of_le_length hk]
          refine ih (rest.drop k) ?_ ?_
          · rw [length_drop]
            omega
          · rw [length_append] at hm ⊢
            rw [length_drop]
            omega
        cases hdecode : (first :: rest).toByteArray.utf8DecodeChar? 0 with
        | some c =>
          have hwhole : (first :: (rest ++ after)).toByteArray.utf8DecodeChar? 0 = some c := by
            rw [← cons_append, toByteArray_append]
            exact ByteArray.utf8DecodeChar?_append_eq_some hdecode _
          have hlength : c.utf8Size - 1 ≤ rest.length := by
            obtain ⟨tail, htail⟩ := exists_of_decode hdecode
            have hlength := congrArg List.length htail
            rw [length_append, String.length_utf8EncodeChar, length_cons] at hlength
            omega
          obtain ⟨q, t, r, hp, hwholeRest, ht⟩ := hrest _ hlength
          rw [hwhole]
          dsimp only
          rw [hp, hwholeRest]
          exact ⟨c :: q, t, r, rfl, rfl, ht⟩
        | none =>
          by_cases hbroken : brokenTail first rest < rest.length
          · obtain ⟨hwhole, htail⟩ := decode_append_of_broken hdecode hbroken after
            obtain ⟨q, t, r, hp, hwholeRest, ht⟩ := hrest _ (le_of_lt hbroken)
            rw [hwhole, htail]
            rw [hp, hwholeRest]
            exact ⟨'\uFFFD' :: q, t, r, rfl, rfl, ht⟩
          · -- the cut goes through this sequence, so nothing of the beginning is left
            rw [drop_eq_nil_of_le (Nat.le_of_not_lt hbroken)]
            rw [decodeLossy_nil]
            exact ⟨[], ['\uFFFD'], _, rfl, rfl, .inr rfl⟩

/-- A prefix decodes to a prefix, but for a last replacement. -/
theorem fromUtf8Lossy_of_prefix {p b : List UInt8} (h : p <+: b) :
    ∃ q t, fromUtf8Lossy p = q ++ t ∧ q <+: fromUtf8Lossy b ∧ (t = [] ∨ t = ['\uFFFD']) := by
  obtain ⟨after, rfl⟩ := h
  obtain ⟨q, t, r, hp, hb, ht⟩ := decodeLossy_append p after (Nat.le_refl _) (Nat.le_refl _)
  exact ⟨q, t, hp, ⟨r, hb.symm⟩, ht⟩

theorem fromUtf8Lossy_cut (s : Str) : fromUtf8Lossy (asBytes s ++ [0xC3]) = s ++ ['\uFFFD'] := by
  have hlength : s.length ≤ (asBytes s).length := by
    induction s with
    | nil => exact le_refl _
    | cons c s ih =>
      rw [asBytes, encode_cons, length_append, String.length_utf8EncodeChar, length_cons]
      have hpos := c.utf8Size_pos
      change s.length ≤ (encode String.utf8EncodeChar s).length at ih
      omega
  rw [fromUtf8Lossy, decodeLossy_asBytes_append s [0xC3] _ (le_refl _), length_append, length_singleton,
    Nat.sub_add_comm hlength]
  generalize (asBytes s).length - s.length = n
  have hnone : [(0xC3 : UInt8)].toByteArray.utf8DecodeChar? 0 = none := by decide
  exact congrArg (fun left => s ++ '\uFFFD' :: left) (decodeLossy_nil n)

end Onecli.Gateway
