import Mathlib.Algebra.GroupWithZero.Nat
import Mathlib.Data.List.Infix
import Mathlib.Data.List.DropRight

/-!
# Text as code units

A statement about every character of a text is decided by going through the text, never through
all characters there are. A text is a list of characters. An encoding writes every character as a nonempty block of
code units. When no block is a proper prefix or suffix of another, comparing, cutting and
splitting texts agrees with doing so on their encodings, and where a prefix and a suffix of
a text overlap does not depend on the unit in which their lengths are counted.
-/

namespace CodeUnits

open List Option

/-! ## Deciding statements about the characters of a text -/

/-- What holds of every character of a list. -/
instance decidableForallMemChars {p : Char → Prop} [DecidablePred p] (s : List Char) :
    Decidable (∀ c ∈ s, p c) := List.decidableBAll p s

/-- What holds of a character, if there is one. -/
instance decidableForallMemChar? {p : Char → Prop} [DecidablePred p] (c? : Option Char) :
    Decidable (∀ c ∈ c?, p c) := Option.decidableForallMem c?

/-- What holds of some character of a list. -/
instance decidableExistsMemChars {p : Char → Prop} [DecidablePred p] (s : List Char) :
    Decidable (∃ c ∈ s, p c) := List.decidableBEx p s

/-- Texts are compared character by character. -/
instance lawfulBEqText : LawfulBEq (List Char) := inferInstance

/-- The ASCII letters. -/
theorem isAlpha_iff (c : Char) : c.isAlpha = true ↔
    (65 ≤ c.toNat ∧ c.toNat ≤ 90) ∨ (97 ≤ c.toNat ∧ c.toNat ≤ 122) := by
  have hupper : c.isUpper = true ↔ 65 ≤ c.toNat ∧ c.toNat ≤ 90 := decide_eq_true_iff
  have hlower : c.isLower = true ↔ 97 ≤ c.toNat ∧ c.toNat ≤ 122 := by
    change (decide (97 ≤ c.toNat) && decide (c.toNat ≤ 122)) = true ↔ _
    rw [Bool.and_eq_true, decide_eq_true_iff, decide_eq_true_iff]
  change (c.isUpper || c.isLower) = true ↔ _
  rw [Bool.or_eq_true, hupper, hlower]

/-! ## Blocks -/

variable {A B : Type}

/-- The text written block by block. -/
def encode (enc : A → List B) (s : List A) : List B := s.flatMap enc

@[simp] theorem encode_nil (enc : A → List B) : encode enc [] = [] := rfl

@[simp] theorem encode_cons (enc : A → List B) (a : A) (s : List A) :
    encode enc (a :: s) = enc a ++ encode enc s := rfl

@[simp] theorem encode_append (enc : A → List B) (s t : List A) :
    encode enc (s ++ t) = encode enc s ++ encode enc t := by
  simp [encode]

/-- No block is empty, and a block can be told from its first or its last units. -/
structure SelfDelimiting (enc : A → List B) : Prop where
  block_ne_nil : ∀ a, enc a ≠ []
  read_first : ∀ a b rest rest', enc a ++ rest = enc b ++ rest' → a = b
  read_last : ∀ a b rest rest', rest ++ enc a = rest' ++ enc b → a = b

section Infix

variable {enc : A → List B} (henc : SelfDelimiting enc)

include henc in
theorem encode_eq_nil_iff (s : List A) : encode enc s = [] ↔ s = [] := by
  cases s with
  | nil => simp
  | cons a => simp [henc.block_ne_nil a]

include henc in
/-- Encoding keeps prefixes. -/
theorem encode_prefix_iff (p s : List A) : encode enc p <+: encode enc s ↔ p <+: s := by
  induction p generalizing s with
  | nil => simp
  | cons a p ih =>
    cases s with
    | nil => simp [henc.block_ne_nil a]
    | cons b s =>
      rw [encode_cons, cons_prefix_cons, ← ih]
      constructor
      · rintro ⟨rest, hrest⟩
        have hab : a = b := by
          refine henc.read_first a b (encode enc p ++ rest) (encode enc s) ?_
          simpa using hrest
        subst hab
        exact ⟨rfl, rest, by simpa using hrest⟩
      · rintro ⟨rfl, rest, hrest⟩
        exact ⟨rest, by simp [hrest]⟩

include henc in
/-- Encoding keeps suffixes. -/
theorem encode_suffix_iff (p s : List A) : encode enc p <:+ encode enc s ↔ p <:+ s := by
  induction p using List.reverseRecOn generalizing s with
  | nil => simp
  | append_singleton p a ih =>
    cases s using List.reverseRecOn with
    | nil => simp [henc.block_ne_nil a]
    | append_singleton s b =>
      rw [encode_append, encode_append, encode_cons, encode_cons, encode_nil, append_nil, append_nil]
      constructor
      · rintro ⟨rest, hrest⟩
        have hab : a = b := by
          refine henc.read_last a b (rest ++ encode enc p) (encode enc s) ?_
          simpa using hrest
        subst hab
        obtain ⟨front, hfront⟩ := (ih s).mp ⟨rest, by simpa [← append_assoc] using hrest⟩
        exact ⟨front, by simp [← hfront]⟩
      · rintro ⟨front, hfront⟩
        rw [← append_assoc] at hfront
        obtain ⟨hsame, hlast⟩ := List.append_inj' hfront rfl
        obtain rfl : a = b := by simpa using hlast
        obtain ⟨rest, hrest⟩ := (ih s).mpr ⟨front, hsame⟩
        exact ⟨rest, by rw [← append_assoc, hrest]⟩

include henc in
theorem encode_injective : Function.Injective (encode enc) := by
  intro s t hst
  have hpre : s <+: t := (encode_prefix_iff henc s t).mp (hst ▸ prefix_rfl)
  have hpost : t <+: s := (encode_prefix_iff henc t s).mp (hst ▸ prefix_rfl)
  exact hpre.eq_of_length (le_antisymm hpre.length_le hpost.length_le)

/-- No unit after the first of a block begins a block, so a reader that starts inside a block
notices it. -/
def Synchronizing (enc : A → List B) : Prop := ∀ a b u us, enc a = u :: us → ∀ v ∈ us, (enc b).head? ≠ some v

end Infix

/-- The text before the first `d` and the text after it, when `d` occurs. -/
def splitOnce [DecidableEq A] (d : A) : List A → Option (List A × List A)
  | [] => none
  | a :: s => if a = d then some ([], s) else (splitOnce d s).map fun (front, back) => (a :: front, back)

/-- A text is split at the first occurrence. -/
theorem splitOnce_eq_some_iff [DecidableEq A] (d : A) (s front back : List A) :
    splitOnce d s = some (front, back) ↔ s = front ++ d :: back ∧ d ∉ front := by
  induction s generalizing front with
  | nil => simp [splitOnce]
  | cons a s ih =>
    by_cases ha : a = d
    · subst ha
      cases front <;> simp [splitOnce]
      rintro rfl
      simp
    · cases front with
      | nil => simp [splitOnce, ha]
      | cons b front =>
        simp only [splitOnce, ha, ↓reduceIte, map_eq_some_iff, Prod.exists, Prod.mk.injEq,
          List.cons.injEq, cons_append, mem_cons, not_or]
        constructor
        · rintro ⟨front', back', hsplit, ⟨rfl, rfl⟩, rfl⟩
          obtain ⟨rfl, hnot⟩ := (ih _).mp hsplit
          exact ⟨⟨rfl, rfl⟩, Ne.symm ha, hnot⟩
        · rintro ⟨⟨rfl, rfl⟩, -, hnot⟩
          exact ⟨front, back, (ih _).mpr ⟨rfl, hnot⟩, ⟨rfl, rfl⟩, rfl⟩

/-- A text without the delimiter is not split. -/
theorem splitOnce_eq_none_iff [DecidableEq A] (d : A) (s : List A) :
    splitOnce d s = none ↔ d ∉ s := by
  induction s with
  | nil => simp [splitOnce]
  | cons a s ih =>
    by_cases ha : a = d
    · simp [splitOnce, ha]
    · simp [splitOnce, ha, ih, Ne.symm ha]

/-- A split by the first index. -/
theorem splitOnce_eq_idxOf? [DecidableEq A] (d : A) (s : List A) :
    splitOnce d s = (s.idxOf? d).map fun i => (s.take i, s.drop (i + 1)) := by
  induction s with
  | nil => rfl
  | cons a s ih =>
    rw [splitOnce, List.idxOf?_cons, ih]
    by_cases ha : a = d
    · simp [ha]
    · cases s.idxOf? d <;> simp [ha]

/-- The unit `u` is the whole block of `d` and occurs in no other block. -/
structure IsDelimiter (enc : A → List B) (d : A) (u : B) : Prop where
  block_eq : enc d = [u]
  not_mem_other : ∀ a, a ≠ d → u ∉ enc a

section Delimiter

variable {enc : A → List B} {d : A} {u : B} (hdelim : IsDelimiter enc d u)

include hdelim in
/-- A delimiter's unit marks it. -/
theorem mem_encode_iff (s : List A) : u ∈ encode enc s ↔ d ∈ s := by
  induction s with
  | nil => simp
  | cons a s ih =>
    rw [encode_cons, mem_append, ih]
    by_cases ha : a = d
    · subst ha
      simp [hdelim.block_eq]
    · simp [hdelim.not_mem_other a ha, Ne.symm ha]

include hdelim in
theorem count_encode [DecidableEq A] [DecidableEq B] (s : List A) :
    (encode enc s).count u = s.count d := by
  induction s with
  | nil => rfl
  | cons a s ih =>
    rw [encode_cons, count_append, ih, Nat.add_comm]
    by_cases ha : a = d
    · subst ha
      simp [hdelim.block_eq]
    · simp [count_eq_zero_of_not_mem (hdelim.not_mem_other a ha), ha]

include hdelim in
theorem takeWhile_encode [DecidableEq A] [DecidableEq B] (s : List A) :
    (encode enc s).takeWhile (· ≠ u) = encode enc (s.takeWhile (· ≠ d)) := by
  induction s with
  | nil => rfl
  | cons a s ih =>
    by_cases ha : a = d
    · subst ha
      simp [hdelim.block_eq]
    · have hall : ∀ b ∈ enc a, (decide (b ≠ u)) = true := by
        intro b hb
        simp only [ne_eq, decide_not, Bool.not_eq_eq_eq_not, Bool.not_true, decide_eq_false_iff_not]
        rintro rfl
        exact hdelim.not_mem_other a ha hb
      rw [encode_cons, takeWhile_append_of_pos hall, ih]
      simp [ha]

include hdelim in
theorem rdropWhile_encode [DecidableEq A] [DecidableEq B] (hblock : ∀ a, enc a ≠ []) (s : List A) :
    (encode enc s).rdropWhile (· == u) = encode enc (s.rdropWhile (· == d)) := by
  induction s using List.reverseRecOn with
  | nil => rfl
  | append_singleton s a ih =>
    rw [encode_append, encode_cons, encode_nil, append_nil]
    by_cases ha : a = d
    · subst ha
      rw [hdelim.block_eq, rdropWhile_concat, rdropWhile_concat, if_pos (beq_self_eq_true u),
        if_pos (beq_self_eq_true a), ih]
    · have hlast : (enc a).getLast (hblock a) ≠ u := fun h =>
        hdelim.not_mem_other a ha (h ▸ getLast_mem (hblock a))
      rw [← dropLast_append_getLast (hblock a), ← append_assoc, rdropWhile_concat_neg _ _ _ (by simpa using hlast),
        rdropWhile_concat_neg _ _ _ (by simpa using ha), append_assoc,
        dropLast_append_getLast, encode_append, encode_cons, encode_nil, append_nil]

theorem splitOn_append_of_not_mem [DecidableEq B] (block : List B) (hblock : u ∉ block)
    (rest : List B) : (block ++ rest).splitOn u = (rest.splitOn u).modifyHead (block ++ ·) := by
  induction block with
  | nil =>
    rw [nil_append]
    cases rest.splitOn u <;> rfl
  | cons b block ih =>
    have hb : b ≠ u := fun h => hblock (h ▸ mem_cons_self)
    rw [cons_append, splitOn_cons_eq_if_modifyHead, ih fun h => hblock (mem_cons_of_mem _ h)]
    cases rest.splitOn u <;> simp [hb]

/-- A piece has no delimiter. -/
theorem mem_splitOn [DecidableEq A] {d : A} {s piece : List A} (h : piece ∈ s.splitOn d) :
    piece ⊆ s ∧ d ∉ piece := by
  induction s generalizing piece with
  | nil =>
    rw [splitOn_nil, mem_singleton] at h
    subst h
    exact ⟨List.Subset.refl _, not_mem_nil⟩
  | cons c s ih =>
    rw [splitOn_cons_eq_if_modifyHead] at h
    split at h
    · rcases mem_cons.mp h with rfl | hpiece
      · exact ⟨nil_subset _, not_mem_nil⟩
      · exact ⟨subset_cons_of_subset c (ih hpiece).1, (ih hpiece).2⟩
    · next hc =>
      obtain ⟨first, pieces, hsplit⟩ := exists_cons_of_ne_nil (splitOn_ne_nil d s)
      rw [hsplit] at h
      rcases mem_cons.mp h with rfl | hpiece
      · obtain ⟨hsubset, hfirst⟩ := ih (hsplit ▸ mem_cons_self)
        refine ⟨cons_subset_cons c hsubset, fun hmem => ?_⟩
        rcases mem_cons.mp hmem with heq | hmem
        · exact hc (beq_iff_eq.mpr heq.symm)
        · exact hfirst hmem
      · obtain ⟨hsubset, hrest⟩ := ih (hsplit ▸ mem_cons_of_mem first hpiece)
        exact ⟨subset_cons_of_subset c hsubset, hrest⟩

include hdelim in
/-- Splitting goes through the encoding. -/
theorem splitOn_encode [DecidableEq A] [DecidableEq B] (s : List A) :
    (encode enc s).splitOn u = (s.splitOn d).map (encode enc) := by
  induction s with
  | nil => simp
  | cons a s ih =>
    rw [splitOn_cons_eq_if_modifyHead]
    by_cases ha : a = d
    · subst ha
      simp [hdelim.block_eq, splitOn_cons_eq_if_modifyHead, ih]
    · rw [encode_cons, splitOn_append_of_not_mem _ (hdelim.not_mem_other a ha), ih]
      cases s.splitOn d <;> simp [ha]

include hdelim in
theorem splitOnce_encode [DecidableEq A] [DecidableEq B] (s : List A) :
    splitOnce u (encode enc s) = (splitOnce d s).map fun (front, back) => (encode enc front, encode enc back) := by
  match hs : splitOnce d s with
  | none =>
    rw [splitOnce_eq_none_iff] at hs
    rw [map_none, splitOnce_eq_none_iff, mem_encode_iff hdelim]
    exact hs
  | some (front, back) =>
    obtain ⟨rfl, hnot⟩ := (splitOnce_eq_some_iff d s front back).mp hs
    rw [map_some, splitOnce_eq_some_iff, mem_encode_iff hdelim]
    exact ⟨by simp [hdelim.block_eq], hnot⟩

end Delimiter

section Width

variable (size : A → ℕ)

/-- The number of units a text takes when each character takes `size` of them. -/
def width (s : List A) : ℕ := (s.map size).sum

@[simp] theorem width_nil : width size [] = 0 := rfl

@[simp] theorem width_cons (a : A) (s : List A) : width size (a :: s) = size a + width size s := by
  simp [width]

@[simp] theorem width_append (s t : List A) : width size (s ++ t) = width size s + width size t := by
  simp [width]

/-- The length of an encoding. -/
theorem length_encode (enc : A → List B) (s : List A) :
    (encode enc s).length = width (fun a => (enc a).length) s := by
  induction s with
  | nil => rfl
  | cons a s ih => simp [ih]

variable {size} (hsize : ∀ a, 0 < size a)

include hsize in
/-- Only the empty text has no width. -/
theorem width_pos_iff (s : List A) : 0 < width size s ↔ s ≠ [] := by
  cases s with
  | nil => simp
  | cons a => simpa using Nat.add_pos_left (hsize a) _

/-- The first `n` units of a text, when they end between two characters. -/
def sliceTo (size : A → ℕ) : List A → ℕ → Option (List A)
  | _, 0 => some []
  | [], _ + 1 => none
  | a :: s, n + 1 => if size a ≤ n + 1 then (sliceTo size s (n + 1 - size a)).map (List.cons a) else none

/-- What follows the first `n` units of a text, when they end between two characters. -/
def sliceFrom (size : A → ℕ) : List A → ℕ → Option (List A)
  | s, 0 => some s
  | [], _ + 1 => none
  | a :: s, n + 1 => if size a ≤ n + 1 then sliceFrom size s (n + 1 - size a) else none

include hsize in
/-- A slice up to `n` is the beginning of the text that is `n` units wide. -/
theorem sliceTo_eq_some_iff (s : List A) (n : ℕ) (p : List A) :
    sliceTo size s n = some p ↔ p <+: s ∧ width size p = n := by
  induction s generalizing n p with
  | nil =>
    cases n with
    | zero => cases p <;> simp [sliceTo]
    | succ =>
      simp only [sliceTo, reduceCtorEq, prefix_nil, false_iff, not_and]
      rintro rfl
      simp
  | cons a s ih =>
    cases n with
    | zero =>
      cases p with
      | nil => simp [sliceTo]
      | cons b =>
        have := hsize b
        simp [sliceTo]
        omega
    | succ =>
      cases p with
      | nil => simp [sliceTo]
      | cons b p =>
        simp only [sliceTo, ite_none_right_eq_some, map_eq_some_iff, List.cons.injEq, width_cons, cons_prefix_cons]
        constructor
        · rintro ⟨hle, q, hq, rfl, rfl⟩
          obtain ⟨hbegins, hwidth⟩ := (ih _ _).mp hq
          exact ⟨⟨rfl, hbegins⟩, by omega⟩
        · rintro ⟨⟨rfl, hbegins⟩, hwidth⟩
          exact ⟨by omega, p, (ih _ _).mpr ⟨hbegins, by omega⟩, rfl, rfl⟩

include hsize in
theorem sliceFrom_eq_some_iff (s : List A) (n : ℕ) (r : List A) :
    sliceFrom size s n = some r ↔ ∃ p, p ++ r = s ∧ width size p = n := by
  induction s generalizing n with
  | nil =>
    cases n with
    | zero => simp [sliceFrom, eq_comm]
    | succ =>
      simp only [sliceFrom, reduceCtorEq, append_eq_nil_iff, false_iff, not_exists, not_and, and_imp]
      rintro p rfl -
      simp
  | cons a s ih =>
    cases n with
    | zero =>
      simp only [sliceFrom, Option.some.injEq]
      constructor
      · rintro rfl
        exact ⟨[], rfl, rfl⟩
      · rintro ⟨p, hp, hwidth⟩
        have hempty : p = [] := by
          by_contra hne
          have := (width_pos_iff hsize p).mpr hne
          omega
        subst hempty
        exact hp.symm
    | succ =>
      simp only [sliceFrom, ite_none_right_eq_some, ih]
      constructor
      · rintro ⟨hle, p, rfl, hwidth⟩
        exact ⟨a :: p, rfl, by simp [hwidth]; omega⟩
      · rintro ⟨p, hp, hwidth⟩
        cases p with
        | nil => simp at hwidth
        | cons b p =>
          cases hp
          rw [width_cons] at hwidth
          exact ⟨by omega, p, rfl, by omega⟩

theorem prefix_suffix_split {s p q : List A} (hp : p <+: s) (hq : q <:+ s) :
    (∃ middle, s = p ++ middle ++ q) ∨
      ∃ front overlap back, overlap ≠ [] ∧ p = front ++ overlap ∧ q = overlap ++ back ∧
        s = front ++ overlap ++ back := by
  obtain ⟨rest, rfl⟩ := hp
  obtain ⟨front, hfront⟩ := hq
  rcases append_eq_append_iff.mp hfront with ⟨overlap, hoverlap, hback⟩ | ⟨middle, hmiddle, hrest⟩
  · by_cases hempty : overlap = []
    · exact Or.inl ⟨[], by simp_all⟩
    · exact Or.inr ⟨front, overlap, rest, hempty, hoverlap, hback, by simp [hoverlap]⟩
  · exact Or.inl ⟨middle, by simp [hrest]⟩

include hsize in
theorem width_add_le_iff {s p q : List A} (hp : p <+: s) (hq : q <:+ s) :
    width size p + width size q ≤ width size s ↔ p.length + q.length ≤ s.length := by
  rcases prefix_suffix_split hp hq with ⟨middle, rfl⟩ | ⟨front, overlap, back, hne, rfl, rfl, rfl⟩
  · simp only [width_append, length_append]
    omega
  · have hwidth := (width_pos_iff hsize overlap).mpr hne
    have hlength := length_pos_iff.mpr hne
    simp only [width_append, length_append]
    omega

include hsize in
theorem width_add_lt_iff {s p q : List A} (hp : p <+: s) (hq : q <:+ s) :
    width size p + width size q < width size s ↔ p.length + q.length < s.length := by
  rcases prefix_suffix_split hp hq with ⟨middle, rfl⟩ | ⟨front, overlap, back, hne, rfl, rfl, rfl⟩
  · have hwidth := width_pos_iff hsize middle
    have hlength : 0 < middle.length ↔ middle ≠ [] := length_pos_iff
    simp only [width_append, length_append]
    by_cases hempty : middle = []
    · simp [hempty]
    · have := hwidth.mpr hempty
      have := hlength.mpr hempty
      omega
  · have hlength := length_pos_iff.mpr hne
    simp only [width_append, length_append]
    omega

end Width

/-! ## Characters an encoding spells literally

Some characters are written as one unit that occurs in no other block. A program that
compares units with those characters only reads the same text through the encoding as it
reads without it: every unit of a block answers as the character of the block does.
-/

variable {A B : Type}

/-- Every character of `special` is a single unit of its own. -/
structure Spells (enc : A → List B) (unit : A → B) (special : A → Prop) : Prop where
  block_ne_nil : ∀ a, enc a ≠ []
  delimiter : ∀ d, special d → IsDelimiter enc d (unit d)

variable {enc : A → List B} {unit : A → B} {special : A → Prop}

section

variable (h : Spells enc unit special)
include h

/-- A special unit is of its own character. -/
theorem Spells.unit_eq_iff {a d : A} {u : B} (hu : u ∈ enc a) (hd : special d) : u = unit d ↔ a = d := by
  constructor
  · rintro rfl
    by_contra hne
    exact (h.delimiter d hd).not_mem_other a hne hu
  · rintro rfl
    rw [(h.delimiter a hd).block_eq] at hu
    exact mem_singleton.mp hu

/-- A special character is one unit. -/
theorem Spells.block_eq {d : A} (hd : special d) : enc d = [unit d] := (h.delimiter d hd).block_eq

/-- A block of two or more units belongs to no special character, and no unit of it is one of
a special character. -/
theorem Spells.ne_unit_of_long {a : A} {u v : B} {us : List B} (hblock : enc a = u :: v :: us) {d : A}
    (hd : special d) : ∀ w ∈ enc a, w ≠ unit d := by
  intro w hw hwd
  rw [(h.unit_eq_iff hw hd).mp hwd, h.block_eq hd] at hblock
  cases hblock

theorem Spells.encode_eq_map_iff {word : List A} (hword : ∀ d ∈ word, special d) (s : List A) : encode enc s =
    word.map unit ↔ s = word := by
  induction word generalizing s with
  | nil =>
    cases s with
    | nil => simp
    | cons a => simp [h.block_ne_nil a]
  | cons d word ih =>
    obtain ⟨hd, hrest⟩ := forall_mem_cons.mp hword
    cases s with
    | nil => simp
    | cons a s =>
      rw [map_cons, encode_cons]
      constructor
      · intro heq
        obtain ⟨u, us, hblock⟩ := exists_cons_of_ne_nil (h.block_ne_nil a)
        rw [hblock, cons_append, List.cons.injEq] at heq
        obtain rfl : a = d := (h.unit_eq_iff (by simp [hblock]) hd).mp heq.1
        have hus : us = [] := by
          rw [h.block_eq hd] at hblock
          exact (List.cons.inj hblock).2.symm
        rw [hus, nil_append, ih hrest] at heq
        rw [heq.2]
      · intro heq
        obtain ⟨rfl, rfl⟩ := List.cons.inj heq
        rw [h.block_eq hd, (ih hrest s).mpr rfl]
        rfl

theorem Spells.map_prefix_encode_iff {word : List A} (hword : ∀ d ∈ word, special d) (s : List A) : word.map unit <+:
    encode enc s ↔ word <+: s := by
  induction word generalizing s with
  | nil => simp
  | cons d word ih =>
    obtain ⟨hd, hrest⟩ := forall_mem_cons.mp hword
    cases s with
    | nil => simp
    | cons a =>
      rw [map_cons, encode_cons, cons_prefix_cons, ← ih hrest]
      obtain ⟨u, us, hblock⟩ := exists_cons_of_ne_nil (h.block_ne_nil a)
      have hmem : u ∈ enc a := by simp [hblock]
      have hfirst : unit d = u ↔ d = a := by
        rw [eq_comm, h.unit_eq_iff hmem hd, eq_comm]
      rw [hblock, cons_append, cons_prefix_cons, hfirst]
      refine and_congr_right fun had => ?_
      rw [← had, h.block_eq hd] at hblock
      rw [(List.cons.inj hblock).2.symm, nil_append]

end

section Predicates

variable {p : A → Bool} {q : B → Bool} (hne : ∀ a, enc a ≠ [])
  (hpq : ∀ a, ∀ u ∈ enc a, q u = p a)

include hne hpq in
/-- Taking while a predicate holds commutes with the encoding, when all units of a block
answer alike. -/
theorem takeWhile_encode_blockwise (s : List A) :
    (encode enc s).takeWhile q = encode enc (s.takeWhile p) := by
  induction s with
  | nil => rfl
  | cons a s ih =>
    cases hp : p a with
    | true =>
      rw [encode_cons, takeWhile_append_of_pos fun u hu => (hpq a u hu).trans hp, ih,
        takeWhile_cons_of_pos hp, encode_cons]
    | false =>
      obtain ⟨u, us, hblock⟩ := exists_cons_of_ne_nil (hne a)
      have hu : q u = false := (hpq a u (by simp [hblock])).trans hp
      rw [encode_cons, hblock, cons_append, takeWhile_cons_of_neg (by simp [hu]),
        takeWhile_cons_of_neg (by simp [hp]), encode_nil]

include hne hpq in
theorem dropWhile_encode_blockwise (s : List A) :
    (encode enc s).dropWhile q = encode enc (s.dropWhile p) := by
  refine append_cancel_left (?_ : (encode enc s).takeWhile q ++ _ = (encode enc s).takeWhile q ++ _)
  rw [takeWhile_append_dropWhile, takeWhile_encode_blockwise hne hpq, ← encode_append, takeWhile_append_dropWhile]

end Predicates

end CodeUnits
