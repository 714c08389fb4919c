import Onecli.Proxy.Address

/-!
# The destination allowlist

`EgressPolicy` of `proxy/src/egress.rs`. An entry's address is replaced by the IPv4 address it
carries, and its prefix length is reduced by 96 when it is above 32, whatever the form that
carries the address and whether or not there was one.
-/

namespace Onecli.Proxy

open CodeUnits List Option
open Gateway (Str toAsciiLowercase trim)

/-- `AllowEntry`. -/
inductive AllowEntry where
  | net (addr : IpAddr) (len : ℕ)
  | host (name : Str)
  | hostSuffix (suffix : Str)
  deriving DecidableEq

/-- `normalize_host`. -/
def normalizeHost (host : Str) : Str :=
  toAsciiLowercase ((((trim host).dropWhile (· == '[')).rdropWhile (· == ']')).rdropWhile (· == '.'))

/-- `str::parse::<u8>`. -/
def parseU8 (s : Str) : Option ℕ :=
  let digits : Str := match s with
    | '+' :: d :: rest => d :: rest
    | _ => s
  let value : ℕ := digits.foldl (fun n c => n * 10 + (c.toNat - '0'.toNat)) 0
  if digits.isEmpty || !digits.all Char.isDigit || decide (255 < value) then none else some value

/-- The address and the prefix length of a CIDR as written. -/
def cidr (addr len : Str) : Option (IpAddr × ℕ) := do
  let ip ← parseIp (normalizeHost addr)
  let len ← parseU8 (trim len)
  return (ip, len)

/-- The network that a CIDR entry is read as. -/
def cidrEntry (ip : IpAddr) (len : ℕ) : Option AllowEntry :=
  let addr := canonical ip
  let len :=
    if addr.width = 32 ∧ 32 < len then if 96 ≤ len then some (len - 96) else none
    else some len
  len.bind fun len => if len ≤ addr.width then some (.net addr len) else none

/-- `parse_entry`. -/
def parseEntry (entry : Str) : Option AllowEntry :=
  match splitOnce '/' entry with
  | some (addr, len) => (cidr addr len).bind fun (ip, len) => cidrEntry ip len
  | none =>
    let host := normalizeHost entry
    match parseIp host with
    | some ip => some (.net (canonical ip) (canonical ip).width)
    | none =>
      match host with
      | '*' :: '.' :: suffix =>
        if !suffix.isEmpty && !suffix.contains '*' then some (.hostSuffix ('.' :: suffix)) else none
      | _ =>
        if !host.isEmpty && host.all fun c => c.isAlphanum || c == '-' || c == '.' || c == '_' then
          some (.host host)
        else none

/-- The entries of the comma-separated list. -/
def entriesOf (raw : Str) : List Str := ((raw.splitOn ',').map trim).filter (!·.isEmpty)

/-- `EgressPolicy::parse`, the policy alone. -/
def parsePolicy (raw : Str) : List AllowEntry := (entriesOf raw).filterMap parseEntry

/-- `host_allowed`. -/
def hostAllowed (allow : List AllowEntry) (host : Str) : Bool :=
  let host := normalizeHost host
  allow.any fun
    | .host h => h == host
    | .hostSuffix s => s.isSuffixOf host && decide (s.length < host.length)
    | .net _ _ => false

/-- What one network entry answers. -/
def AllowEntry.allows (ip : IpAddr) (exactOnly : Bool) : AllowEntry → Bool
  | .net (.v4 n) len =>
    match ip with
    | .v4 ip => (!exactOnly || len == 32) && inNet ip n len
    | .v6 _ => false
  | .net (.v6 n) len =>
    match ip with
    | .v6 ip => (!exactOnly || len == 128) && inNet ip n len
    | .v4 _ => false
  | _ => false

/-- `net_allows`. -/
def netAllows (allow : List AllowEntry) (ip : IpAddr) (exactOnly : Bool) : Bool :=
  allow.any (AllowEntry.allows ip exactOnly)

/-- `permits`. -/
def permits (allow : List AllowEntry) (host : Str) (ip : IpAddr) : Bool :=
  let ip := canonical ip
  match classify ip with
  | none => true
  | some .internal => hostAllowed allow host || netAllows allow ip false
  | some .metadata => netAllows allow ip true

/-! ## What the list says -/

/-- The network that an entry names as written: a CIDR whose length its own family has, or one
address. -/
def written (entry : Str) : Option (IpAddr × ℕ) :=
  match splitOnce '/' entry with
  | some (addr, len) => (cidr addr len).filter fun (ip, len) => len ≤ ip.width
  | none => (parseIp (normalizeHost entry)).map fun ip => (ip, ip.width)

/-- An address lies in a network of its family. -/
def Holds : IpAddr × ℕ → IpAddr → Prop
  | (.v4 net, len), .v4 ip => inNet ip net len = true
  | (.v6 net, len), .v6 ip => inNet ip net len = true
  | _, _ => False

/-- Some spelling of the address lies in a network of the list as written. -/
def ListedNet (raw : Str) (ip : IpAddr) : Prop :=
  ∃ entry ∈ entriesOf raw, ∃ net, written entry = some net ∧ ∃ x, canonical x = canonical ip ∧ Holds net x

/-- An entry names exactly this address. -/
def NamedExactly (raw : Str) (ip : IpAddr) : Prop :=
  ∃ entry ∈ entriesOf raw, ∃ net, written entry = some net ∧ net.2 = net.1.width ∧ canonical net.1 = canonical ip

/-- A host entry of the list matches the host: by name, or by a suffix that leaves a label. -/
def HostListed (raw host : Str) : Prop :=
  ∃ entry ∈ entriesOf raw, parseEntry entry = some (.host (normalizeHost host)) ∨
    ∃ suffix label, parseEntry entry = some (.hostSuffix suffix) ∧ label ≠ [] ∧ normalizeHost host = label ++ suffix

/-- What is permitted is public, or internal and listed, or a metadata address that an entry names. -/
def Sound (raw host : Str) (ip : IpAddr) : Prop :=
  permits (parsePolicy raw) host ip = true → match classify ip with
    | none => True
    | some .internal => HostListed raw host ∨ ListedNet raw ip
    | some .metadata => NamedExactly raw ip

/-- A restricted address is listed as its class asks for. -/
def Listed (raw : Str) (y : BitVec 32) : Prop :=
  (classifyV4 y = some .internal ∧ ListedNet raw (.v4 y)) ∨ (classifyV4 y = some .metadata ∧ NamedExactly raw (.v4 y))

/-- The address is one that a network of this length opens. -/
def Opens (y net : BitVec 32) (len : ℕ) : Prop :=
  inNet y net len = true ∧ (classifyV4 y = some .internal ∨ (len = 32 ∧ classifyV4 y = some .metadata))

/-- What the rewriting adds to a CIDR entry: an IPv4 network with a length of IPv6, a 6to4 network
below its own address, the two lowest addresses of a compatible network, and the metadata address
of an IPv6 network of length 32. -/
def Adds (ip : IpAddr) (len : ℕ) (y : BitVec 32) : Prop :=
  match ip with
  | .v4 a => 96 ≤ len ∧ len ≤ 128 ∧ Opens y a (len - 96)
  | .v6 a => ∃ b, embeddedV4 a = some b ∧
      ((len = 32 ∧ y = b ∧ classifyV4 b = some .metadata) ∨
        (96 ≤ len ∧ len ≤ 128 ∧ inNet y b (len - 96) = true ∧ classifyV4 y = some .internal ∧
          ((segment a 0 = 0x2002 ∧ y ≠ b) ∨ (segments a 6 = [0, 0, 0, 0, 0, 0] ∧ y.toNat < 2))))

/-! ## Embedded addresses -/

variable {a : BitVec 128}

theorem embeddedV4_cases {b : BitVec 32} (h : embeddedV4 a = some b) :
    (segments a 5 = [0, 0, 0, 0, 0] ∧ segment a 5 = 0xffff ∧ b = segment a 6 ++ segment a 7) ∨
      (segments a 6 = [0, 0, 0, 0, 0, 0] ∧ b = segment a 6 ++ segment a 7) ∨
      (segments a 6 = [0x64, 0xff9b, 0, 0, 0, 0] ∧ b = segment a 6 ++ segment a 7) ∨
      (segment a 0 = 0x2002 ∧ b = segment a 1 ++ segment a 2) := by
  unfold embeddedV4 at h
  split_ifs at h with hmapped hcompatible hnat hsix
  · exact .inl ⟨hmapped.1, hmapped.2, (some.inj h).symm⟩
  · exact .inr (.inl ⟨hcompatible.1, (some.inj h).symm⟩)
  · exact .inr (.inr (.inl ⟨hnat, (some.inj h).symm⟩))
  · exact .inr (.inr (.inr ⟨hsix, (some.inj h).symm⟩))

theorem embeddedV4_mapped (h : segments a 5 = [0, 0, 0, 0, 0]) (h' : segment a 5 = 0xffff) :
    embeddedV4 a = some (segment a 6 ++ segment a 7) := if_pos ⟨h, h'⟩

theorem embeddedV4_nat64 (h : segments a 6 = [0x64, 0xff9b, 0, 0, 0, 0]) :
    embeddedV4 a = some (segment a 6 ++ segment a 7) := by
  have hfirst : segment a 0 = 0x64 := (List.cons.inj h).1
  have hmapped : segments a 5 ≠ [0, 0, 0, 0, 0] := fun h' => by
    rw [(List.cons.inj h').1] at hfirst
    exact absurd hfirst (by decide)
  have hcompatible : segments a 6 ≠ [0, 0, 0, 0, 0, 0] := by
    rw [h]
    decide
  rw [embeddedV4, if_neg (fun h' => hmapped h'.1), if_neg (fun h' => hcompatible h'.1), if_pos h]

theorem embeddedV4_sixToFour (h : segment a 0 = 0x2002) : embeddedV4 a = some (segment a 1 ++ segment a 2) := by
  have hne {n : ℕ} {s : BitVec 16} {rest : List (BitVec 16)} (hs : s ≠ 0x2002) :
      segments a (n + 1) ≠ s :: rest := by
    intro h'
    rw [segments, range_succ_eq_map, map_cons] at h'
    exact hs ((List.cons.inj h').1.symm.trans h)
  rw [embeddedV4, if_neg (fun h' => hne (by decide) h'.1), if_neg (fun h' => hne (by decide) h'.1),
    if_neg (hne (by decide)), if_pos h]

theorem embeddedV4_compatible (h : segments a 6 = [0, 0, 0, 0, 0, 0]) (hlow : segment a 6 ≠ 0 ∨ 1 < segment a 7) :
    embeddedV4 a = some (segment a 6 ++ segment a 7) := by
  have hfifth : segment a 5 = 0 := by
    have hlast := congrArg List.getLast? h
    simpa [segments, range_succ] using hlast
  have hmapped : segment a 5 ≠ 0xffff := by
    rw [hfifth]
    decide
  rw [embeddedV4, if_neg (fun h' => hmapped h'.2), if_pos ⟨h, hlow⟩]

/-- An address has one canonical form. -/
theorem canonical_canonical (ip : IpAddr) : canonical (canonical ip) = canonical ip := by
  cases ip with
  | v4 => rfl
  | v6 a =>
    cases h : embeddedV4 a with
    | none | some b => simp [canonical, h]

section Spellings

theorem tail_append (hi : BitVec 96) (y : BitVec 32) :
    segment (hi ++ y) 6 ++ segment (hi ++ y) 7 = y := by
  refine BitVec.eq_of_getLsbD_eq fun j hj => ?_
  rw [getLsbD_pair _ (by decide) hj, BitVec.getLsbD_append, if_pos (by omega)]
  congr 1
  omega

variable {y : BitVec 32} {a : BitVec 128}

theorem segment_append {hi : BitVec 96} {i : ℕ} (h : i < 6) :
    segment (hi ++ y) i = hi.extractLsb' (80 - 16 * i) 16 := by
  refine BitVec.eq_of_getLsbD_eq fun j hj => ?_
  rw [getLsbD_segment, decide_eq_true hj, Bool.true_and, BitVec.getLsbD_append, if_neg (by omega),
    BitVec.getLsbD_extractLsb', decide_eq_true hj, Bool.true_and]
  congr 1
  omega

theorem segments_append {hi : BitVec 96} {n : ℕ} (h : n ≤ 6) :
    segments (hi ++ y) n = (List.range n).map fun i => hi.extractLsb' (80 - 16 * i) 16 :=
  map_congr_left fun i hi => segment_append (by
    have hlt := mem_range.mp hi
    omega)

/-- An address with another IPv4 address at its end. -/
def withTail (a : BitVec 128) (y : BitVec 32) : BitVec 128 := a.extractLsb' 32 96 ++ y

theorem segment_withTail (a : BitVec 128) (y : BitVec 32) {i : ℕ} (h : i < 6) :
    segment (withTail a y) i = segment a i := by
  rw [withTail, segment_append h]
  refine BitVec.eq_of_getLsbD_eq fun j hj => ?_
  rw [BitVec.getLsbD_extractLsb', BitVec.getLsbD_extractLsb', getLsbD_segment, decide_eq_true hj,
    decide_eq_true (by omega), Bool.true_and, Bool.true_and, Bool.true_and]
  congr 1
  omega

theorem segments_withTail (a : BitVec 128) (y : BitVec 32) {n : ℕ} (h : n ≤ 6) :
    segments (withTail a y) n = segments a n :=
  map_congr_left fun i hi => segment_withTail a y (by
    have hlt := mem_range.mp hi
    omega)

theorem inNet_withTail {len : ℕ} (hlow : 96 ≤ len) (hhigh : len ≤ 128)
    (h : inNet y (segment a 6 ++ segment a 7) (len - 96) = true) : inNet (withTail a y) a len = true := by
  rw [inNet_iff (by omega)] at h
  rw [inNet_iff hhigh]
  intro i hi hle
  rw [withTail, BitVec.getLsbD_append]
  split
  · next hi32 =>
    rw [h i hi32 (by omega), getLsbD_pair a (by decide) hi32]
    congr 1
    omega
  · next hi32 =>
    rw [BitVec.getLsbD_extractLsb', decide_eq_true (by omega), Bool.true_and]
    congr 1
    omega

theorem getLsbD_eq_of_segment {a x : BitVec 128} {k i : ℕ} (h : segment x k = segment a k)
    (hlow : 112 - 16 * k ≤ i) (hhigh : i < 112 - 16 * k + 16) : x.getLsbD i = a.getLsbD i := by
  have hbit := congrArg (fun s => BitVec.getLsbD s (i - (112 - 16 * k))) h
  simp only [getLsbD_segment] at hbit
  rw [decide_eq_true (by omega), Bool.true_and, Bool.true_and, Nat.add_sub_cancel' hlow] at hbit
  exact hbit

/-- The 6to4 spelling of an IPv4 address. -/
def sixToFour (y : BitVec 32) : BitVec 128 := (0x2002#16 ++ y) ++ 0#80

theorem getLsbD_sixToFour (y : BitVec 32) {j : ℕ} (h : 80 ≤ j) :
    (sixToFour y).getLsbD j = if j < 112 then y.getLsbD (j - 80) else (0x2002#16).getLsbD (j - 112) := by
  rw [sixToFour, BitVec.getLsbD_append, if_neg (by omega), BitVec.getLsbD_append]
  by_cases hj : j < 112
  · rw [if_pos (by omega), if_pos hj]
  · rw [if_neg (by omega), if_neg hj]
    congr 1

theorem embeddedV4_of_sixToFour (y : BitVec 32) : embeddedV4 (sixToFour y) = some y := by
  have hfirst : segment (sixToFour y) 0 = 0x2002 := by
    refine BitVec.eq_of_getLsbD_eq fun j hj => ?_
    rw [getLsbD_segment, decide_eq_true hj, Bool.true_and, getLsbD_sixToFour y (by omega), if_neg (by omega)]
    congr 1
    omega
  rw [embeddedV4_sixToFour hfirst]
  congr 1
  refine BitVec.eq_of_getLsbD_eq fun j hj => ?_
  rw [getLsbD_pair _ (by decide) hj, getLsbD_sixToFour y (by omega), if_pos (by omega)]
  congr 1
  omega

theorem exists_spelling {b y : BitVec 32} {len : ℕ} (hembed : embeddedV4 a = some b) (hlen : len ≤ 32)
    (h : inNet y b len = true) : ∃ x, embeddedV4 x = some y ∧ inNet x a len = true := by
  have hsame {x : BitVec 128} (h0 : segment x 0 = segment a 0) (h1 : segment x 1 = segment a 1) :
      inNet x a len = true := by
    rw [inNet_iff (by omega)]
    intro i hi hle
    by_cases hfirst : 112 ≤ i
    · exact getLsbD_eq_of_segment h0 (by omega) (by omega)
    · exact getLsbD_eq_of_segment h1 (by omega) (by omega)
  have hmapped (hzero : segment a 0 = 0 ∧ segment a 1 = 0) :
      ∃ x, embeddedV4 x = some y ∧ inNet x a len = true := by
    refine ⟨0xffff#96 ++ y, ?_, hsame ?_ ?_⟩
    · rw [embeddedV4_mapped, tail_append]
      · rw [segments_append (by decide)]
        decide
      · rw [segment_append (by decide)]
        decide
    · rw [segment_append (by decide), hzero.1]
      decide
    · rw [segment_append (by decide), hzero.2]
      decide
  rcases embeddedV4_cases hembed with ⟨hseg, -, -⟩ | ⟨hseg, -⟩ | ⟨hseg, -⟩ | ⟨hseg, rfl⟩
  · exact hmapped ⟨(List.cons.inj hseg).1, (List.cons.inj (List.cons.inj hseg).2).1⟩
  · exact hmapped ⟨(List.cons.inj hseg).1, (List.cons.inj (List.cons.inj hseg).2).1⟩
  · refine ⟨0x0064ff9b0000000000000000#96 ++ y, ?_, hsame ?_ ?_⟩
    · rw [embeddedV4_nat64, tail_append]
      rw [segments_append (by decide)]
      decide
    · rw [segment_append (by decide), (List.cons.inj hseg).1]
      decide
    · rw [segment_append (by decide), (List.cons.inj (List.cons.inj hseg).2).1]
      decide
  · refine ⟨sixToFour y, embeddedV4_of_sixToFour y, ?_⟩
    rw [inNet_iff (by omega)] at h ⊢
    intro i hi hle
    rw [getLsbD_sixToFour y (by omega)]
    split
    · next hlow =>
      rw [h (i - 80) (by omega) (by omega), getLsbD_pair a (by decide) (by omega)]
      congr 1
      omega
    · next hhigh =>
      have hbit := congrArg (fun s => BitVec.getLsbD s (i - 112)) hseg
      simp only [getLsbD_segment] at hbit
      rw [decide_eq_true (by omega), Bool.true_and, Nat.mul_zero, Nat.sub_zero,
        Nat.add_sub_cancel' (by omega)] at hbit
      exact hbit.symm

/-- A long network of a form that ends in its IPv4 address holds a spelling of each address that it
holds as an IPv4 one, but for the two lowest of the compatible form. -/
theorem exists_spelling_narrow {b y : BitVec 32} {len : ℕ} (hembed : embeddedV4 a = some b) (hlow : 96 ≤ len)
    (hhigh : len ≤ 128) (h : inNet y b (len - 96) = true) :
    (∃ x, embeddedV4 x = some y ∧ inNet x a len = true) ∨ (segment a 0 = 0x2002 ∧ y ≠ b) ∨
      (segments a 6 = [0, 0, 0, 0, 0, 0] ∧ y.toNat < 2) := by
  have htail : segment (withTail a y) 6 ++ segment (withTail a y) 7 = y := tail_append ..
  rcases embeddedV4_cases hembed with ⟨hseg, hfifth, rfl⟩ | ⟨hseg, rfl⟩ | ⟨hseg, rfl⟩ | ⟨hseg, rfl⟩
  · refine .inl ⟨withTail a y, ?_, inNet_withTail hlow hhigh h⟩
    rw [embeddedV4_mapped, htail]
    · rw [segments_withTail a y (by decide), hseg]
    · rw [segment_withTail a y (by decide), hfifth]
  · by_cases hy : y.toNat < 2
    · exact .inr (.inr ⟨hseg, hy⟩)
    · refine .inl ⟨withTail a y, ?_, inNet_withTail hlow hhigh h⟩
      rw [embeddedV4_compatible, htail]
      · rw [segments_withTail a y le_rfl, hseg]
      · by_contra hboth
        rw [not_or, not_not, BitVec.not_lt] at hboth
        rw [hboth.1] at htail
        have hvalue := congrArg BitVec.toNat htail
        have hzero : BitVec.toNat (0 : BitVec 16) = 0 := rfl
        rw [BitVec.toNat_append, hzero, Nat.zero_shiftLeft, Nat.zero_or] at hvalue
        have hle : (segment (withTail a y) 7).toNat ≤ 1 := hboth.2
        omega
  · refine .inl ⟨withTail a y, ?_, inNet_withTail hlow hhigh h⟩
    rw [embeddedV4_nat64, htail]
    rw [segments_withTail a y le_rfl, hseg]
  · by_cases hy : y = segment a 1 ++ segment a 2
    · exact .inl ⟨a, hy ▸ hembed, inNet_self a len⟩
    · exact .inr (.inl ⟨hseg, hy⟩)

end Spellings

/-! ## One entry -/

section Entries

theorem canonical_v6 (a : BitVec 128) :
    (∃ b, embeddedV4 a = some b ∧ canonical (.v6 a) = .v4 b) ∨ (embeddedV4 a = none ∧ canonical (.v6 a) = .v6 a) := by
  cases h : embeddedV4 a with
  | none => exact .inr ⟨rfl, by simp [canonical, h]⟩
  | some b => exact .inl ⟨b, rfl, by simp [canonical, h]⟩

variable {len : ℕ} {ip y : IpAddr} {e : AllowEntry}

/-- What an IPv4 network is stored as. -/
theorem cidrEntry_v4_iff {ip : IpAddr} {b : BitVec 32} (hip : canonical ip = .v4 b) (e : AllowEntry) :
    cidrEntry ip len = some e ↔
      (len ≤ 32 ∧ e = .net (.v4 b) len) ∨ (96 ≤ len ∧ len ≤ 128 ∧ e = .net (.v4 b) (len - 96)) := by
  simp only [cidrEntry, hip, IpAddr.width, true_and]
  by_cases hlong : 32 < len
  · rw [if_pos hlong]
    by_cases hlow : 96 ≤ len
    · rw [if_pos hlow, bind_some]
      split_ifs with hle
      · rw [Option.some.injEq]
        constructor
        · rintro rfl
          exact .inr ⟨hlow, by omega, rfl⟩
        · rintro (⟨hshort, -⟩ | ⟨-, -, rfl⟩)
          · omega
          · rfl
      · constructor
        · exact fun h => by cases h
        · rintro (⟨hshort, -⟩ | ⟨-, hhigh, -⟩) <;> omega
    · rw [if_neg hlow]
      constructor
      · exact fun h => by cases h
      · rintro (⟨hshort, -⟩ | ⟨hlow', -, -⟩) <;> omega
  · rw [if_neg hlong, bind_some, if_pos (by omega), Option.some.injEq]
    constructor
    · rintro rfl
      exact .inl ⟨by omega, rfl⟩
    · rintro (⟨-, rfl⟩ | ⟨hlow, -, -⟩)
      · rfl
      · omega

theorem cidrEntry_v6_iff {ip : IpAddr} {a : BitVec 128} (hip : canonical ip = .v6 a) (e : AllowEntry) :
    cidrEntry ip len = some e ↔ len ≤ 128 ∧ e = .net (.v6 a) len := by
  simp only [cidrEntry, hip, IpAddr.width]
  rw [if_neg (by omega), bind_some]
  split_ifs with hle
  · rw [Option.some.injEq, eq_comm]
    simp [hle]
  · simp [hle]

theorem internal_of_cidr (hentry : cidrEntry ip len = some e) (hy : canonical y = y)
    (hclass : classify y = some .internal) (hallows : e.allows y false = true) :
    (len ≤ ip.width ∧ ∃ x, canonical x = y ∧ Holds (ip, len) x) ∨ ∃ v, y = .v4 v ∧ Adds ip len v := by
  cases ip with
  | v4 =>
    rcases (cidrEntry_v4_iff rfl e).mp hentry with ⟨hlen, rfl⟩ | ⟨hlow, hhigh, rfl⟩
    · cases y with
      | v4 v => exact .inl ⟨hlen, .v4 v, rfl, by simpa [AllowEntry.allows, Holds] using hallows⟩
      | v6 => cases hallows
    · cases y with
      | v4 v => exact .inr ⟨v, rfl, hlow, hhigh, by simpa [AllowEntry.allows] using hallows, .inl hclass⟩
      | v6 => cases hallows
  | v6 a =>
    rcases canonical_v6 a with ⟨b, hembed, hcanon⟩ | ⟨hembed, hcanon⟩
    · cases y with
      | v6 => rcases (cidrEntry_v4_iff hcanon e).mp hentry with ⟨-, rfl⟩ | ⟨-, -, rfl⟩ <;> cases hallows
      | v4 v =>
        rcases (cidrEntry_v4_iff hcanon e).mp hentry with ⟨hlen, rfl⟩ | ⟨hlow, hhigh, rfl⟩
        · obtain ⟨x, hx, hin⟩ := exists_spelling hembed hlen (by simpa [AllowEntry.allows] using hallows)
          exact .inl ⟨hlen.trans (show 32 ≤ 128 by omega), .v6 x, by simp [canonical, hx], hin⟩
        · have hin : inNet v b (len - 96) = true := by simpa [AllowEntry.allows] using hallows
          rcases exists_spelling_narrow hembed hlow hhigh hin with ⟨x, hx, hin'⟩ | hadded
          · exact .inl ⟨hhigh, .v6 x, by simp [canonical, hx], hin'⟩
          · exact .inr ⟨v, rfl, b, hembed, .inr ⟨hlow, hhigh, hin, hclass, hadded⟩⟩
    · obtain ⟨hlen, rfl⟩ := (cidrEntry_v6_iff hcanon e).mp hentry
      cases y with
      | v4 => cases hallows
      | v6 v => exact .inl ⟨hlen, .v6 v, hy, by simpa [AllowEntry.allows, Holds] using hallows⟩

theorem metadata_of_cidr (hentry : cidrEntry ip len = some e) (hclass : classify y = some .metadata)
    (hallows : e.allows y true = true) : (len = ip.width ∧ canonical ip = y) ∨ ∃ v, y = .v4 v ∧ Adds ip len v := by
  have hfull {v n : BitVec 32} {k : ℕ} (h : AllowEntry.allows (.v4 v) true (.net (.v4 n) k) = true) :
      k = 32 ∧ v = n := by
    simp only [AllowEntry.allows, Bool.not_true, Bool.false_or, Bool.and_eq_true, beq_iff_eq] at h
    obtain ⟨rfl, hin⟩ := h
    exact ⟨rfl, inNet_full.mp hin⟩
  cases ip with
  | v4 =>
    cases y with
    | v6 => rcases (cidrEntry_v4_iff rfl e).mp hentry with ⟨-, rfl⟩ | ⟨-, -, rfl⟩ <;> cases hallows
    | v4 v =>
      rcases (cidrEntry_v4_iff rfl e).mp hentry with ⟨hlen, rfl⟩ | ⟨hlow, hhigh, rfl⟩
      · obtain ⟨rfl, rfl⟩ := hfull hallows
        exact .inl ⟨rfl, rfl⟩
      · obtain ⟨hlen, rfl⟩ := hfull hallows
        exact .inr ⟨v, rfl, hlow, hhigh, inNet_self v _, .inr ⟨hlen, hclass⟩⟩
  | v6 a =>
    rcases canonical_v6 a with ⟨b, hembed, hcanon⟩ | ⟨hembed, hcanon⟩
    · cases y with
      | v6 => rcases (cidrEntry_v4_iff hcanon e).mp hentry with ⟨-, rfl⟩ | ⟨-, -, rfl⟩ <;> cases hallows
      | v4 v =>
        rcases (cidrEntry_v4_iff hcanon e).mp hentry with ⟨hlen, rfl⟩ | ⟨hlow, hhigh, rfl⟩
        · obtain ⟨rfl, rfl⟩ := hfull hallows
          exact .inr ⟨v, rfl, v, hembed, .inl ⟨rfl, rfl, hclass⟩⟩
        · obtain ⟨hlen, rfl⟩ := hfull hallows
          exact .inl ⟨show len = 128 by omega, hcanon⟩
    · obtain ⟨hlen, rfl⟩ := (cidrEntry_v6_iff hcanon e).mp hentry
      cases y with
      | v4 => cases hallows
      | v6 =>
        simp only [AllowEntry.allows, Bool.not_true, Bool.false_or, Bool.and_eq_true, beq_iff_eq] at hallows
        obtain ⟨rfl, hin⟩ := hallows
        exact .inl ⟨rfl, hcanon.trans (congrArg IpAddr.v6 (inNet_full.mp hin).symm)⟩

/-- An entry that adds a network allows it. -/
theorem allows_of_adds {ip : IpAddr} {v : BitVec 32} (h : Adds ip len v) :
    ∃ e, cidrEntry ip len = some e ∧
      ((classifyV4 v = some .internal ∧ e.allows (.v4 v) false = true) ∨
        (classifyV4 v = some .metadata ∧ e.allows (.v4 v) true = true)) := by
  cases ip with
  | v4 a =>
    obtain ⟨hlow, hhigh, hin, hclass⟩ := h
    refine ⟨.net (.v4 a) (len - 96), (cidrEntry_v4_iff rfl _).mpr (.inr ⟨hlow, hhigh, rfl⟩), ?_⟩
    rcases hclass with hclass | ⟨hfull, hclass⟩
    · exact .inl ⟨hclass, by simp [AllowEntry.allows, hin]⟩
    · rw [hfull] at hin ⊢
      exact .inr ⟨hclass, by simp [AllowEntry.allows, hin]⟩
  | v6 a =>
    obtain ⟨b, hembed, hcase⟩ := h
    have hcanon : canonical (.v6 a) = .v4 b := by simp [canonical, hembed]
    rcases hcase with ⟨rfl, rfl, hclass⟩ | ⟨hlow, hhigh, hin, hclass, -⟩
    · refine ⟨.net (.v4 v) 32, (cidrEntry_v4_iff hcanon _).mpr (.inl ⟨le_rfl, rfl⟩), .inr ⟨hclass, ?_⟩⟩
      simp [AllowEntry.allows, inNet_self]
    · refine ⟨.net (.v4 b) (len - 96), (cidrEntry_v4_iff hcanon _).mpr (.inr ⟨hlow, hhigh, rfl⟩), .inl ⟨hclass, ?_⟩⟩
      simp [AllowEntry.allows, hin]

theorem parseEntry_net {entry : Str} (h : parseEntry entry = some e) {y : IpAddr} {exact : Bool}
    (hallows : e.allows y exact = true) :
    (∃ addr l ip len, splitOnce '/' entry = some (addr, l) ∧ cidr addr l = some (ip, len) ∧
        cidrEntry ip len = some e) ∨
      (splitOnce '/' entry = none ∧ ∃ ip, parseIp (normalizeHost entry) = some ip ∧
        e = .net (canonical ip) (canonical ip).width) := by
  unfold parseEntry at h
  split at h
  · next addr l hsplit =>
    obtain ⟨⟨ip, len⟩, hcidr, hentry⟩ := bind_eq_some_iff.mp h
    exact .inl ⟨addr, l, ip, len, hsplit, hcidr, hentry⟩
  · next hsplit =>
    dsimp only at h
    split at h
    · next ip hip => exact .inr ⟨hsplit, ip, hip, (some.inj h).symm⟩
    · split at h
      · split_ifs at h
        cases h
        cases hallows
      · split_ifs at h
        cases h
        cases hallows

theorem canonical_eq_of_allows {exact : Bool}
    (h : AllowEntry.allows y exact (.net (canonical ip) (canonical ip).width) = true) : canonical ip = y := by
  cases hip : canonical ip with
  | v4 =>
    rw [hip] at h
    cases y with
    | v4 =>
      simp only [AllowEntry.allows, IpAddr.width, Bool.and_eq_true] at h
      exact congrArg IpAddr.v4 (inNet_full.mp h.2).symm
    | v6 => cases h
  | v6 =>
    rw [hip] at h
    cases y with
    | v4 => cases h
    | v6 =>
      simp only [AllowEntry.allows, IpAddr.width, Bool.and_eq_true] at h
      exact congrArg IpAddr.v6 (inNet_full.mp h.2).symm

theorem ne_nil_of_host {entry name : Str} (h : parseEntry entry = some (.host name)) : name ≠ [] := by
  unfold parseEntry at h
  split at h
  · next addr l hsplit =>
    obtain ⟨⟨ip, len⟩, -, hentry⟩ := bind_eq_some_iff.mp h
    obtain ⟨len', -, hnet⟩ := bind_eq_some_iff.mp hentry
    split_ifs at hnet
    cases hnet
  · dsimp only at h
    split at h
    · cases h
    · split at h
      · split_ifs at h
        cases h
      · split_ifs at h with hvalid
        cases h
        rintro hnil
        simp [hnil] at hvalid

end Entries

/-! ## The whole list -/

/-- An address that the rewriting adds to a CIDR entry of the list. -/
def Added (raw : Str) (v : BitVec 32) : Prop :=
  ∃ entry ∈ entriesOf raw, ∃ addr l ip len, splitOnce '/' entry = some (addr, l) ∧ cidr addr l = some (ip, len) ∧
    Adds ip len v

variable {raw : Str}

theorem exists_entry_of_netAllows {y : IpAddr} {exact : Bool} (h : netAllows (parsePolicy raw) y exact = true) :
    ∃ entry ∈ entriesOf raw, ∃ e, parseEntry entry = some e ∧ e.allows y exact = true := by
  obtain ⟨e, hmem, hallows⟩ := List.any_eq_true.mp h
  obtain ⟨entry, hentry, hparse⟩ := mem_filterMap.mp hmem
  exact ⟨entry, hentry, e, hparse, hallows⟩

/-- What an entry allows, the policy does. -/
theorem netAllows_of_entry {raw entry : Str} {y : IpAddr} {exact : Bool} {e : AllowEntry}
    (hentry : entry ∈ entriesOf raw) (hparse : parseEntry entry = some e) (h : e.allows y exact = true) :
    netAllows (parsePolicy raw) y exact = true :=
  List.any_eq_true.mpr ⟨e, mem_filterMap.mpr ⟨entry, hentry, hparse⟩, h⟩

/-- An allowed host is listed. -/
theorem hostListed_of_hostAllowed {raw host : Str} (h : hostAllowed (parsePolicy raw) host = true) :
    HostListed raw host := by
  obtain ⟨e, hmem, hmatch⟩ := List.any_eq_true.mp h
  obtain ⟨entry, hentry, hparse⟩ := mem_filterMap.mp hmem
  refine ⟨entry, hentry, ?_⟩
  cases e with
  | net => cases hmatch
  | host => exact .inl (beq_iff_eq.mp hmatch ▸ hparse)
  | hostSuffix suffix =>
    simp only [Bool.and_eq_true, isSuffixOf_iff_suffix, decide_eq_true_eq] at hmatch
    obtain ⟨⟨label, hlabel⟩, hlt⟩ := hmatch
    refine .inr ⟨suffix, label, hparse, ?_, hlabel.symm⟩
    rintro rfl
    rw [← hlabel] at hlt
    exact absurd hlt (by simp)

/-- The empty host is not listed. -/
theorem not_hostListed_nil (raw : Str) : ¬ HostListed raw [] := by
  rintro ⟨entry, -, hname | ⟨suffix, label, -, hlabel, hsplit⟩⟩
  · exact ne_nil_of_host hname (by decide)
  · exact hlabel (append_eq_nil_iff.mp hsplit.symm).1

/-- An allowed network is listed, or was added by the slip. -/
theorem listed_of_netAllows {y : IpAddr} (hy : canonical y = y) :
    (classify y = some .internal → netAllows (parsePolicy raw) y false = true →
      ListedNet raw y ∨ ∃ v, y = .v4 v ∧ Added raw v) ∧
    (classify y = some .metadata → netAllows (parsePolicy raw) y true = true →
      NamedExactly raw y ∨ ∃ v, y = .v4 v ∧ Added raw v) := by
  constructor
  · intro hclass h
    obtain ⟨entry, hentry, e, hparse, hallows⟩ := exists_entry_of_netAllows h
    rcases parseEntry_net hparse hallows with ⟨addr, l, ip, len, hsplit, hcidr, hnet⟩ | ⟨hsplit, ip, hip, rfl⟩
    · rcases internal_of_cidr hnet hy hclass hallows with ⟨hlen, x, hx, hin⟩ | ⟨v, hv, hadds⟩
      · have hwritten : written entry = some (ip, len) := by
          simp [written, hsplit, hcidr, hlen]
        exact .inl ⟨entry, hentry, (ip, len), hwritten, x, hx.trans hy.symm, hin⟩
      · exact .inr ⟨v, hv, entry, hentry, addr, l, ip, len, hsplit, hcidr, hadds⟩
    · have hwritten : written entry = some (ip, ip.width) := by
        simp [written, hsplit, hip]
      refine .inl ⟨entry, hentry, _, hwritten, ip, (canonical_eq_of_allows hallows).trans hy.symm, ?_⟩
      cases ip <;> exact inNet_self _ _
  · intro hclass h
    obtain ⟨entry, hentry, e, hparse, hallows⟩ := exists_entry_of_netAllows h
    rcases parseEntry_net hparse hallows with ⟨addr, l, ip, len, hsplit, hcidr, hnet⟩ | ⟨hsplit, ip, hip, rfl⟩
    · rcases metadata_of_cidr hnet hclass hallows with ⟨hlen, hcanon⟩ | ⟨v, hv, hadds⟩
      · have hwritten : written entry = some (ip, len) := by
          simp [written, hsplit, hcidr, hlen]
        exact .inl ⟨entry, hentry, (ip, len), hwritten, hlen, hcanon.trans hy.symm⟩
      · exact .inr ⟨v, hv, entry, hentry, addr, l, ip, len, hsplit, hcidr, hadds⟩
    · have hwritten : written entry = some (ip, ip.width) := by
        simp [written, hsplit, hip]
      exact .inl ⟨entry, hentry, _, hwritten, rfl, (canonical_eq_of_allows hallows).trans hy.symm⟩

/-- Classes are of canonical addresses. -/
theorem classify_canonical (ip : IpAddr) : classify (canonical ip) = classify ip := by
  rw [classify, canonical_canonical, classify]

/-- A canonical address is listed with its own. -/
theorem listedNet_canonical {ip : IpAddr} (h : ListedNet raw (canonical ip)) : ListedNet raw ip := by
  rw [ListedNet, canonical_canonical] at h
  exact h

/-- A canonical address is named with its own. -/
theorem namedExactly_canonical {ip : IpAddr} (h : NamedExactly raw (canonical ip)) : NamedExactly raw ip := by
  rw [NamedExactly, canonical_canonical] at h
  exact h

/-- What an allowlist permits is public or listed, for every host and address, exactly when each
address that the rewriting adds to one of its CIDR entries is listed anyway. -/
theorem egress_sound_iff (raw : Str) :
    (∀ host ip, Sound raw host ip) ↔ ∀ v, Added raw v → Listed raw v := by
  constructor
  · rintro hsound v ⟨entry, hentry, addr, l, ip, len, hsplit, hcidr, hadds⟩
    obtain ⟨e, hnet, hopens⟩ := allows_of_adds hadds
    have hparse : parseEntry entry = some e := by
      simp only [parseEntry, hsplit, hcidr, Option.bind_some]
      exact hnet
    have hv := hsound [] (.v4 v)
    rcases hopens with ⟨hclass, hallows⟩ | ⟨hclass, hallows⟩
    · have hclassify : classify (.v4 v) = some .internal := hclass
      simp only [Sound, permits, canonical, hclassify, netAllows_of_entry hentry hparse hallows, Bool.or_true,
        forall_const] at hv
      exact .inl ⟨hclass, hv.resolve_left (not_hostListed_nil raw)⟩
    · have hclassify : classify (.v4 v) = some .metadata := hclass
      simp only [Sound, permits, canonical, hclassify, netAllows_of_entry hentry hparse hallows, forall_const] at hv
      exact .inr ⟨hclass, hv⟩
  · intro hadded host ip hpermits
    have hcanon := canonical_canonical ip
    rw [← classify_canonical ip]
    simp only [permits, classify_canonical] at hpermits
    rw [← classify_canonical ip] at hpermits
    cases hclass : classify (canonical ip) with
    | none => trivial
    | some restricted =>
      rw [hclass] at hpermits
      cases restricted with
      | internal =>
        rcases Bool.or_eq_true_iff.mp hpermits with hhost | hnet
        · exact .inl (hostListed_of_hostAllowed hhost)
        · rcases (listed_of_netAllows hcanon).1 hclass hnet with hlist | ⟨v, hv, hadd⟩
          · exact .inr (listedNet_canonical hlist)
          · rw [hv] at hclass
            rcases hadded v hadd with ⟨-, hlist⟩ | ⟨hmeta, -⟩
            · exact .inr (listedNet_canonical (hv ▸ hlist))
            · exact absurd (hclass.symm.trans hmeta) (by decide)
      | metadata =>
        rcases (listed_of_netAllows hcanon).2 hclass hpermits with hnamed | ⟨v, hv, hadd⟩
        · exact namedExactly_canonical hnamed
        · rw [hv] at hclass
          rcases hadded v hadd with ⟨hint, -⟩ | ⟨-, hnamed⟩
          · exact absurd (hclass.symm.trans hint) (by decide)
          · exact namedExactly_canonical (hv ▸ hnamed)

/-- A 6to4 network has one embedded address. -/
theorem embeddedV4_of_inNet {a x : BitVec 128} {len : ℕ} (ha : segment a 0 = 0x2002) (hlow : 48 ≤ len)
    (hhigh : len ≤ 128) (h : inNet x a len = true) : embeddedV4 x = embeddedV4 a := by
  rw [inNet_iff hhigh] at h
  have hsame (i : ℕ) (hi : i < 3) : segment x i = segment a i := segment_eq fun j hle hlt => h j (by omega) (by omega)
  rw [embeddedV4_sixToFour ha, embeddedV4_sixToFour ((hsame 0 (by decide)).trans ha), hsame 1 (by decide),
    hsame 2 (by decide)]

/-- The 6to4 network of 10.0.0.0 with 97 bits. -/
def sixToFourList : Str := "2002:a00::/97".toList

/-- It is read as 10.0.0.0/1, which holds the loopback address. -/
theorem egress_opens_loopback : ¬ Sound sixToFourList "db".toList (.v4 0x7f000001) := by
  intro h
  have hentries : entriesOf sixToFourList = [sixToFourList] := by decide +kernel
  have hparse : parseEntry sixToFourList = some (.net (.v4 0x0a000000) 1) := by decide +kernel
  have hwritten : written sixToFourList = some (.v6 0x20020a00000000000000000000000000, 97) := by decide +kernel
  have hclass : classify (.v4 0x7f000001) = some .internal := by decide +kernel
  have hlisted := h (by decide +kernel)
  simp only [hclass, HostListed, ListedNet, hentries, List.mem_singleton, exists_eq_left, hparse, hwritten] at hlisted
  rcases hlisted with hname | ⟨net, hnet, x, hx, hholds⟩
  · simp at hname
  · cases hnet
    cases x with
    | v4 => exact hholds
    | v6 =>
      have hembed := embeddedV4_of_inNet (by decide +kernel) (by decide) (by decide) hholds
      have hten : embeddedV4 0x20020a00000000000000000000000000 = some 0x0a000000 := by decide +kernel
      rw [canonical, hembed, hten] at hx
      exact absurd (IpAddr.v4.inj hx) (by decide)

end Onecli.Proxy
