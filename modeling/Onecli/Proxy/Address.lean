import Onecli.Gateway.Text

/-!
# Internet addresses

`IpAddr` of the standard library as bit vectors, its parser, and the classifier of
`proxy/src/egress.rs`: an IPv6 address that carries an IPv4 address is judged by it.
-/

namespace Onecli.Proxy

open Gateway (Str)

/-- `IpAddr`. -/
inductive IpAddr where
  | v4 (addr : BitVec 32)
  | v6 (addr : BitVec 128)
  deriving DecidableEq

/-- How many bits an address has. -/
def IpAddr.width : IpAddr → ℕ
  | .v4 _ => 32
  | .v6 _ => 128

/-! ## The parser -/

/-- `char::to_digit`. -/
def toDigit (radix : ℕ) (c : Char) : Option ℕ :=
  let value :=
    if c.isDigit then some (c.toNat - '0'.toNat)
    else if 'a' ≤ c ∧ c ≤ 'z' then some (c.toNat - 'a'.toNat + 10)
    else if 'A' ≤ c ∧ c ≤ 'Z' then some (c.toNat - 'A'.toNat + 10)
    else none
  value.filter (· < radix)

/-- `read_number`: the longest run of digits, of a bounded length and value. -/
def readNumber (radix maxDigits bound : ℕ) (allowZeroPrefix : Bool) (s : Str) : Option (ℕ × Str) :=
  let digits := s.takeWhile fun c => (toDigit radix c).isSome
  let value := digits.foldl (fun n c => n * radix + (toDigit radix c).getD 0) 0
  if digits.isEmpty || decide (maxDigits < digits.length) || decide (bound < value) then none
  else if !allowZeroPrefix && digits.head? == some '0' && decide (1 < digits.length) then none
  else some (value, s.drop digits.length)

/-- `read_separator`: the separator stands in front of every item but the first. -/
def readSeparator {A : Type} (sep : Char) (index : ℕ) (inner : Str → Option (A × Str)) (s : Str) :
    Option (A × Str) :=
  if index = 0 then inner s
  else
    match s with
    | c :: rest => if c = sep then inner rest else none
    | [] => none

/-- `read_ipv4_addr`. -/
def readIpv4 (s : Str) : Option (BitVec 32 × Str) := do
  let (a, s) ← readSeparator '.' 0 (readNumber 10 3 255 false) s
  let (b, s) ← readSeparator '.' 1 (readNumber 10 3 255 false) s
  let (c, s) ← readSeparator '.' 2 (readNumber 10 3 255 false) s
  let (d, s) ← readSeparator '.' 3 (readNumber 10 3 255 false) s
  return (BitVec.ofNat 8 a ++ BitVec.ofNat 8 b ++ BitVec.ofNat 8 c ++ BitVec.ofNat 8 d, s)

/-- `read_groups`, with room for as many groups as the first number says: the groups, whether the
last two are an IPv4 address, and what is left. -/
def readGroups : ℕ → ℕ → Str → List (BitVec 16) × Bool × Str
  | 0, _, s => ([], false, s)
  | room + 1, i, s =>
    match if room = 0 then none else readSeparator ':' i readIpv4 s with
    | some (v4, s) => ([v4.extractLsb' 16 16, v4.extractLsb' 0 16], true, s)
    | none =>
      match readSeparator ':' i (readNumber 16 4 65535 true) s with
      | some (group, s) =>
        let (groups, ipv4, s) := readGroups room (i + 1) s
        (BitVec.ofNat 16 group :: groups, ipv4, s)
      | none => ([], false, s)

/-- The address of its eight groups. -/
def ofGroups (groups : List (BitVec 16)) : BitVec 128 :=
  groups.foldl (fun addr group => (addr <<< 16) ||| group.setWidth 128) 0

/-- `read_ipv6_addr`. -/
def readIpv6 (s : Str) : Option (BitVec 128 × Str) :=
  let (head, headIpv4, s) := readGroups 8 0 s
  if head.length = 8 then some (ofGroups head, s)
  else if headIpv4 then none
  else
    match s with
    | ':' :: ':' :: s =>
      let (tail, _, s) := readGroups (8 - (head.length + 1)) 0 s
      some (ofGroups (head ++ List.replicate (8 - head.length - tail.length) 0 ++ tail), s)
    | _ => none

/-- `str::parse::<IpAddr>`: an address and nothing after it. -/
def parseIp (s : Str) : Option IpAddr := do
  let (ip, rest) ←
    match readIpv4 s with
    | some (v4, rest) => some (IpAddr.v4 v4, rest)
    | none => (readIpv6 s).map fun (v6, rest) => (IpAddr.v6 v6, rest)
  if rest.isEmpty then some ip else none

example : parseIp "169.254.169.254".toList = some (.v4 0xa9fea9fe) := by decide +kernel
example : parseIp "2002:7f00:1::".toList = some (.v6 0x20027f00000100000000000000000000) := by decide +kernel
example : parseIp "::ffff:10.0.0.1".toList = some (.v6 0xffff0a000001) := by decide +kernel
example : parseIp "1.2.3.04".toList = none := by decide +kernel

/-! ## Classification -/

/-- One of the eight segments of an IPv6 address. -/
def segment (addr : BitVec 128) (i : ℕ) : BitVec 16 := addr.extractLsb' (112 - 16 * i) 16

/-- The first segments of an address. -/
def segments (addr : BitVec 128) (n : ℕ) : List (BitVec 16) := (List.range n).map (segment addr)

/-- `embedded_v4`. -/
def embeddedV4 (addr : BitVec 128) : Option (BitVec 32) :=
  let tail := segment addr 6 ++ segment addr 7
  if segments addr 5 = [0, 0, 0, 0, 0] ∧ segment addr 5 = 0xffff then some tail
  else if segments addr 6 = [0, 0, 0, 0, 0, 0] ∧ (segment addr 6 ≠ 0 ∨ 1 < segment addr 7) then some tail
  else if segments addr 6 = [0x64, 0xff9b, 0, 0, 0, 0] then some tail
  else if segment addr 0 = 0x2002 then some (segment addr 1 ++ segment addr 2)
  else none

/-- `canonical`. -/
def canonical : IpAddr → IpAddr
  | .v6 addr => ((embeddedV4 addr).map IpAddr.v4).getD (.v6 addr)
  | .v4 addr => .v4 addr

/-- `in_v4` and `in_v6`: the first bits of the address are those of the network. -/
def inNet {w : ℕ} (ip net : BitVec w) (len : ℕ) : Bool :=
  let mask := if len = 0 then 0 else BitVec.allOnes w <<< (w - len)
  (ip &&& mask) == (net &&& mask)

/-- `Restricted`. -/
inductive Restricted where
  | internal
  | metadata
  deriving DecidableEq

/-- `INTERNAL` of `classify_v4`. -/
def internalV4 : List (BitVec 32 × ℕ) :=
  [(0x00000000, 8), (0x0a000000, 8), (0x64400000, 10), (0x7f000000, 8), (0xac100000, 12), (0xc0000000, 24),
    (0xc0000200, 24), (0xc0586300, 24), (0xc0a80000, 16), (0xc6120000, 15), (0xc6336400, 24), (0xcb007100, 24),
    (0xe0000000, 4), (0xf0000000, 4)]

/-- `classify_v4`. -/
def classifyV4 (ip : BitVec 32) : Option Restricted :=
  if inNet ip 0xa9fe0000 16 then some .metadata
  else if internalV4.any fun (net, len) => inNet ip net len then some .internal
  else none

/-- `METADATA` of `classify_v6`. -/
def metadataV6 : List (BitVec 128 × ℕ) :=
  [(0xfe800000000000000000000000000000, 10), (0xfd000ec2000000000000000000000000, 32)]

/-- `INTERNAL` of `classify_v6`. -/
def internalV6 : List (BitVec 128 × ℕ) :=
  [(0x01000000000000000000000000000000, 64), (0x0064ff9b000100000000000000000000, 48),
    (0x20010000000000000000000000000000, 32), (0x20010db8000000000000000000000000, 32),
    (0x3fff0000000000000000000000000000, 20), (0xfc000000000000000000000000000000, 7),
    (0xfec00000000000000000000000000000, 10), (0xff000000000000000000000000000000, 8)]

/-- `classify_v6`. -/
def classifyV6 (ip : BitVec 128) : Option Restricted :=
  if metadataV6.any fun (net, len) => inNet ip net len then some .metadata
  else if ip = 0 ∨ ip = 1 then some .internal
  else if internalV6.any fun (net, len) => inNet ip net len then some .internal
  else none

/-- `classify`: `none` for a public address. -/
def classify (ip : IpAddr) : Option Restricted :=
  match canonical ip with
  | .v4 addr => classifyV4 addr
  | .v6 addr => classifyV6 addr

/-! ## Networks, bit by bit -/

/-- A network by its leading bits. -/
theorem inNet_iff {w : ℕ} {ip net : BitVec w} {len : ℕ} (hlen : len ≤ w) :
    inNet ip net len = true ↔ ∀ i < w, w - len ≤ i → ip.getLsbD i = net.getLsbD i := by
  unfold inNet
  split
  · next h =>
    exact ⟨fun _ i hi hle => absurd hle (by omega), fun _ => by simp⟩
  · rw [beq_iff_eq]
    have hmask (i : ℕ) (hi : i < w) : (BitVec.allOnes w <<< (w - len)).getLsbD i = decide (w - len ≤ i) := by
      rw [BitVec.getLsbD_shiftLeft]
      by_cases hle : w - len ≤ i
      · simp [hi, hle]
        omega
      · simp [hi, hle]
    constructor
    · intro h i hi hle
      have hbit := congrArg (fun x => BitVec.getLsbD x i) h
      simpa [BitVec.getLsbD_and, hmask i hi, hle] using hbit
    · intro h
      refine BitVec.eq_of_getLsbD_eq fun i hi => ?_
      rw [BitVec.getLsbD_and, BitVec.getLsbD_and, hmask i hi]
      by_cases hle : w - len ≤ i
      · rw [h i hi hle]
      · simp [hle]

/-- An address is in its own network. -/
theorem inNet_self {w : ℕ} (ip : BitVec w) (len : ℕ) : inNet ip ip len = true := by
  simp [inNet]

theorem inNet_full {w : ℕ} {ip net : BitVec w} : inNet ip net w = true ↔ ip = net := by
  rw [inNet_iff le_rfl]
  constructor
  · exact fun h => BitVec.eq_of_getLsbD_eq fun i hi => h i hi (by omega)
  · rintro rfl i _ _
    rfl

/-- The bits of a segment. -/
theorem getLsbD_segment (addr : BitVec 128) (i j : ℕ) :
    (segment addr i).getLsbD j = (decide (j < 16) && addr.getLsbD (112 - 16 * i + j)) := by
  rw [segment, BitVec.getLsbD_extractLsb']

theorem segment_eq {a b : BitVec 128} {i : ℕ}
    (h : ∀ j, 112 - 16 * i ≤ j → j < 112 - 16 * i + 16 → a.getLsbD j = b.getLsbD j) : segment a i = segment b i := by
  refine BitVec.eq_of_getLsbD_eq fun j hj => ?_
  rw [getLsbD_segment, getLsbD_segment, h _ (by omega) (by omega)]

/-- The bits of two segments. -/
theorem getLsbD_pair (addr : BitVec 128) {i : ℕ} (hi : i < 7) {j : ℕ} (hj : j < 32) :
    (segment addr i ++ segment addr (i + 1)).getLsbD j = addr.getLsbD (96 - 16 * i + j) := by
  rw [BitVec.getLsbD_append, getLsbD_segment, getLsbD_segment]
  split
  · next hlow =>
    rw [decide_eq_true hlow, Bool.true_and]
    congr 1
    omega
  · next hhigh =>
    rw [decide_eq_true (by omega), Bool.true_and]
    congr 1
    omega

end Onecli.Proxy
