import Mathlib.Data.BitVec
import Verdix.Lib.Json

/-!
# IP addresses and networks

Python's `ipaddress`, as far as the project uses it: reading an address (`ipAddress`), the networks
it is in, and the address classes of version 3.13, where an IPv4-mapped IPv6 address is classed like
the IPv4 address it carries.

A network tests an address by its netmask; `Subnet.contains_iff` says what that test means: the
first `prefixlen` bits agree with the network address.
-/

namespace Ipaddress

/-! ### Networks of one version -/

/-- The first `prefixlen` of `w` bits. -/
def netmask (w prefixlen : ℕ) : BitVec w := BitVec.allOnes w ^^^ (BitVec.allOnes w >>> prefixlen)

theorem getMsbD_netmask {w prefixlen i : ℕ} (hi : i < w) :
    (netmask w prefixlen).getMsbD i = decide (i < prefixlen) := by
  have hsub : i - prefixlen < w := by omega
  simp [netmask, BitVec.getMsbD_ushiftRight, hi, hsub]

/-- A block of `w`-bit addresses. -/
structure Subnet (w : ℕ) where
  networkAddress : BitVec w
  prefixlen : ℕ
  hostBits : networkAddress &&& netmask w prefixlen = networkAddress

namespace Subnet

variable {w : ℕ}

/-- `ip_network((address, prefixlen), strict=False)`: the host bits are cleared. -/
def ofAddress (address : BitVec w) (prefixlen : ℕ) : Subnet w where
  networkAddress := address &&& netmask w prefixlen
  prefixlen := prefixlen
  hostBits := by rw [BitVec.and_assoc, BitVec.and_self]

/-- `addr in net`, as Python computes it. -/
def contains (net : Subnet w) (addr : BitVec w) : Bool :=
  addr &&& netmask w net.prefixlen = net.networkAddress

/-- The address starts with the bits of the network. -/
def Covers (net : Subnet w) (addr : BitVec w) : Prop :=
  ∀ i < w, i < net.prefixlen → addr.getMsbD i = net.networkAddress.getMsbD i

theorem contains_iff {net : Subnet w} {addr : BitVec w} : net.contains addr ↔ net.Covers addr := by
  rw [contains, decide_eq_true_iff]
  constructor
  · intro h i hi hp
    rw [← h, BitVec.getMsbD_and, getMsbD_netmask hi, decide_eq_true hp, Bool.and_true]
  · intro h
    apply BitVec.eq_of_getMsbD_eq
    intro i hi
    rw [BitVec.getMsbD_and, getMsbD_netmask hi]
    by_cases hp : i < net.prefixlen
    · rw [h i hi hp, decide_eq_true hp, Bool.and_true]
    · -- a host bit, cleared on both sides
      rw [← net.hostBits, BitVec.getMsbD_and, getMsbD_netmask hi, decide_eq_false hp]
      simp

end Subnet

/-! ### Addresses and networks of both versions -/

inductive Address
  | v4 (ip : BitVec 32)
  | v6 (ip : BitVec 128)
  deriving DecidableEq

inductive Network
  | v4 (net : Subnet 32)
  | v6 (net : Subnet 128)

namespace Network

/-- `addr in net`; addresses of the other version are outside. -/
def contains : Network → Address → Bool
  | v4 net, .v4 ip => net.contains ip
  | v6 net, .v6 ip => net.contains ip
  | _, _ => false

def Covers : Network → Address → Prop
  | v4 net, .v4 ip => net.Covers ip
  | v6 net, .v6 ip => net.Covers ip
  | _, _ => False

theorem contains_iff {net : Network} {addr : Address} : net.contains addr ↔ net.Covers addr := by
  cases net <;> cases addr <;> simp [contains, Covers, Subnet.contains_iff]

end Network

/-! ### Reading an address -/

/-- `_parse_octet`. -/
def parseOctet (octet : List Char) : Option ℕ :=
  let value := octet.foldl (fun n c => 10 * n + (c.toNat - '0'.toNat)) 0
  if octet ≠ [] ∧ octet.all Char.isDigit ∧ octet.length ≤ 3 ∧
      (octet = ['0'] ∨ octet.head? ≠ some '0') ∧ value ≤ 255 then
    some value
  else
    none

/-- `IPv4Address(s)`. -/
def ipv4Address (s : List Char) : Option (BitVec 32) :=
  match (s.splitOn '.').mapM parseOctet with
  | some [a, b, c, d] => some (BitVec.ofNat 32 (((a * 256 + b) * 256 + c) * 256 + d))
  | _ => none

/-- `_parse_hextet`. -/
def parseHextet (hextet : List Char) : Option ℕ :=
  if hextet ≠ [] ∧ hextet.length ≤ 4 then
    hextet.foldlM (fun n c => (Json.hexValue c).map (16 * n + ·)) 0
  else
    none

/-- A dotted last part is two hextets. -/
def splitDotted (parts : List (List Char)) : Option (List (List Char)) :=
  let tail := parts.getLastD []
  if '.' ∈ tail then do
    let ip ← ipv4Address tail
    return parts.dropLast ++
      [Nat.toDigits 16 (ip.toNat / 65536), Nat.toDigits 16 (ip.toNat % 65536)]
  else
    some parts

/-- The positions of empty parts that are not at an end: `::`. -/
def skips (parts : List (List Char)) : List ℕ :=
  (List.range (parts.length - 1)).filter fun i => 0 < i ∧ parts[i]? = some []

def ofHextets (hextets : List ℕ) : BitVec 128 :=
  BitVec.ofNat 128 (hextets.foldl (fun n h => n * 65536 + h) 0)

/-- `_ip_int_from_string` of version 6. -/
def ipv6FromString (s : List Char) : Option (BitVec 128) := do
  let parts := s.splitOn ':'
  guard (3 ≤ parts.length)
  let parts ← splitDotted parts
  guard (parts.length ≤ 9)
  match skips parts with
  | [] =>
    guard (parts.length = 8)
    return ofHextets (← parts.mapM parseHextet)
  | [skip] =>
    -- an empty part at an end stands alone there: it belongs to the `::`
    let high := if parts.take skip = [[]] then [] else parts.take skip
    let low := if parts.drop (skip + 1) = [[]] then [] else parts.drop (skip + 1)
    guard (high.length + low.length ≤ 7)
    let high ← high.mapM parseHextet
    let low ← low.mapM parseHextet
    return ofHextets (high ++ List.replicate (8 - (high.length + low.length)) 0 ++ low)
  | _ => none

/-- `_split_scope_id`, without the scope. -/
def splitScopeId (s : List Char) : Option (List Char) :=
  match s.splitOn '%' with
  | [addr] => some addr
  | [addr, scope] => if scope = [] then none else some addr
  | _ => none

/-- `IPv6Address(s)`. -/
def ipv6Address (s : List Char) : Option (BitVec 128) :=
  if '/' ∈ s then none else (splitScopeId s).bind ipv6FromString

/-- `ip_address(s)` for a text. -/
def ofString (s : String) : Option Address :=
  (ipv4Address s.toList).map .v4 <|> (ipv6Address s.toList).map .v6

/-- `ip_address(n)` for an integer. -/
def ofInt (n : ℤ) : Option Address :=
  if n < 0 then none
  else if n < 2 ^ 32 then some (.v4 (BitVec.ofInt 32 n))
  else if n < 2 ^ 128 then some (.v6 (BitVec.ofInt 128 n))
  else none

/-- `ip_address(v)`, `none` for its `ValueError`.  A float, list or dict is read through its text,
which is never an address. -/
def ipAddress : Json → Option Address
  | .str s => ofString s
  | .bool b => ofInt b.toInt
  | .int n => ofInt n
  | _ => none

/-! ### Address classes -/

def subnet4 (a b c d : ℕ) (prefixlen : ℕ) : Subnet 32 :=
  .ofAddress (BitVec.ofNat 32 (((a * 256 + b) * 256 + c) * 256 + d)) prefixlen

/-- `a:b:c::` -/
def subnet6 (a b c : ℕ) (prefixlen : ℕ) : Subnet 128 :=
  .ofAddress (ofHextets [a, b, c, 0, 0, 0, 0, 0]) prefixlen

namespace IPv4

def privateNetworks : List (Subnet 32) :=
  [subnet4 0 0 0 0 8, subnet4 10 0 0 0 8, subnet4 127 0 0 0 8, subnet4 169 254 0 0 16,
    subnet4 172 16 0 0 12, subnet4 192 0 0 0 24, subnet4 192 0 0 170 31, subnet4 192 0 2 0 24,
    subnet4 192 168 0 0 16, subnet4 198 18 0 0 15, subnet4 198 51 100 0 24, subnet4 203 0 113 0 24,
    subnet4 240 0 0 0 4, subnet4 255 255 255 255 32]

def privateNetworksExceptions : List (Subnet 32) := [subnet4 192 0 0 9 32, subnet4 192 0 0 10 32]

def isPrivate (ip : BitVec 32) : Bool :=
  privateNetworks.any (·.contains ip) && privateNetworksExceptions.all (!·.contains ip)

def isLoopback (ip : BitVec 32) : Bool := (subnet4 127 0 0 0 8).contains ip

def isLinkLocal (ip : BitVec 32) : Bool := (subnet4 169 254 0 0 16).contains ip

def isReserved (ip : BitVec 32) : Bool := (subnet4 240 0 0 0 4).contains ip

def isMulticast (ip : BitVec 32) : Bool := (subnet4 224 0 0 0 4).contains ip

end IPv4

namespace IPv6

def loopbackNetwork : Subnet 128 := .ofAddress 1 128

def privateNetworks : List (Subnet 128) :=
  [loopbackNetwork, .ofAddress 0 128, .ofAddress (ofHextets [0, 0, 0, 0, 0, 0xFFFF, 0, 0]) 96,
    subnet6 0x64 0xFF9B 1 48, subnet6 0x100 0 0 64, subnet6 0x2001 0 0 23, subnet6 0x2001 0xDB8 0 32,
    subnet6 0x2002 0 0 16, subnet6 0x3FFF 0 0 20, subnet6 0xFC00 0 0 7, subnet6 0xFE80 0 0 10]

def privateNetworksExceptions : List (Subnet 128) :=
  [.ofAddress (ofHextets [0x2001, 1, 0, 0, 0, 0, 0, 1]) 128,
    .ofAddress (ofHextets [0x2001, 1, 0, 0, 0, 0, 0, 2]) 128, subnet6 0x2001 3 0 32,
    subnet6 0x2001 4 0x112 48, subnet6 0x2001 0x20 0 28, subnet6 0x2001 0x30 0 28]

def reservedNetworks : List (Subnet 128) :=
  [subnet6 0 0 0 8, subnet6 0x100 0 0 8, subnet6 0x200 0 0 7, subnet6 0x400 0 0 6,
    subnet6 0x800 0 0 5, subnet6 0x1000 0 0 4, subnet6 0x4000 0 0 3, subnet6 0x6000 0 0 3,
    subnet6 0x8000 0 0 3, subnet6 0xA000 0 0 3, subnet6 0xC000 0 0 3, subnet6 0xE000 0 0 4,
    subnet6 0xF000 0 0 5, subnet6 0xF800 0 0 6, subnet6 0xFE00 0 0 9]

def ipv4Mapped (ip : BitVec 128) : Option (BitVec 32) :=
  if ip >>> 32 = 0xFFFF then some (ip.setWidth 32) else none

def isPrivate (ip : BitVec 128) : Bool :=
  match ipv4Mapped ip with
  | some ip => IPv4.isPrivate ip
  | none => privateNetworks.any (·.contains ip) && privateNetworksExceptions.all (!·.contains ip)

def isLoopback (ip : BitVec 128) : Bool :=
  match ipv4Mapped ip with
  | some ip => IPv4.isLoopback ip
  | none => ip = 1

def isLinkLocal (ip : BitVec 128) : Bool :=
  match ipv4Mapped ip with
  | some ip => IPv4.isLinkLocal ip
  | none => (subnet6 0xFE80 0 0 10).contains ip

def isReserved (ip : BitVec 128) : Bool :=
  match ipv4Mapped ip with
  | some ip => IPv4.isReserved ip
  | none => reservedNetworks.any (·.contains ip)

def isMulticast (ip : BitVec 128) : Bool :=
  match ipv4Mapped ip with
  | some ip => IPv4.isMulticast ip
  | none => (subnet6 0xFF00 0 0 8).contains ip

end IPv6

namespace Address

def isPrivate : Address → Bool
  | v4 ip => IPv4.isPrivate ip
  | v6 ip => IPv6.isPrivate ip

def isLoopback : Address → Bool
  | v4 ip => IPv4.isLoopback ip
  | v6 ip => IPv6.isLoopback ip

def isLinkLocal : Address → Bool
  | v4 ip => IPv4.isLinkLocal ip
  | v6 ip => IPv6.isLinkLocal ip

def isReserved : Address → Bool
  | v4 ip => IPv4.isReserved ip
  | v6 ip => IPv6.isReserved ip

def isMulticast : Address → Bool
  | v4 ip => IPv4.isMulticast ip
  | v6 ip => IPv6.isMulticast ip

end Address

end Ipaddress
