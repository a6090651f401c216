import Verdix.Lib.Ipaddress
import Verdix.Lib.Split

/-!
# Reading a network

Python's `ip_network(s, strict=False)` for a text: an address, and behind a `/` the length of the
prefix or, for version 4, a netmask or a hostmask.  The zone of a version 6 address is not kept.

A text that is read holds nothing but the characters of addresses, apart from a zone, which begins
with a `%` (`isAddressChar_of_ipNetwork`).
-/

namespace Ipaddress

/-- `_split_optional_netmask`. -/
def splitOptionalNetmask (s : List Char) : Option (List Char × Option (List Char)) :=
  match s.splitOn '/' with
  | [addr] => some (addr, none)
  | [addr, mask] => some (addr, some mask)
  | _ => none

/-- `_prefix_from_prefix_string`; `int` reads 4300 digits at most. -/
def prefixFromPrefixString (maxPrefixlen : ℕ) (s : List Char) : Option ℕ :=
  let prefixlen := s.foldl (fun n c => 10 * n + (c.toNat - '0'.toNat)) 0
  if s ≠ [] ∧ s.all Char.isDigit ∧ s.length ≤ 4300 ∧ prefixlen ≤ maxPrefixlen then
    some prefixlen
  else
    none

/-- `_prefix_from_ip_int`. -/
def prefixFromIpInt (ip : BitVec 32) : Option ℕ :=
  (List.range 33).find? fun prefixlen => netmask 32 prefixlen = ip

/-- `_prefix_from_ip_string`: a netmask, or else a hostmask. -/
def prefixFromIpString (s : List Char) : Option ℕ :=
  (ipv4Address s).bind fun ip => prefixFromIpInt ip <|> prefixFromIpInt (~~~ip)

/-- `_make_netmask` of version 4: without a mask, the address alone. -/
def ipv4Prefixlen : Option (List Char) → Option ℕ
  | none => some 32
  | some mask => prefixFromPrefixString 32 mask <|> prefixFromIpString mask

/-- `_make_netmask` of version 6. -/
def ipv6Prefixlen : Option (List Char) → Option ℕ
  | none => some 128
  | some mask => prefixFromPrefixString 128 mask

/-- `IPv4Network(s, strict=False)`. -/
def ipv4Network (s : List Char) : Option (Subnet 32) := do
  let (addr, mask) ← splitOptionalNetmask s
  let ip ← ipv4Address addr
  let prefixlen ← ipv4Prefixlen mask
  return .ofAddress ip prefixlen

/-- `IPv6Network(s, strict=False)`. -/
def ipv6Network (s : List Char) : Option (Subnet 128) := do
  let (addr, mask) ← splitOptionalNetmask s
  let ip ← ipv6Address addr
  let prefixlen ← ipv6Prefixlen mask
  return .ofAddress ip prefixlen

/-- `ip_network(s, strict=False)`, `none` for its `ValueError`. -/
def ipNetwork (s : List Char) : Option Network :=
  (ipv4Network s).map .v4 <|> (ipv6Network s).map .v6

/-! ### The characters of a network -/

/-- A hexadecimal digit, or one of the marks `.`, `:` and `/`. -/
def IsAddressChar (c : Char) : Prop := (Json.hexValue c).isSome ∨ c = '.' ∨ c = ':' ∨ c = '/'

instance (c : Char) : Decidable (IsAddressChar c) :=
  inferInstanceAs (Decidable (_ ∨ _))

theorem isAddressChar_of_isDigit {c : Char} (h : c.isDigit) : IsAddressChar c := by
  have hdigit : '0' ≤ c ∧ c ≤ '9' := by
    rw [Char.isDigit, Bool.and_eq_true, decide_eq_true_iff, decide_eq_true_iff] at h
    exact h
  left
  rw [Json.hexValue, if_pos hdigit, Option.isSome_some]

/-- A text that is split at an address character, and read piece by piece. -/
theorem isAddressChar_of_splitOn {sep : Char} {s : List Char} (hsep : IsAddressChar sep)
    (h : ∀ part ∈ s.splitOn sep, ∀ c ∈ part, IsAddressChar c) : ∀ c ∈ s, IsAddressChar c := by
  intro c hc
  rcases Split.eq_or_mem_splitOn (a := sep) hc with rfl | ⟨part, hpart, hc⟩
  · exact hsep
  · exact h part hpart c hc

theorem isSome_of_mapM {α β : Type} {f : α → Option β} {l : List α} {r : List β}
    (h : l.mapM f = some r) : ∀ a ∈ l, (f a).isSome := by
  induction l generalizing r with
  | nil => simp
  | cons b l ih =>
    rw [List.mapM_cons] at h
    cases hb : f b with
    | none => simp [hb] at h
    | some v =>
      cases hl : l.mapM f with
      | none => simp [hb, hl] at h
      | some vs =>
        rw [List.forall_mem_cons]
        exact ⟨by rw [hb, Option.isSome_some], ih hl⟩

theorem isAddressChar_of_parseOctet {octet : List Char} (h : (parseOctet octet).isSome) :
    ∀ c ∈ octet, IsAddressChar c := by
  unfold parseOctet at h
  dsimp only at h
  split at h
  · rename_i hoctet
    intro c hc
    exact isAddressChar_of_isDigit (List.all_eq_true.mp hoctet.2.1 c hc)
  · cases h

/-- An IPv4 address holds such characters only. -/
theorem isAddressChar_of_ipv4Address {s : List Char} (h : (ipv4Address s).isSome) :
    ∀ c ∈ s, IsAddressChar c := by
  unfold ipv4Address at h
  split at h
  · rename_i hparts
    apply isAddressChar_of_splitOn (by decide : IsAddressChar '.')
    intro part hpart
    exact isAddressChar_of_parseOctet (isSome_of_mapM hparts part hpart)
  · cases h

theorem isAddressChar_of_parseHextet {hextet : List Char} (h : (parseHextet hextet).isSome) :
    ∀ c ∈ hextet, IsAddressChar c := by
  have hdigits : ∀ (l : List Char) (n : ℕ),
      (l.foldlM (fun n c => (Json.hexValue c).map (16 * n + ·)) n).isSome →
        ∀ c ∈ l, IsAddressChar c := by
    intro l
    induction l with
    | nil => simp
    | cons d l ih =>
      intro n hl
      rw [List.foldlM_cons] at hl
      cases hd : Json.hexValue d with
      | none => simp [hd] at hl
      | some v =>
        rw [List.forall_mem_cons]
        refine ⟨.inl (by rw [hd, Option.isSome_some]), ih (16 * n + v) ?_⟩
        simpa [hd] using hl
  unfold parseHextet at h
  split at h
  · exact hdigits hextet 0 h
  · cases h

/-- A dotted last part is read as a version 4 address, and the other parts stay. -/
theorem splitDotted_parts {parts dotted : List (List Char)} (h : splitDotted parts = some dotted) :
    ∀ part ∈ parts, part ∈ dotted ∨ ∀ c ∈ part, IsAddressChar c := by
  unfold splitDotted at h
  dsimp only at h
  intro part hpart
  split at h
  · cases hip : ipv4Address (parts.getLastD []) with
    | none =>
      rw [hip] at h
      cases h
    | some ip =>
      rw [hip] at h
      obtain rfl := Option.some.inj h
      have hne : parts ≠ [] := List.ne_nil_of_mem hpart
      rw [← List.dropLast_append_getLast hne, List.mem_append, List.mem_singleton] at hpart
      rcases hpart with hpart | hpart
      · exact .inl (List.mem_append_left _ hpart)
      · right
        have hlast : parts.getLastD [] = part := by
          rw [List.getLastD_eq_getLast?, List.getLast?_eq_some_getLast hne, Option.getD_some, hpart]
        apply isAddressChar_of_ipv4Address
        rw [← hlast, hip, Option.isSome_some]
  · obtain rfl := Option.some.inj h
    exact .inl hpart

theorem getElem?_of_mem_skips {parts : List (List Char)} {i : ℕ} (h : i ∈ skips parts) :
    parts[i]? = some [] := by
  have hskip := (List.mem_filter.mp h).2
  exact (of_decide_eq_true hskip).2

/-- The parts before a `::` or behind it; one empty part alone is read as none. -/
theorem isAddressChar_of_side {parts : List (List Char)} {hextets : List ℕ}
    (h : (if parts = [[]] then [] else parts).mapM parseHextet = some hextets) :
    ∀ part ∈ parts, ∀ c ∈ part, IsAddressChar c := by
  split at h
  · rename_i hempty
    rw [hempty]
    simp
  · intro part hpart
    exact isAddressChar_of_parseHextet (isSome_of_mapM h part hpart)

/-- So does an IPv6 address without a zone. -/
theorem isAddressChar_of_ipv6FromString {s : List Char} (h : (ipv6FromString s).isSome) :
    ∀ c ∈ s, IsAddressChar c := by
  obtain ⟨ip, hip⟩ := Option.isSome_iff_exists.mp h
  rw [ipv6FromString] at hip
  simp only [Option.bind_eq_bind, Option.bind_eq_some_iff] at hip
  obtain ⟨-, -, dotted, hdotted, -, -, hskips⟩ := hip
  have hparts : ∀ part ∈ dotted, ∀ c ∈ part, IsAddressChar c := by
    split at hskips
    · -- eight hextets
      simp only [Option.bind_eq_some_iff] at hskips
      obtain ⟨-, -, hextets, hread, -⟩ := hskips
      intro part hpart
      exact isAddressChar_of_parseHextet (isSome_of_mapM hread part hpart)
    · rename_i skip hskip
      simp only [Option.bind_eq_some_iff] at hskips
      obtain ⟨-, -, high, hhigh, low, hlow, -⟩ := hskips
      have hmid : dotted[skip]? = some [] := getElem?_of_mem_skips (by rw [hskip]; simp)
      have hsplit : dotted = dotted.take skip ++ [] :: dotted.drop (skip + 1) := by
        obtain ⟨hlt, hget⟩ := List.getElem?_eq_some_iff.mp hmid
        rw [← hget, List.getElem_cons_drop, List.take_append_drop]
      intro part hpart
      rw [hsplit, List.mem_append, List.mem_cons] at hpart
      rcases hpart with hpart | rfl | hpart
      · exact isAddressChar_of_side hhigh part hpart
      · simp
      · exact isAddressChar_of_side hlow part hpart
    · cases hskips
  apply isAddressChar_of_splitOn (by decide : IsAddressChar ':')
  intro part hpart
  rcases splitDotted_parts hdotted part hpart with hpart | hchars
  · exact hparts part hpart
  · exact hchars

theorem isAddressChar_of_ipv6Address {s : List Char} (hzone : '%' ∉ s)
    (h : (ipv6Address s).isSome) : ∀ c ∈ s, IsAddressChar c := by
  unfold ipv6Address at h
  split at h
  · cases h
  · rw [splitScopeId, List.splitOn_eq_singleton hzone] at h
    exact isAddressChar_of_ipv6FromString h

theorem isAddressChar_of_prefixFromPrefixString {maxPrefixlen : ℕ} {s : List Char}
    (h : (prefixFromPrefixString maxPrefixlen s).isSome) : ∀ c ∈ s, IsAddressChar c := by
  unfold prefixFromPrefixString at h
  dsimp only at h
  split at h
  · rename_i hdigits
    intro c hc
    exact isAddressChar_of_isDigit (List.all_eq_true.mp hdigits.2.1 c hc)
  · cases h

/-- An address alone, or an address and what is behind a `/`. -/
theorem splitOptionalNetmask_chars {s addr : List Char} {mask : Option (List Char)}
    (h : splitOptionalNetmask s = some (addr, mask)) (haddr : ∀ c ∈ addr, IsAddressChar c)
    (hmask : ∀ m ∈ mask, ∀ c ∈ m, IsAddressChar c) : ∀ c ∈ s, IsAddressChar c := by
  apply isAddressChar_of_splitOn (by decide : IsAddressChar '/')
  unfold splitOptionalNetmask at h
  split at h
  · rename_i hsplit
    cases h
    rw [hsplit]
    simpa using haddr
  · rename_i hsplit
    cases h
    rw [hsplit]
    simpa using ⟨haddr, hmask _ rfl⟩
  · cases h

theorem splitOptionalNetmask_subset {s addr : List Char} {mask : Option (List Char)}
    (h : splitOptionalNetmask s = some (addr, mask)) : ∀ c ∈ addr, c ∈ s := by
  have hmem : addr ∈ s.splitOn '/' := by
    unfold splitOptionalNetmask at h
    split at h
    · rename_i hsplit
      cases h
      simp [hsplit]
    · rename_i hsplit
      cases h
      simp [hsplit]
    · cases h
  exact (Split.mem_splitOn hmem).2

/-- An IPv4 network holds no others, its mask included. -/
theorem isAddressChar_of_ipv4Network {s : List Char} (h : (ipv4Network s).isSome) :
    ∀ c ∈ s, IsAddressChar c := by
  obtain ⟨net, hnet⟩ := Option.isSome_iff_exists.mp h
  simp only [ipv4Network, Option.bind_eq_bind, Option.bind_eq_some_iff, Prod.exists] at hnet
  obtain ⟨addr, mask, hsplit, ip, hip, prefixlen, hmask, -⟩ := hnet
  have haddr : (ipv4Address addr).isSome := by rw [hip, Option.isSome_some]
  apply splitOptionalNetmask_chars hsplit (isAddressChar_of_ipv4Address haddr)
  intro m hm
  obtain rfl := Option.mem_def.mp hm
  cases hlength : prefixFromPrefixString 32 m with
  | some n => exact isAddressChar_of_prefixFromPrefixString (by rw [hlength, Option.isSome_some])
  | none =>
    -- the mask is written like an address
    rw [ipv4Prefixlen, hlength] at hmask
    obtain ⟨quad, hquad, -⟩ := Option.bind_eq_some_iff.mp hmask
    exact isAddressChar_of_ipv4Address (by rw [hquad, Option.isSome_some])

/-- Nor does an IPv6 network without a zone. -/
theorem isAddressChar_of_ipv6Network {s : List Char} (hzone : '%' ∉ s)
    (h : (ipv6Network s).isSome) : ∀ c ∈ s, IsAddressChar c := by
  obtain ⟨net, hnet⟩ := Option.isSome_iff_exists.mp h
  simp only [ipv6Network, Option.bind_eq_bind, Option.bind_eq_some_iff, Prod.exists] at hnet
  obtain ⟨addr, mask, hsplit, ip, hip, prefixlen, hmask, -⟩ := hnet
  have haddr : (ipv6Address addr).isSome := by rw [hip, Option.isSome_some]
  have haddrZone : '%' ∉ addr := fun hmem => hzone (splitOptionalNetmask_subset hsplit _ hmem)
  apply splitOptionalNetmask_chars hsplit (isAddressChar_of_ipv6Address haddrZone haddr)
  intro m hm
  obtain rfl := Option.mem_def.mp hm
  rw [ipv6Prefixlen] at hmask
  exact isAddressChar_of_prefixFromPrefixString (by rw [hmask, Option.isSome_some])

/-- A text without a zone that is read as a network. -/
theorem isAddressChar_of_ipNetwork {s : List Char} (hzone : '%' ∉ s) (h : (ipNetwork s).isSome) :
    ∀ c ∈ s, IsAddressChar c := by
  rw [ipNetwork] at h
  cases h4 : ipv4Network s with
  | some net => exact isAddressChar_of_ipv4Network (by rw [h4, Option.isSome_some])
  | none =>
    rw [h4] at h
    apply isAddressChar_of_ipv6Network hzone
    simpa using h

example : ipNetwork "172.16.3.4/12".toList = some (.v4 (subnet4 172 16 0 0 12)) := rfl

end Ipaddress
