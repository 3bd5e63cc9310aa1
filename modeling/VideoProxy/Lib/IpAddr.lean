import Mathlib.Tactic.IntervalCases

/-!
# Addresses of the Internet protocol

Addresses of both versions, the predicates on them of a standard library, and
blocks of addresses that have their first bits in common.
-/

namespace VideoProxy

/-- `Ipv4Addr`, by its octets. -/
structure Ipv4Addr where
  o0 : UInt8
  o1 : UInt8
  o2 : UInt8
  o3 : UInt8
  deriving DecidableEq

/-- `Ipv6Addr`, by its segments. -/
structure Ipv6Addr where
  s0 : UInt16
  s1 : UInt16
  s2 : UInt16
  s3 : UInt16
  s4 : UInt16
  s5 : UInt16
  s6 : UInt16
  s7 : UInt16
  deriving DecidableEq

/-- `IpAddr`. -/
inductive IpAddr
  | v4 (ip : Ipv4Addr)
  | v6 (ip : Ipv6Addr)
  deriving DecidableEq

/-- `SocketAddr`; the flow and scope of an IPv6 address are not looked at. -/
structure SocketAddr where
  ip : IpAddr
  port : UInt16
  deriving DecidableEq

namespace Ipv4Addr

/-- `Ipv4Addr::from`, for a number. -/
def ofU32 (bits : UInt32) : Ipv4Addr where
  o0 := (bits >>> 24).toUInt8
  o1 := (bits >>> 16).toUInt8
  o2 := (bits >>> 8).toUInt8
  o3 := bits.toUInt8

/-- `Ipv4Addr::is_private`. -/
def isPrivate (ip : Ipv4Addr) : Bool :=
  ip.o0 == 10 || (ip.o0 == 172 && 16 ≤ ip.o1 && ip.o1 ≤ 31) || (ip.o0 == 192 && ip.o1 == 168)

/-- `Ipv4Addr::is_loopback`. -/
def isLoopback (ip : Ipv4Addr) : Bool :=
  ip.o0 == 127

/-- `Ipv4Addr::is_link_local`. -/
def isLinkLocal (ip : Ipv4Addr) : Bool :=
  ip.o0 == 169 && ip.o1 == 254

/-- `Ipv4Addr::is_unspecified`. -/
def isUnspecified (ip : Ipv4Addr) : Bool :=
  ip == ⟨0, 0, 0, 0⟩

/-- `Ipv4Addr::is_broadcast`. -/
def isBroadcast (ip : Ipv4Addr) : Bool :=
  ip == ⟨255, 255, 255, 255⟩

/-- `Ipv4Addr::is_documentation`. -/
def isDocumentation (ip : Ipv4Addr) : Bool :=
  (ip.o0 == 192 && ip.o1 == 0 && ip.o2 == 2) || (ip.o0 == 198 && ip.o1 == 51 && ip.o2 == 100) ||
    (ip.o0 == 203 && ip.o1 == 0 && ip.o2 == 113)

/-- `Ipv4Addr::is_multicast`. -/
def isMulticast (ip : Ipv4Addr) : Bool :=
  224 ≤ ip.o0 && ip.o0 ≤ 239

end Ipv4Addr

namespace Ipv6Addr

/-- `Ipv6Addr::is_loopback`. -/
def isLoopback (ip : Ipv6Addr) : Bool :=
  ip == ⟨0, 0, 0, 0, 0, 0, 0, 1⟩

/-- `Ipv6Addr::is_unspecified`. -/
def isUnspecified (ip : Ipv6Addr) : Bool :=
  ip == ⟨0, 0, 0, 0, 0, 0, 0, 0⟩

/-- `Ipv6Addr::is_multicast`. -/
def isMulticast (ip : Ipv6Addr) : Bool :=
  ip.s0 &&& 0xff00 == 0xff00

/-- `Ipv6Addr::is_unique_local`. -/
def isUniqueLocal (ip : Ipv6Addr) : Bool :=
  ip.s0 &&& 0xfe00 == 0xfc00

/-- `Ipv6Addr::is_unicast_link_local`. -/
def isUnicastLinkLocal (ip : Ipv6Addr) : Bool :=
  ip.s0 &&& 0xffc0 == 0xfe80

end Ipv6Addr

/-! ## Blocks -/

namespace Ipv4Addr

/-- The number of an address. -/
def toNat (ip : Ipv4Addr) : Nat :=
  ((ip.o0.toNat * 256 + ip.o1.toNat) * 256 + ip.o2.toNat) * 256 + ip.o3.toNat

end Ipv4Addr

/-- The addresses that have their first bits in common with a given one. -/
structure Ipv4Block where
  first : Ipv4Addr
  bits : Nat

namespace Ipv4Block

/-- The address is in the block. -/
def contains (block : Ipv4Block) (ip : Ipv4Addr) : Bool :=
  ip.toNat / 2 ^ (32 - block.bits) == block.first.toNat / 2 ^ (32 - block.bits)

variable {first second third : UInt8} {ip : Ipv4Addr} {more : Nat}

theorem contains_one_iff (few : more ≤ 8) :
    contains ⟨⟨first, 0, 0, 0⟩, more⟩ ip = true ↔
      ip.o0.toNat / 2 ^ (8 - more) = first.toNat / 2 ^ (8 - more) := by
  have split : 2 ^ (32 - more) = 2 ^ 24 * 2 ^ (8 - more) := by
    rw [← Nat.pow_add]
    congr 1
    omega
  have octet (ip : Ipv4Addr) : ip.toNat / 2 ^ 24 = ip.o0.toNat := by
    have bound1 := ip.o1.toNat_lt
    have bound2 := ip.o2.toNat_lt
    have bound3 := ip.o3.toNat_lt
    unfold Ipv4Addr.toNat
    omega
  rw [contains, beq_iff_eq, split, ← Nat.div_div_eq_div_mul, ← Nat.div_div_eq_div_mul, octet, octet]

/-- A block that is given by the first octet and bits of the second one. -/
theorem contains_two_iff (many : 8 ≤ more) (few : more ≤ 16) :
    contains ⟨⟨first, second, 0, 0⟩, more⟩ ip = true ↔ ip.o0 = first ∧
        ip.o1.toNat / 2 ^ (16 - more) = second.toNat / 2 ^ (16 - more) := by
  have split : 2 ^ (32 - more) = 2 ^ 16 * 2 ^ (16 - more) := by
    rw [← Nat.pow_add]
    congr 1
    omega
  have octets (ip : Ipv4Addr) :
      ip.toNat / 2 ^ 16 = ip.o0.toNat * 256 + ip.o1.toNat := by
    have bound2 := ip.o2.toNat_lt
    have bound3 := ip.o3.toNat_lt
    unfold Ipv4Addr.toNat
    omega
  rw [contains, beq_iff_eq, split, ← Nat.div_div_eq_div_mul,
    ← Nat.div_div_eq_div_mul, octets, octets, ← UInt8.toNat_inj]
  have bound := ip.o1.toNat_lt
  have boundSecond := second.toNat_lt
  dsimp only
  interval_cases more <;> omega

theorem contains_eight : contains ⟨⟨first, 0, 0, 0⟩, 8⟩ ip = (ip.o0 == first) := by
  rw [Bool.eq_iff_iff, contains_one_iff (Nat.le_refl 8), beq_iff_eq, Nat.sub_self,
    Nat.pow_zero, Nat.div_one, Nat.div_one, UInt8.toNat_inj]

theorem contains_sixteen :
    contains ⟨⟨first, second, 0, 0⟩, 16⟩ ip = (ip.o0 == first && ip.o1 == second) := by
  rw [Bool.eq_iff_iff, contains_two_iff (by decide) (Nat.le_refl 16), Bool.and_eq_true, beq_iff_eq,
    beq_iff_eq, Nat.sub_self, Nat.pow_zero, Nat.div_one, Nat.div_one, UInt8.toNat_inj]

theorem contains_twentyFour :
    contains ⟨⟨first, second, third, 0⟩, 24⟩ ip =
      (ip.o0 == first && ip.o1 == second && ip.o2 == third) := by
  have octets (ip : Ipv4Addr) : ip.toNat / 2 ^ 8 =
      (ip.o0.toNat * 256 + ip.o1.toNat) * 256 + ip.o2.toNat := by
    have bound3 := ip.o3.toNat_lt
    unfold Ipv4Addr.toNat
    omega
  have bound1 := ip.o1.toNat_lt
  have bound2 := ip.o2.toNat_lt
  have boundSecond := second.toNat_lt
  have boundThird := third.toNat_lt
  rw [Bool.eq_iff_iff, Bool.and_eq_true, Bool.and_eq_true, beq_iff_eq, beq_iff_eq,
    beq_iff_eq, contains, beq_iff_eq]
  change ip.toNat / 2 ^ 8 = Ipv4Addr.toNat _ / 2 ^ 8 ↔ _
  rw [octets, octets, ← UInt8.toNat_inj, ← UInt8.toNat_inj, ← UInt8.toNat_inj]
  dsimp only
  omega

end Ipv4Block
end VideoProxy
