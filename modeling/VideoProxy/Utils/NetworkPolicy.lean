import VideoProxy.Lib.IpAddr

/-!
# Addresses that may be connected to

`is_public_ip` tells the addresses of the public network from those that lead into
a private one.  An IPv6 address that carries an IPv4 address is judged by the one
it carries.
-/

namespace VideoProxy

namespace NetworkPolicy

/-- `is_public_ipv4`. -/
def isPublicIpv4 (ip : Ipv4Addr) : Bool :=
  !(ip.isPrivate || ip.isLoopback || ip.isLinkLocal || ip.isUnspecified ||
    ip.isBroadcast || ip.isDocumentation || ip.isMulticast ||
    ip.o0 == 0 || 240 ≤ ip.o0 ||
    (ip.o0 == 100 && (64 ≤ ip.o1 && ip.o1 ≤ 127)) ||
    (ip.o0 == 198 && (ip.o1 == 18 || ip.o1 == 19)) ||
    (ip.o0 == 192 && ip.o1 == 0 && ip.o2 == 0) ||
    (ip.o0 == 192 && ip.o1 == 88 && ip.o2 == 99))

/-- The IPv4 address that two segments carry. -/
def carried (high low : UInt16) : Ipv4Addr :=
  Ipv4Addr.ofU32 (high.toUInt32 <<< 16 ||| low.toUInt32)

/-- `embedded_ipv4`. -/
def embeddedIpv4 (ip : Ipv6Addr) : Option Ipv4Addr :=
  if ip.s0 == 0x2002 then
    some (carried ip.s1 ip.s2)
  else if ip.s0 == 0x0064 && ip.s1 == 0xff9b then
    some (carried ip.s6 ip.s7)
  else if (ip.s0 == 0 && ip.s1 == 0 && ip.s2 == 0 && ip.s3 == 0 && ip.s4 == 0) &&
      (ip.s5 == 0xffff || ip.s5 == 0) then
    let v4 := carried ip.s6 ip.s7
    if !v4.isUnspecified then some v4 else none
  else none

/-- `is_public_ipv6`. -/
def isPublicIpv6 (ip : Ipv6Addr) : Bool :=
  match embeddedIpv4 ip with
  | some v4 => isPublicIpv4 v4
  | none =>
    !(ip.isLoopback || ip.isUnspecified || ip.isMulticast ||
      ip.s0 &&& 0xfe00 == 0xfc00 || ip.s0 &&& 0xffc0 == 0xfe80 ||
      (ip.s0 == 0x2001 && ip.s1 == 0x0db8) ||
      (ip.s0 == 0x2001 && ip.s1 == 0x0000) ||
      (ip.s0 == 0x2001 && ip.s1 &&& 0xfff0 == 0x0020) ||
      (ip.s0 == 0x0100 && (ip.s1 == 0 && ip.s2 == 0 && ip.s3 == 0)))

/-- `is_public_ip`. -/
def isPublicIp : IpAddr → Bool
  | .v4 ip => isPublicIpv4 ip
  | .v6 ip => isPublicIpv6 ip

/-! ## The blocks that are not public -/

/-- The blocks of IPv4 addresses that do not belong to the public network. -/
def reservedBlocks : List Ipv4Block :=
  [⟨⟨0, 0, 0, 0⟩, 8⟩, ⟨⟨10, 0, 0, 0⟩, 8⟩, ⟨⟨100, 64, 0, 0⟩, 10⟩,
    ⟨⟨127, 0, 0, 0⟩, 8⟩, ⟨⟨169, 254, 0, 0⟩, 16⟩, ⟨⟨172, 16, 0, 0⟩, 12⟩,
    ⟨⟨192, 0, 0, 0⟩, 24⟩, ⟨⟨192, 0, 2, 0⟩, 24⟩, ⟨⟨192, 88, 99, 0⟩, 24⟩,
    ⟨⟨192, 168, 0, 0⟩, 16⟩, ⟨⟨198, 18, 0, 0⟩, 15⟩, ⟨⟨198, 51, 100, 0⟩, 24⟩,
    ⟨⟨203, 0, 113, 0⟩, 24⟩, ⟨⟨224, 0, 0, 0⟩, 4⟩, ⟨⟨240, 0, 0, 0⟩, 4⟩]

/-- The address is in one of the blocks. -/
def within (blocks : List Ipv4Block) (ip : Ipv4Addr) : Bool :=
  blocks.any (·.contains ip)

section Blocks

variable (ip : Ipv4Addr)

theorem contains_private :
    Ipv4Block.contains ⟨⟨172, 16, 0, 0⟩, 12⟩ ip = (ip.o0 == 172 && 16 ≤ ip.o1 && ip.o1 ≤ 31) := by
  rw [Bool.eq_iff_iff, Ipv4Block.contains_two_iff (by decide) (by decide),
    Bool.and_eq_true, Bool.and_eq_true, beq_iff_eq, decide_eq_true_eq,
    decide_eq_true_eq, UInt8.le_iff_toNat_le, UInt8.le_iff_toNat_le, and_assoc]
  refine and_congr_right fun _ => ?_
  change _ / 16 = 1 ↔ 16 ≤ _ ∧ _ ≤ 31
  omega

theorem contains_carrier :
    Ipv4Block.contains ⟨⟨100, 64, 0, 0⟩, 10⟩ ip =
      (ip.o0 == 100 && (64 ≤ ip.o1 && ip.o1 ≤ 127)) := by
  rw [Bool.eq_iff_iff, Ipv4Block.contains_two_iff (by decide) (by decide),
    Bool.and_eq_true, Bool.and_eq_true, beq_iff_eq, decide_eq_true_eq,
    decide_eq_true_eq, UInt8.le_iff_toNat_le, UInt8.le_iff_toNat_le]
  refine and_congr_right fun _ => ?_
  change _ / 64 = 1 ↔ 64 ≤ _ ∧ _ ≤ 127
  omega

theorem contains_benchmark :
    Ipv4Block.contains ⟨⟨198, 18, 0, 0⟩, 15⟩ ip =
      (ip.o0 == 198 && (ip.o1 == 18 || ip.o1 == 19)) := by
  rw [Bool.eq_iff_iff, Ipv4Block.contains_two_iff (by decide) (by decide),
    Bool.and_eq_true, Bool.or_eq_true, beq_iff_eq, beq_iff_eq, beq_iff_eq,
    ← @UInt8.toNat_inj ip.o1 18, ← @UInt8.toNat_inj ip.o1 19]
  refine and_congr_right fun _ => ?_
  change _ / 2 = 9 ↔ _ = 18 ∨ _ = 19
  omega

theorem contains_multicast : Ipv4Block.contains ⟨⟨224, 0, 0, 0⟩, 4⟩ ip = ip.isMulticast := by
  rw [Bool.eq_iff_iff, Ipv4Block.contains_one_iff (by decide), Ipv4Addr.isMulticast,
    Bool.and_eq_true, decide_eq_true_eq, decide_eq_true_eq, UInt8.le_iff_toNat_le,
    UInt8.le_iff_toNat_le]
  change _ / 16 = 14 ↔ 224 ≤ _ ∧ _ ≤ 239
  omega

theorem contains_upper : Ipv4Block.contains ⟨⟨240, 0, 0, 0⟩, 4⟩ ip = decide (240 ≤ ip.o0) := by
  have bound := ip.o0.toNat_lt
  rw [Bool.eq_iff_iff, Ipv4Block.contains_one_iff (by decide), decide_eq_true_eq,
    UInt8.le_iff_toNat_le]
  change _ / 16 = 15 ↔ 240 ≤ _
  omega

theorem zero_or_isUnspecified : (ip.o0 == 0 || ip.isUnspecified) = (ip.o0 == 0) := by
  cases unspecified : ip.isUnspecified with
  | false => exact Bool.or_false _
  | true =>
    rw [beq_iff_eq.mp unspecified]
    rfl

theorem upper_or_isBroadcast : (decide (240 ≤ ip.o0) || ip.isBroadcast) = decide (240 ≤ ip.o0) := by
  cases broadcast : ip.isBroadcast with
  | false => exact Bool.or_false _
  | true =>
    rw [beq_iff_eq.mp broadcast]
    rfl

/-- The predicate is a table of blocks. -/
theorem isPublicIpv4_eq : isPublicIpv4 ip = !within reservedBlocks ip := by
  simp only [within, reservedBlocks, List.any_cons, List.any_nil, Bool.or_false,
    Ipv4Block.contains_eight, Ipv4Block.contains_sixteen, Ipv4Block.contains_twentyFour,
    contains_private, contains_carrier, contains_benchmark, contains_multicast, contains_upper]
  rw [← zero_or_isUnspecified, ← upper_or_isBroadcast]
  simp only [isPublicIpv4, Ipv4Addr.isPrivate, Ipv4Addr.isLoopback,
    Ipv4Addr.isLinkLocal, Ipv4Addr.isDocumentation]
  congr 1
  ac_rfl

end Blocks

end NetworkPolicy
end VideoProxy
