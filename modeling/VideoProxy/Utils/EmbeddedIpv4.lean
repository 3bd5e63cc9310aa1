import VideoProxy.Utils.NetworkPolicy

/-!
# IPv4 addresses inside IPv6 addresses

Five layouts put an IPv4 address into an IPv6 address, each at its own place.
`embedded_ipv4` knows two places, the last two segments and the second and third
one.  An address is safe if no private address that it carries makes it pass as
public; the two ways in which that fails are the unspecified address in mapped
form, which is not extracted, and the local translation prefix, whose address is
looked for at the wrong place.
-/

namespace VideoProxy

namespace NetworkPolicy

/-- The first eight bits of a segment. -/
def upperOctet (segment : UInt16) : UInt8 :=
  (segment >>> 8).toUInt8

/-- The IPv4 address whose octets are those of two segments. -/
def joined (high low : UInt16) : Ipv4Addr :=
  ⟨upperOctet high, high.toUInt8, upperOctet low, low.toUInt8⟩

/-- The address that follows 48 bits of an IPv6 address: bits 48 to 63, then bits
72 to 87. -/
def afterFortyEight (ip : Ipv6Addr) : Ipv4Addr :=
  ⟨upperOctet ip.s3, ip.s3.toUInt8, ip.s4.toUInt8, upperOctet ip.s5⟩

/-- The prefix `64:ff9b:1::/48` for translation inside a network. -/
def LocalTranslation (ip : Ipv6Addr) : Prop :=
  ip.s0 = 0x64 ∧ ip.s1 = 0xff9b ∧ ip.s2 = 1

/-- An IPv6 address carries an IPv4 address in one of the layouts. -/
inductive Carries (ip : Ipv6Addr) : Ipv4Addr → Prop
  | mapped
      (block : ip.s0 = 0 ∧ ip.s1 = 0 ∧ ip.s2 = 0 ∧ ip.s3 = 0 ∧ ip.s4 = 0)
      (tag : ip.s5 = 0xffff) :
      Carries ip (joined ip.s6 ip.s7)
  | compatible
      (block : ip.s0 = 0 ∧ ip.s1 = 0 ∧ ip.s2 = 0 ∧ ip.s3 = 0 ∧ ip.s4 = 0)
      (tag : ip.s5 = 0)
      (specified : joined ip.s6 ip.s7 ≠ ⟨0, 0, 0, 0⟩) :
      Carries ip (joined ip.s6 ip.s7)
  | relayed
      (block : ip.s0 = 0x2002) :
      Carries ip (joined ip.s1 ip.s2)
  | translated
      (block : ip.s0 = 0x64 ∧ ip.s1 = 0xff9b)
      (zero : ip.s2 = 0 ∧ ip.s3 = 0 ∧ ip.s4 = 0 ∧ ip.s5 = 0) :
      Carries ip (joined ip.s6 ip.s7)
  | translatedLocally
      (block : LocalTranslation ip) :
      Carries ip (afterFortyEight ip)

/-- No private address that is carried makes the address pass as public. -/
def Safe (ip : Ipv6Addr) : Prop :=
  ∀ v4, Carries ip v4 → isPublicIpv6 ip = true → isPublicIpv4 v4 = true

/-- Under the local prefix, the last two segments hold a public address and the
place of the carried address a private one. -/
def Misplaced (ip : Ipv6Addr) : Prop :=
  LocalTranslation ip ∧ isPublicIpv4 (joined ip.s6 ip.s7) = true ∧
    isPublicIpv4 (afterFortyEight ip) = false

theorem carried_eq (high low : UInt16) : carried high low = joined high low := by
  unfold carried Ipv4Addr.ofU32 joined upperOctet
  congr 1
  all_goals
    apply UInt8.toBitVec_inj.mp
    apply BitVec.eq_of_getLsbD_eq
    intro place inside
  · have inUpper : 24 + place - 16 = 8 + place := by omega
    have pastLow : low.toBitVec.getLsbD (24 + place) = false :=
      BitVec.getLsbD_of_ge _ _ (by omega)
    simp [inUpper, pastLow, show 24 + place < 32 by omega, show ¬24 + place < 16 by omega]
  · simp [show 16 + place < 32 by omega, show place < 32 by omega]
  · simp [show 8 + place < 32 by omega, show 8 + place < 16 by omega]
  · simp

variable {ip : Ipv6Addr}

/-! ## What is extracted -/

theorem embeddedIpv4_relayed (block : ip.s0 = 0x2002) :
    embeddedIpv4 ip = some (joined ip.s1 ip.s2) := by
  simp [embeddedIpv4, block, carried_eq]

theorem embeddedIpv4_translated (block : ip.s0 = 0x64 ∧ ip.s1 = 0xff9b) :
    embeddedIpv4 ip = some (joined ip.s6 ip.s7) := by
  simp [embeddedIpv4, block, carried_eq]

theorem embeddedIpv4_lower (block : ip.s0 = 0 ∧ ip.s1 = 0 ∧ ip.s2 = 0 ∧ ip.s3 = 0 ∧ ip.s4 = 0)
    (tag : ip.s5 = 0xffff ∨ ip.s5 = 0) :
    embeddedIpv4 ip =
      if joined ip.s6 ip.s7 = ⟨0, 0, 0, 0⟩ then none
      else some (joined ip.s6 ip.s7) := by
  obtain ⟨zero0, zero1, zero2, zero3, zero4⟩ := block
  simp [embeddedIpv4, zero0, zero1, zero2, zero3, zero4, tag, carried_eq, Ipv4Addr.isUnspecified]

theorem isPublicIpv6_of_embedded {v4 : Ipv4Addr} (embedded : embeddedIpv4 ip = some v4) :
    isPublicIpv6 ip = isPublicIpv4 v4 := by
  rw [isPublicIpv6, embedded]

theorem segment_eq_zero {segment : UInt16} (upper : upperOctet segment = 0)
    (lower : segment.toUInt8 = 0) :
    segment = 0 := by
  have bound := segment.toNat_lt
  have upperBits := congrArg UInt8.toNat upper
  have lowerBits := congrArg UInt8.toNat lower
  simp only [upperOctet, UInt16.toNat_toUInt8, UInt16.toNat_shiftRight,
    UInt8.toNat_zero, Nat.shiftRight_eq_div_pow] at upperBits lowerBits
  apply UInt16.toNat_inj.mp
  change segment.toNat = 0
  have shifted : UInt16.toNat 8 % 16 = 8 := rfl
  rw [shifted] at upperBits
  omega

theorem segments_eq_zero {high low : UInt16} (unspecified : joined high low = ⟨0, 0, 0, 0⟩) :
    high = 0 ∧ low = 0 := by
  injection unspecified with first second third fourth
  exact ⟨segment_eq_zero first second, segment_eq_zero third fourth⟩

/-! ## Safe addresses -/

/-- The unspecified address in mapped form. -/
def mappedUnspecified : Ipv6Addr :=
  ⟨0, 0, 0, 0, 0, 0xffff, 0, 0⟩

/-- An address is safe exactly if it is neither the unspecified address in mapped
form nor one whose carried address is looked for at the wrong place. -/
theorem safe_iff (ip : Ipv6Addr) :
    Safe ip ↔ ip ≠ mappedUnspecified ∧ ¬Misplaced ip := by
  constructor
  · intro safe
    constructor
    · rintro rfl
      exact absurd (safe _ (.mapped (by decide) rfl) (by decide)) (by decide)
    · rintro ⟨block, passes, reserved⟩
      have carriesPublic := safe _ (.translatedLocally block)
        ((isPublicIpv6_of_embedded (embeddedIpv4_translated ⟨block.1, block.2.1⟩)).trans passes)
      rw [reserved] at carriesPublic
      cases carriesPublic
  · rintro ⟨specified, placed⟩ v4 carries passes
    cases carries with
    | mapped block tag =>
      have embedded := embeddedIpv4_lower block (Or.inl tag)
      split at embedded
      · rename_i unspecified
        obtain ⟨zero6, zero7⟩ := segments_eq_zero unspecified
        refine absurd ?_ specified
        cases ip
        simp only at block tag zero6 zero7
        simp only [block, tag, zero6, zero7, mappedUnspecified]
      · rw [isPublicIpv6_of_embedded embedded] at passes
        exact passes
    | compatible block tag other =>
      have embedded := embeddedIpv4_lower block (Or.inr tag)
      rw [if_neg other] at embedded
      rw [isPublicIpv6_of_embedded embedded] at passes
      exact passes
    | relayed block =>
      rw [isPublicIpv6_of_embedded (embeddedIpv4_relayed block)] at passes
      exact passes
    | translated block zero =>
      rw [isPublicIpv6_of_embedded (embeddedIpv4_translated block)] at passes
      exact passes
    | translatedLocally block =>
      rw [isPublicIpv6_of_embedded (embeddedIpv4_translated ⟨block.1, block.2.1⟩)] at passes
      cases reserved : isPublicIpv4 (afterFortyEight ip) with
      | true => rfl
      | false => exact absurd ⟨block, passes, reserved⟩ placed

/-- `64:ff9b:1:a00:0:100:808:808` carries `10.0.0.1` and passes as public, since
its last segments read `8.8.8.8`. -/
theorem private_target_public :
    Carries ⟨0x64, 0xff9b, 1, 0x0a00, 0, 0x0100, 0x0808, 0x0808⟩ ⟨10, 0, 0, 1⟩ ∧
      isPublicIpv6 ⟨0x64, 0xff9b, 1, 0x0a00, 0, 0x0100, 0x0808, 0x0808⟩ = true ∧
      isPublicIpv4 ⟨10, 0, 0, 1⟩ = false :=
  ⟨.translatedLocally ⟨rfl, rfl, rfl⟩, by decide, by decide⟩

end NetworkPolicy
end VideoProxy
