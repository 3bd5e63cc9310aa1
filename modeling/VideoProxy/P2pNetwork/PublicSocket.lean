import VideoProxy.Utils.Error
import VideoProxy.Utils.NetworkPolicy

/-!
# Sockets of the peer-to-peer network

Trackers, nodes of the hash table and peers are connected to by address.
`is_public_socket` judges the address by a list of its own, which leaves out blocks
that `is_public_ip` has, and does not look at an IPv4 address that an IPv6 address
carries.
-/

namespace VideoProxy
namespace P2pNetwork

open NetworkPolicy

/-- The addresses that `is_public_socket` accepts. -/
def acceptsIp : IpAddr → Bool
  | .v4 ip =>
    !(ip.isPrivate || ip.isLoopback || ip.isLinkLocal || ip.isBroadcast ||
      ip.isUnspecified || ip.isMulticast || ip.o0 == 0)
  | .v6 ip =>
    !(ip.isLoopback || ip.isUnspecified || ip.isMulticast ||
      ip.isUniqueLocal || ip.isUnicastLinkLocal)

/-- `is_public_socket`, without `allow-private-upstream`. -/
def isPublicSocket (address : SocketAddr) : Bool :=
  if address.port == 0 then false else acceptsIp address.ip

/-- The check before anything is sent. -/
def requirePublic (refusal : String) (target : SocketAddr) : Except ProxyError Unit :=
  if !isPublicSocket target then .error (.request refusal) else .ok ()

/-- The check of `send_dht_udp_query`. -/
def dhtTarget : SocketAddr → Except ProxyError Unit :=
  requirePublic "DHT target must be a public address"

/-- The check of `announce_udp_tracker`. -/
def trackerTarget : SocketAddr → Except ProxyError Unit :=
  requirePublic "UDP tracker must be a public address"

/-- The check of `PeerConnection::connect`. -/
def peerTarget : SocketAddr → Except ProxyError Unit :=
  requirePublic "peer target must be a public address"

/-! ## IPv4 addresses -/

/-- The blocks that are refused. -/
def refusedBlocks : List Ipv4Block :=
  [⟨⟨0, 0, 0, 0⟩, 8⟩, ⟨⟨10, 0, 0, 0⟩, 8⟩, ⟨⟨127, 0, 0, 0⟩, 8⟩,
    ⟨⟨169, 254, 0, 0⟩, 16⟩, ⟨⟨172, 16, 0, 0⟩, 12⟩, ⟨⟨192, 168, 0, 0⟩, 16⟩,
    ⟨⟨224, 0, 0, 0⟩, 4⟩]

/-- The blocks that only `is_public_ip` has. -/
def overlookedBlocks : List Ipv4Block :=
  [⟨⟨100, 64, 0, 0⟩, 10⟩, ⟨⟨192, 0, 0, 0⟩, 24⟩, ⟨⟨192, 0, 2, 0⟩, 24⟩,
    ⟨⟨192, 88, 99, 0⟩, 24⟩, ⟨⟨198, 18, 0, 0⟩, 15⟩, ⟨⟨198, 51, 100, 0⟩, 24⟩,
    ⟨⟨203, 0, 113, 0⟩, 24⟩, ⟨⟨240, 0, 0, 0⟩, 4⟩]

section Blocks

variable (ip : Ipv4Addr)

theorem acceptsIp_v4_eq : acceptsIp (.v4 ip) = !(within refusedBlocks ip || ip.isBroadcast) := by
  simp only [within, refusedBlocks, List.any_cons, List.any_nil, Bool.or_false,
    Ipv4Block.contains_eight, Ipv4Block.contains_sixteen, contains_private, contains_multicast]
  rw [← zero_or_isUnspecified]
  simp only [acceptsIp, Ipv4Addr.isPrivate, Ipv4Addr.isLoopback, Ipv4Addr.isLinkLocal]
  congr 1
  ac_rfl

theorem within_reservedBlocks :
    within reservedBlocks ip = (within refusedBlocks ip || within overlookedBlocks ip) := by
  simp only [within, reservedBlocks, refusedBlocks, overlookedBlocks,
    List.any_cons, List.any_nil, Bool.or_false]
  ac_rfl

variable {ip}

theorem not_refused_of_overlooked (overlooked : within overlookedBlocks ip = true) :
    within refusedBlocks ip = false := by
  rw [← Bool.not_eq_true]
  intro refused
  simp only [within, refusedBlocks, List.any_cons, List.any_nil, Bool.or_false,
    Ipv4Block.contains_eight, Ipv4Block.contains_sixteen, contains_private, contains_multicast,
    Ipv4Addr.isMulticast, Bool.or_eq_true, Bool.and_eq_true, beq_iff_eq, decide_eq_true_eq, ←
    UInt8.toNat_inj, UInt8.le_iff_toNat_le, UInt8.reduceToNat] at refused
  simp only [within, overlookedBlocks, List.any_cons, List.any_nil, Bool.or_false,
    Ipv4Block.contains_twentyFour, contains_carrier, contains_benchmark, contains_upper,
    Bool.or_eq_true, Bool.and_eq_true, beq_iff_eq, decide_eq_true_eq, ← UInt8.toNat_inj,
    UInt8.le_iff_toNat_le, UInt8.reduceToNat] at overlooked
  omega

end Blocks

/-! ## IPv6 addresses -/

/-- The blocks that only `is_public_ipv6` has: for documentation, of tunnels, of
identifiers and for what is discarded. -/
def unlistedIpv6 (ip : Ipv6Addr) : Bool :=
  (ip.s0 == 0x2001 && ip.s1 == 0x0db8) || (ip.s0 == 0x2001 && ip.s1 == 0x0000) ||
    (ip.s0 == 0x2001 && ip.s1 &&& 0xfff0 == 0x0020) ||
    (ip.s0 == 0x0100 && (ip.s1 == 0 && ip.s2 == 0 && ip.s3 == 0))

section Ipv6

variable {ip : Ipv6Addr}

theorem acceptsIp_v6_of_first (single : ip.isUnspecified = false)
    (first : (ip.s0 &&& 0xff00 == 0xff00 || ip.s0 &&& 0xfe00 == 0xfc00 ||
      ip.s0 &&& 0xffc0 == 0xfe80) = false) :
    acceptsIp (.v6 ip) = !ip.isLoopback := by
  simp only [Bool.or_eq_false_iff] at first
  simp only [acceptsIp, single, Ipv6Addr.isMulticast, Ipv6Addr.isUniqueLocal,
    Ipv6Addr.isUnicastLinkLocal, first, Bool.or_false]

theorem ne_zero_of_first (first : ip.s0 ≠ 0) (last : UInt16) :
    (ip == ⟨0, 0, 0, 0, 0, 0, 0, last⟩) = false := by
  refine beq_eq_false_iff_ne.mpr fun zero => first ?_
  rw [zero]

/-- An address that carries another one is accepted. -/
theorem acceptsIp_of_embedded {v4 : Ipv4Addr} (embedded : embeddedIpv4 ip = some v4) :
    acceptsIp (.v6 ip) = !ip.isLoopback := by
  have single : ip.isUnspecified = false := by
    refine beq_eq_false_iff_ne.mpr fun zero => ?_
    have nothing : embeddedIpv4 ⟨0, 0, 0, 0, 0, 0, 0, 0⟩ = none := by decide
    rw [zero, nothing] at embedded
    cases embedded
  apply acceptsIp_v6_of_first single
  unfold embeddedIpv4 at embedded
  split at embedded
  · rename_i relayed
    rw [beq_iff_eq.mp relayed]
    decide
  · split at embedded
    · rename_i translated
      rw [beq_iff_eq.mp (Bool.and_eq_true_iff.mp translated).1]
      decide
    · split at embedded
      · rename_i mapped
        simp only [Bool.and_eq_true, beq_iff_eq] at mapped
        rw [mapped.1.1.1.1.1]
        decide
      · cases embedded

theorem isPublicIpv6_of_plain (plain : embeddedIpv4 ip = none) :
    isPublicIpv6 ip = (acceptsIp (.v6 ip) && !unlistedIpv6 ip) := by
  simp only [isPublicIpv6, plain, acceptsIp, unlistedIpv6, Ipv6Addr.isUniqueLocal,
    Ipv6Addr.isUnicastLinkLocal, Bool.not_or]
  ac_rfl

theorem acceptsIp_of_unlistedIpv6 (unlisted : unlistedIpv6 ip = true) :
    acceptsIp (.v6 ip) = true ∧ ip.isLoopback = false := by
  have first : ip.s0 = 0x2001 ∨ ip.s0 = 0x0100 := by
    simp only [unlistedIpv6, Bool.or_eq_true, Bool.and_eq_true, beq_iff_eq] at unlisted
    rcases unlisted with ((found | found) | found) | found
    · exact .inl found.1
    · exact .inl found.1
    · exact .inl found.1
    · exact .inr found.1
  have nonzero : ip.s0 ≠ 0 := by
    rcases first with same | same
    · rw [same]
      decide
    · rw [same]
      decide
  have other : ip.isLoopback = false := ne_zero_of_first nonzero 1
  refine ⟨?_, other⟩
  rw [acceptsIp_v6_of_first (ne_zero_of_first nonzero 0), other]
  · rfl
  · rcases first with same | same
    · rw [same]
      decide
    · rw [same]
      decide

end Ipv6

/-! ## The two rules -/

/-- The address is in a block that is overlooked, or carries an address in a
reserved block. -/
def overlooked : IpAddr → Bool
  | .v4 ip => within overlookedBlocks ip && !ip.isBroadcast
  | .v6 ip =>
    match embeddedIpv4 ip with
    | some v4 => within reservedBlocks v4 && !ip.isLoopback
    | none => unlistedIpv6 ip

/-- An address is accepted that is not public just if it is overlooked. -/
theorem accepts_not_public_iff (ip : IpAddr) :
    acceptsIp ip = true ∧ isPublicIp ip = false ↔ overlooked ip = true := by
  cases ip with
  | v4 ip =>
    simp only [isPublicIp, overlooked, acceptsIp_v4_eq, isPublicIpv4_eq,
      within_reservedBlocks, Bool.not_eq_false', Bool.or_eq_true,
      Bool.not_eq_true', Bool.or_eq_false_iff, Bool.and_eq_true]
    constructor
    · rintro ⟨⟨accepted, single⟩, refused | found⟩
      · rw [accepted] at refused
        cases refused
      · exact ⟨found, single⟩
    · rintro ⟨found, single⟩
      exact ⟨⟨not_refused_of_overlooked found, single⟩, .inr found⟩
  | v6 ip =>
    cases embedded : embeddedIpv4 ip with
    | some v4 =>
      simp only [isPublicIp, isPublicIpv6, overlooked, embedded, acceptsIp_of_embedded embedded,
        isPublicIpv4_eq, Bool.not_eq_false', Bool.and_eq_true]
      exact And.comm
    | none =>
      simp only [isPublicIp, overlooked, embedded, isPublicIpv6_of_plain embedded]
      constructor
      · rintro ⟨accepted, refused⟩
        rw [accepted, Bool.true_and, Bool.not_eq_false'] at refused
        exact refused
      · intro unlisted
        rw [(acceptsIp_of_unlistedIpv6 unlisted).1, unlisted]
        exact ⟨rfl, rfl⟩

/-- A socket that may be connected to has a public address just if its address is
not overlooked. -/
theorem public_socket_public_iff (address : SocketAddr) :
    (isPublicSocket address = true → isPublicIp address.ip = true) ↔
      address.port = 0 ∨ overlooked address.ip = false := by
  rw [← Bool.not_eq_true, ← accepts_not_public_iff, isPublicSocket]
  by_cases closed : address.port = 0
  · simp [closed]
  · simp [closed]

/-- The local host may be connected to by an address that carries its own, and so
may an address behind the NAT of a carrier. -/
theorem local_host_accepted :
    let mapped : SocketAddr :=
      { ip := .v6 ⟨0, 0, 0, 0, 0, 0xffff, 0x7f00, 1⟩, port := 6881 }
    let shared : SocketAddr := { ip := .v4 ⟨100, 64, 0, 1⟩, port := 6881 }
    (isPublicSocket mapped = true ∧ peerTarget mapped = .ok () ∧ isPublicIp mapped.ip = false) ∧
    (isPublicSocket shared = true ∧ dhtTarget shared = .ok () ∧
      trackerTarget shared = .ok () ∧ isPublicIp shared.ip = false) := by
  decide

end P2pNetwork
end VideoProxy
