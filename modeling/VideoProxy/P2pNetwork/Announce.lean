import VideoProxy.Lib.BigEndian

/-!
# Announces to UDP trackers

An announce is thirteen big-endian fields at fixed offsets of a packet of 98 bytes.
The encoder writes them one after another into zeros.  A decoder of the layout
gives back every field but one: an absent `numwant` is widened from sixteen bits
and goes out as 65535.
-/

namespace VideoProxy
namespace P2pNetwork

/-- `TrackerAnnounce`. -/
structure TrackerAnnounce where
  infoHash : Vector UInt8 20
  peerId : Vector UInt8 20
  port : UInt16
  uploaded : UInt64
  downloaded : UInt64
  left : UInt64
  numwant : Option UInt16
deriving DecidableEq

/-- `UDP_ACTION_ANNOUNCE`. -/
def udpActionAnnounce : UInt32 := 1

/-- `output[offset..offset + bytes.len()].copy_from_slice(bytes)`. -/
def copyFromSlice (offset : Nat) (bytes output : List UInt8) : List UInt8 :=
  output.take offset ++ bytes ++ output.drop (offset + bytes.length)

/-- `encode_udp_announce_request`; `-1i16 as u16` is 65535. -/
def encodeUdpAnnounceRequest (connectionId : UInt64) (transactionId : UInt32)
    (request : TrackerAnnounce) : List UInt8 :=
  List.replicate 98 0
    |> copyFromSlice 0 (u64ToBe connectionId)
    |> copyFromSlice 8 (u32ToBe udpActionAnnounce)
    |> copyFromSlice 12 (u32ToBe transactionId)
    |> copyFromSlice 16 request.infoHash.toList
    |> copyFromSlice 36 request.peerId.toList
    |> copyFromSlice 56 (u64ToBe request.downloaded)
    |> copyFromSlice 64 (u64ToBe request.left)
    |> copyFromSlice 72 (u64ToBe request.uploaded)
    |> copyFromSlice 80 (u32ToBe 0)
    |> copyFromSlice 84 (u32ToBe 0)
    |> copyFromSlice 88 (u32ToBe 0)
    |> copyFromSlice 92 (u32ToBe (request.numwant.getD 65535).toUInt32)
    |> copyFromSlice 96 (u16ToBe request.port)

/-! ## The layout of the protocol -/

/-- The fields of an announce packet. -/
structure AnnouncePacket where
  connectionId : UInt64
  action : UInt32
  transactionId : UInt32
  infoHash : List UInt8
  peerId : List UInt8
  downloaded : UInt64
  left : UInt64
  uploaded : UInt64
  event : UInt32
  ipAddress : UInt32
  key : UInt32
  numwant : UInt32
  port : UInt16
deriving DecidableEq

/-- The bytes of a field. -/
def fieldAt (offset width : Nat) (packet : List UInt8) : List UInt8 :=
  (packet.drop offset).take width

/-- A decoder of the announce layout. -/
def decodeAnnounce (packet : List UInt8) : AnnouncePacket where
  connectionId := u64FromBe (fieldAt 0 8 packet)
  action := u32FromBe (fieldAt 8 4 packet)
  transactionId := u32FromBe (fieldAt 12 4 packet)
  infoHash := fieldAt 16 20 packet
  peerId := fieldAt 36 20 packet
  downloaded := u64FromBe (fieldAt 56 8 packet)
  left := u64FromBe (fieldAt 64 8 packet)
  uploaded := u64FromBe (fieldAt 72 8 packet)
  event := u32FromBe (fieldAt 80 4 packet)
  ipAddress := u32FromBe (fieldAt 84 4 packet)
  key := u32FromBe (fieldAt 88 4 packet)
  numwant := u32FromBe (fieldAt 92 4 packet)
  port := u16FromBe (fieldAt 96 2 packet)

/-- The fields of a request, with what stands for the number of wanted peers. -/
def TrackerAnnounce.packet (request : TrackerAnnounce) (connectionId : UInt64)
    (transactionId numwant : UInt32) : AnnouncePacket where
  connectionId := connectionId
  action := udpActionAnnounce
  transactionId := transactionId
  infoHash := request.infoHash.toList
  peerId := request.peerId.toList
  downloaded := request.downloaded
  left := request.left
  uploaded := request.uploaded
  event := 0
  ipAddress := 0
  key := 0
  numwant := numwant
  port := request.port

/-- The number of wanted peers as the protocol has it: -1 if there is none. -/
def TrackerAnnounce.protocolNumwant (request : TrackerAnnounce) : UInt32 :=
  match request.numwant with
  | some numwant => numwant.toUInt32
  | none => 0xFFFFFFFF

/-! ## What the encoder writes -/

theorem copyFromSlice_zeros {offset : Nat} {written bytes : List UInt8} (free : Nat)
    (here : written.length = offset) :
    copyFromSlice offset bytes (written ++ List.replicate free 0) =
      (written ++ bytes) ++ List.replicate (free - bytes.length) 0 := by
  subst here
  rw [copyFromSlice, List.take_left, List.drop_append, List.drop_eq_nil_of_le (Nat.le_add_right _
    _), Nat.add_sub_cancel_left, List.drop_replicate, List.nil_append]

/-- The fields follow each other and fill the packet. -/
theorem encodeUdpAnnounceRequest_eq (connectionId : UInt64) (transactionId : UInt32)
    (request : TrackerAnnounce) :
    encodeUdpAnnounceRequest connectionId transactionId request =
      [u64ToBe connectionId, u32ToBe udpActionAnnounce, u32ToBe transactionId,
        request.infoHash.toList, request.peerId.toList, u64ToBe request.downloaded,
        u64ToBe request.left, u64ToBe request.uploaded, u32ToBe 0, u32ToBe 0, u32ToBe 0,
        u32ToBe (request.numwant.getD 65535).toUInt32, u16ToBe request.port].flatten := by
  unfold encodeUdpAnnounceRequest
  rw [← List.nil_append (List.replicate 98 0)]
  simp (disch := simp) only [copyFromSlice_zeros]
  simp

theorem fieldAt_head {width : Nat} {bytes : List UInt8} (rest : List UInt8)
    (wide : bytes.length = width) :
    fieldAt 0 width (bytes ++ rest) = bytes := by
  rw [fieldAt, List.drop_zero, List.take_left' wide]

theorem fieldAt_tail {offset : Nat} {bytes : List UInt8} (width : Nat) (rest : List UInt8)
    (before : bytes.length ≤ offset) :
    fieldAt offset width (bytes ++ rest) = fieldAt (offset - bytes.length) width rest := by
  rw [fieldAt, List.drop_append, List.drop_eq_nil_of_le before, List.nil_append, fieldAt]

theorem decodeAnnounce_encode (connectionId : UInt64) (transactionId : UInt32)
    (request : TrackerAnnounce) :
    decodeAnnounce (encodeUdpAnnounceRequest connectionId transactionId request) =
      request.packet connectionId transactionId (request.numwant.getD 65535).toUInt32 := by
  rw [encodeUdpAnnounceRequest_eq, decodeAnnounce, TrackerAnnounce.packet]
  simp (disch := simp) only [List.flatten_cons, fieldAt_head, fieldAt_tail, length_u64ToBe,
    length_u32ToBe, Vector.length_toList, Nat.reduceSub, u64FromBe_u64ToBe, u32FromBe_u32ToBe,
    u16FromBe_u16ToBe]

/-- The decoder gives back every field of an announce exactly when the number of
wanted peers is given, and two encodings are equal exactly when the announces
differ at most in an absent number against 65535. -/
theorem announce_faithful_iff (connectionId : UInt64) (transactionId : UInt32)
    (request : TrackerAnnounce) :
    (encodeUdpAnnounceRequest connectionId transactionId request).length = 98 ∧
    (decodeAnnounce (encodeUdpAnnounceRequest connectionId transactionId request) =
        request.packet connectionId transactionId request.protocolNumwant ↔
      request.numwant.isSome) ∧
    ∀ otherConnection otherTransaction other,
      encodeUdpAnnounceRequest connectionId transactionId request =
          encodeUdpAnnounceRequest otherConnection otherTransaction other ↔
        connectionId = otherConnection ∧ transactionId = otherTransaction ∧
        request.numwant.getD 65535 = other.numwant.getD 65535 ∧
        request = { other with numwant := request.numwant } := by
  refine ⟨?_, ?_, ?_⟩
  · rw [encodeUdpAnnounceRequest_eq]
    simp
  · rw [decodeAnnounce_encode]
    cases wanted : request.numwant with
    | none =>
      simp [TrackerAnnounce.packet, TrackerAnnounce.protocolNumwant, wanted]
    | some numwant =>
      simp [TrackerAnnounce.protocolNumwant, wanted]
  · intro otherConnection otherTransaction other
    constructor
    · intro equal
      have decoded := congrArg decodeAnnounce equal
      rw [decodeAnnounce_encode, decodeAnnounce_encode] at decoded
      simp only [TrackerAnnounce.packet, AnnouncePacket.mk.injEq, Vector.toList_inj] at decoded
      obtain ⟨sameConnection, -, sameTransaction, infoHash, peerId, downloaded, left, uploaded,
        -, -, -, wanted, port⟩ := decoded
      refine ⟨sameConnection, sameTransaction, UInt16.toUInt32_inj.mp wanted, ?_⟩
      rw [← infoHash, ← peerId, ← downloaded, ← left, ← uploaded, ← port]
    · rintro ⟨rfl, rfl, wanted, same⟩
      rw [encodeUdpAnnounceRequest_eq, encodeUdpAnnounceRequest_eq, wanted, same]

/-- An announce of a fresh download that leaves the number of peers to the tracker. -/
def freshAnnounce : TrackerAnnounce where
  infoHash := .replicate 20 7
  peerId := .replicate 20 9
  port := 6881
  uploaded := 0
  downloaded := 0
  left := 1000
  numwant := none

theorem freshAnnounce_asks_65535 :
    (decodeAnnounce (encodeUdpAnnounceRequest 1 2 freshAnnounce)).numwant = 65535 ∧
    freshAnnounce.protocolNumwant = 0xFFFFFFFF ∧
    encodeUdpAnnounceRequest 1 2 freshAnnounce =
      encodeUdpAnnounceRequest 1 2 { freshAnnounce with numwant := some 65535 } := by
  decide +kernel

end P2pNetwork
end VideoProxy
