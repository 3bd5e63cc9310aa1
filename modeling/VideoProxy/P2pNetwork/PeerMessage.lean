import VideoProxy.P2pNetwork.Announce
import VideoProxy.Utils.Error

/-!
# Messages between peers

A message of the peer protocol is a length of four bytes and a payload: the
number of the message and its fields.  `payload` is what the protocol asks for;
writing a message and reading one are both compared with it.
-/

namespace VideoProxy
namespace P2pNetwork

/-- `PeerMessage`. -/
inductive PeerMessage
  | keepAlive
  | choke
  | unchoke
  | interested
  | notInterested
  | have (index : UInt32)
  | bitfield (bits : List UInt8)
  | request (index begin length : UInt32)
  | piece (index begin : UInt32) (block : List UInt8)
  | cancel (index begin length : UInt32)
  | port (port : UInt16)
  | extended (extensionId : UInt8) (payload : List UInt8)
  deriving DecidableEq

/-- Messages that a peer may send at any time. -/
def IsChatter (message : PeerMessage) : Prop :=
  message = .keepAlive ∨ ∃ index, message = .have index

/-- `MAX_PEER_MESSAGE_BYTES`. -/
def maxPeerMessageBytes : Nat := 1024 * 1024

/-! ## Reading -/

/-- The closure `u32_at`. -/
def u32At (bytes : List UInt8) : Except ProxyError UInt32 :=
  if bytes.length ≠ 4 then .error (.parse "invalid peer message fields")
  else .ok (u32FromBe bytes)

/-- The three words of a request. -/
def threeWords (message : UInt32 → UInt32 → UInt32 → PeerMessage)
    (body : List UInt8) : Except ProxyError PeerMessage := do
  let index ← u32At (body.take 4)
  let begin ← u32At ((body.drop 4).take 4)
  let length ← u32At (body.drop 8)
  pure (message index begin length)

/-- The two words and the block of a piece. -/
def pieceFields (body : List UInt8) : Except ProxyError PeerMessage := do
  let index ← u32At (body.take 4)
  let begin ← u32At ((body.drop 4).take 4)
  pure (.piece index begin (body.drop 8))

/-- The arms of `parse_peer_message`, by the number of the message. -/
def parseBody (id : UInt8) (body : List UInt8) :
    Except ProxyError PeerMessage :=
  let malformed :=
    .error (.parse "unsupported or malformed peer message")
  match id.toNat with
  | 0 => if body.isEmpty then .ok .choke else malformed
  | 1 => if body.isEmpty then .ok .unchoke else malformed
  | 2 => if body.isEmpty then .ok .interested else malformed
  | 3 => if body.isEmpty then .ok .notInterested else malformed
  | 4 => do pure (.have (← u32At body))
  | 5 => .ok (.bitfield body)
  | 6 => if body.length = 12 then threeWords .request body else malformed
  | 7 => if 8 ≤ body.length then pieceFields body else malformed
  | 8 => if body.length = 12 then threeWords .cancel body else malformed
  | 9 => if body.length = 2 then .ok (.port (u16FromBe body)) else malformed
  | 20 =>
    match body with
    | extensionId :: payload => .ok (.extended extensionId payload)
    | [] => malformed
  | _ => malformed

/-- `parse_peer_message`; the payload is empty just if the length is zero. -/
def parsePeerMessage (input : List UInt8) : Except ProxyError PeerMessage :=
  if input.length < 4 then .error (.parse "truncated peer message length")
  else
    let length := (u32FromBe (input.take 4)).toNat
    if maxPeerMessageBytes < length ∨ input.length ≠ length + 4 then
      .error (.parse "invalid peer message length")
    else
      match input.drop 4 with
      | [] => .ok .keepAlive
      | id :: body => parseBody id body

/-! ## Writing -/

/-- The end of `encode_peer_message`: the length comes before the payload. -/
def framed (payload : List UInt8) : Except ProxyError (List UInt8) :=
  if payload.length < 2 ^ 32 then
    .ok (u32ToBe (UInt32.ofNat payload.length) ++ payload)
  else .error (.request "peer message is too large")

/-- `encode_peer_message`. -/
def encodePeerMessage : PeerMessage → Except ProxyError (List UInt8)
  | .keepAlive => .ok [0, 0, 0, 0]
  | .choke => framed [0]
  | .unchoke => framed [1]
  | .interested => framed [2]
  | .notInterested => framed [3]
  | .have index => framed (4 :: u32ToBe index)
  | .bitfield bits =>
    if bits.length > maxPeerMessageBytes - 1 then
      .error (.request "peer bitfield is too large")
    else framed (5 :: bits)
  | .request index begin length =>
    framed (6 :: (u32ToBe index ++ u32ToBe begin ++ u32ToBe length))
  | .piece index begin block =>
    if block.length > maxPeerMessageBytes - 9 then
      .error (.request "peer block is too large")
    else framed (7 :: (u32ToBe index ++ u32ToBe begin ++ block))
  | .cancel index begin length =>
    framed (8 :: (u32ToBe index ++ u32ToBe begin ++ u32ToBe length))
  | .port port => framed (9 :: u16ToBe port)
  | .extended extensionId payload =>
    if payload.length > maxPeerMessageBytes - 2 then
      .error (.request "extended peer message is too large")
    else framed (20 :: extensionId :: payload)

/-! ## The format -/

namespace PeerMessage

/-- The payload of a message. -/
def payload : PeerMessage → List UInt8
  | .keepAlive => []
  | .choke => [0]
  | .unchoke => [1]
  | .interested => [2]
  | .notInterested => [3]
  | .have index => 4 :: u32ToBe index
  | .bitfield bits => 5 :: bits
  | .request index begin length =>
    6 :: (u32ToBe index ++ (u32ToBe begin ++ u32ToBe length))
  | .piece index begin block =>
    7 :: (u32ToBe index ++ (u32ToBe begin ++ block))
  | .cancel index begin length =>
    8 :: (u32ToBe index ++ (u32ToBe begin ++ u32ToBe length))
  | .port number => 9 :: u16ToBe number
  | .extended extensionId payload => 20 :: extensionId :: payload

/-- Bytes that are a message: its length, which is within the limit, and its
payload. -/
structure Writes (message : PeerMessage) (bytes : List UInt8) : Prop where
  fits : message.payload.length ≤ maxPeerMessageBytes
  bytes_eq : bytes = u32ToBe (UInt32.ofNat message.payload.length) ++ message.payload

end PeerMessage

theorem framed_of_le {payload : List UInt8} (fits : payload.length ≤ maxPeerMessageBytes) :
    framed payload = .ok (u32ToBe (UInt32.ofNat payload.length) ++ payload) := by
  have small : maxPeerMessageBytes < 2 ^ 32 := by decide
  exact if_pos (Nat.lt_of_le_of_lt fits small)

theorem length_piece_payload (index begin : UInt32) (block : List UInt8) :
    (PeerMessage.piece index begin block).payload.length = block.length + 9 := by
  simp only [PeerMessage.payload, List.length_cons, List.length_append, length_u32ToBe]
  omega

variable {message : PeerMessage} {bytes body : List UInt8} {id : UInt8}

/-- A message is written if its payload is within the limit. -/
theorem encodePeerMessage_of_le (fits : message.payload.length ≤ maxPeerMessageBytes) :
    encodePeerMessage message = .ok (u32ToBe (UInt32.ofNat message.payload.length) ++
        message.payload) := by
  cases message with
  | keepAlive => decide
  | bitfield bits =>
    change bits.length + 1 ≤ maxPeerMessageBytes at fits
    rw [encodePeerMessage, if_neg (by omega)]
    exact framed_of_le fits
  | piece index begin block =>
    have length_eq := length_piece_payload index begin block
    rw [encodePeerMessage, if_neg (by omega), List.append_assoc]
    exact framed_of_le fits
  | extended extensionId payload =>
    change payload.length + 2 ≤ maxPeerMessageBytes at fits
    rw [encodePeerMessage, if_neg (by omega)]
    exact framed_of_le fits
  | request index begin length =>
    rw [encodePeerMessage, List.append_assoc]
    exact framed_of_le fits
  | cancel index begin length =>
    rw [encodePeerMessage, List.append_assoc]
    exact framed_of_le fits
  | choke => exact framed_of_le fits
  | unchoke => exact framed_of_le fits
  | interested => exact framed_of_le fits
  | notInterested => exact framed_of_le fits
  | «have» index => exact framed_of_le fits
  | port number => exact framed_of_le fits

theorem encodePeerMessage_of_lt (large : maxPeerMessageBytes < message.payload.length) :
    ∃ reason, encodePeerMessage message = .error reason := by
  have roomy : 9 ≤ maxPeerMessageBytes := by decide
  cases message with
  | bitfield bits =>
    change maxPeerMessageBytes < bits.length + 1 at large
    exact ⟨_, if_pos (by omega)⟩
  | piece index begin block =>
    rw [length_piece_payload] at large
    exact ⟨_, if_pos (by omega)⟩
  | extended extensionId payload =>
    change maxPeerMessageBytes < payload.length + 2 at large
    exact ⟨_, if_pos (by omega)⟩
  | _ =>
    -- The other payloads have a fixed length.
    exfalso
    simp [PeerMessage.payload, maxPeerMessageBytes] at large

theorem encodePeerMessage_eq_ok_iff :
    encodePeerMessage message = .ok bytes ↔ message.Writes bytes := by
  constructor
  · intro encoded
    have fits : message.payload.length ≤ maxPeerMessageBytes := by
      by_contra large
      obtain ⟨reason, refused⟩ :=
        encodePeerMessage_of_lt (Nat.lt_of_not_le large)
      rw [refused] at encoded
      cases encoded
    rw [encodePeerMessage_of_le fits] at encoded
    cases encoded
    exact ⟨fits, rfl⟩
  · rintro ⟨fits, rfl⟩
    exact encodePeerMessage_of_le fits

/-! ## Reading what the format allows -/

theorem u32At_eq_ok_iff {value : UInt32} : u32At bytes = .ok value ↔ bytes = u32ToBe value := by
  unfold u32At
  constructor
  · intro read
    split at read
    · cases read
    · rename_i four
      cases read
      exact (u32ToBe_u32FromBe (not_not.mp four)).symm
  · rintro rfl
    rw [if_neg (by simp), u32FromBe_u32ToBe]

theorem u32At_take_append (value : UInt32) (rest : List UInt8) :
    u32At ((u32ToBe value ++ rest).take 4) = .ok value := by
  rw [List.take_left' (length_u32ToBe value)]
  exact u32At_eq_ok_iff.mpr rfl

theorem drop_u32ToBe (value : UInt32) (rest : List UInt8) : (u32ToBe value ++ rest).drop 4 = rest :=
  List.drop_left' (length_u32ToBe value)

theorem drop_two_u32ToBe (first second : UInt32) (rest : List UInt8) :
    (u32ToBe first ++ (u32ToBe second ++ rest)).drop 8 = rest := by
  rw [← List.drop_drop (i := 4) (j := 4), drop_u32ToBe, drop_u32ToBe]

theorem eq_append_of_words {first second : UInt32} (readFirst : u32At (body.take 4) = .ok first)
    (readSecond : u32At ((body.drop 4).take 4) = .ok second) :
    body = u32ToBe first ++ (u32ToBe second ++ body.drop 8) := by
  rw [u32At_eq_ok_iff] at readFirst readSecond
  rw [← readFirst, ← readSecond, ← List.drop_drop (i := 4) (j := 4),
    List.take_append_drop, List.take_append_drop]

/-- A body of three words is read exactly when it is one. -/
theorem threeWords_eq_ok_iff {build : UInt32 → UInt32 → UInt32 → PeerMessage} :
    threeWords build body = .ok message ↔ ∃ index begin length, message = build index begin length ∧
        body = u32ToBe index ++ (u32ToBe begin ++ u32ToBe length) := by
  constructor
  · intro read
    obtain ⟨index, first, read⟩ := exists_of_except_ok read
    obtain ⟨begin, second, read⟩ := exists_of_except_ok read
    obtain ⟨length, third, read⟩ := exists_of_except_ok read
    cases read
    refine ⟨index, begin, length, rfl, ?_⟩
    rw [← u32At_eq_ok_iff.mp third]
    exact eq_append_of_words first second
  · rintro ⟨index, begin, length, rfl, rfl⟩
    unfold threeWords
    rw [u32At_take_append, drop_u32ToBe, u32At_take_append, drop_two_u32ToBe,
      u32At_eq_ok_iff.mpr rfl]
    rfl

theorem pieceFields_eq_ok_iff :
    pieceFields body = .ok message ↔ ∃ index begin block, message = .piece index begin block ∧
        body = u32ToBe index ++ (u32ToBe begin ++ block) := by
  constructor
  · intro read
    obtain ⟨index, first, read⟩ := exists_of_except_ok read
    obtain ⟨begin, second, read⟩ := exists_of_except_ok read
    cases read
    exact ⟨index, begin, _, rfl, eq_append_of_words first second⟩
  · rintro ⟨index, begin, block, rfl, rfl⟩
    unfold pieceFields
    rw [u32At_take_append, drop_u32ToBe, u32At_take_append, drop_two_u32ToBe]
    rfl

theorem eq_of_toNat_eq {number : Nat} (same : id.toNat = number) : id = UInt8.ofNat number := by
  rw [← same, UInt8.ofNat_toNat]

/-- What is read is the payload of the message. -/
theorem eq_payload_of_parseBody (read : parseBody id body = .ok message) :
    id :: body = message.payload := by
  unfold parseBody at read
  split at read
  case h_1 same | h_2 same | h_3 same | h_4 same =>
    rw [eq_of_toNat_eq same]
    split at read
    · rename_i empty
      cases read
      rw [List.isEmpty_iff.mp empty]
      rfl
    · cases read
  case h_5 same =>
    obtain ⟨index, word, read⟩ := exists_of_except_ok read
    cases read
    rw [eq_of_toNat_eq same, u32At_eq_ok_iff.mp word]
    rfl
  case h_6 same =>
    cases read
    rw [eq_of_toNat_eq same]
    rfl
  case h_7 same | h_9 same =>
    split at read
    · obtain ⟨index, begin, length, rfl, rfl⟩ := threeWords_eq_ok_iff.mp read
      rw [eq_of_toNat_eq same]
      rfl
    · cases read
  case h_8 same =>
    split at read
    · obtain ⟨index, begin, block, rfl, rfl⟩ := pieceFields_eq_ok_iff.mp read
      rw [eq_of_toNat_eq same]
      rfl
    · cases read
  case h_10 same =>
    split at read
    · rename_i two
      cases read
      rw [eq_of_toNat_eq same, PeerMessage.payload, u16ToBe_u16FromBe two]
      rfl
    · cases read
  case h_11 same =>
    split at read
    · cases read
      rw [eq_of_toNat_eq same]
      rfl
    · cases read
  case h_12 => cases read

/-- The payload of a message is read. -/
theorem parseBody_of_eq_payload (written : id :: body = message.payload) :
    parseBody id body = .ok message := by
  cases message with
  | keepAlive => cases written
  | request index begin length =>
    obtain ⟨rfl, rfl⟩ := List.cons.inj written
    have twelve : (u32ToBe index ++ (u32ToBe begin ++ u32ToBe length)).length = 12 := by
      simp
    have arm : parseBody 6 _ = threeWords .request _ := if_pos twelve
    rw [arm]
    exact threeWords_eq_ok_iff.mpr ⟨index, begin, length, rfl, rfl⟩
  | cancel index begin length =>
    obtain ⟨rfl, rfl⟩ := List.cons.inj written
    have twelve : (u32ToBe index ++ (u32ToBe begin ++ u32ToBe length)).length = 12 := by
      simp
    have arm : parseBody 8 _ = threeWords .cancel _ := if_pos twelve
    rw [arm]
    exact threeWords_eq_ok_iff.mpr ⟨index, begin, length, rfl, rfl⟩
  | piece index begin block =>
    obtain ⟨rfl, rfl⟩ := List.cons.inj written
    have eight : 8 ≤ (u32ToBe index ++ (u32ToBe begin ++ block)).length := by
      simp only [List.length_append, length_u32ToBe]
      omega
    have arm : parseBody 7 _ = pieceFields _ := if_pos eight
    rw [arm]
    exact pieceFields_eq_ok_iff.mpr ⟨index, begin, block, rfl, rfl⟩
  | «have» index =>
    obtain ⟨rfl, rfl⟩ := List.cons.inj written
    change (do pure (PeerMessage.have (← u32At (u32ToBe index)))) = _
    rw [u32At_eq_ok_iff.mpr rfl]
    rfl
  | port number =>
    obtain ⟨rfl, rfl⟩ := List.cons.inj written
    have arm : parseBody 9 _ = .ok (.port (u16FromBe (u16ToBe number))) :=
      if_pos (length_u16ToBe number)
    rw [arm, u16FromBe_u16ToBe]
  | _ =>
    cases written
    rfl

theorem eq_append_of_length (counted : bytes.length = (u32FromBe (bytes.take 4)).toNat + 4) :
    bytes = u32ToBe (UInt32.ofNat (bytes.drop 4).length) ++ bytes.drop 4 := by
  have four : (bytes.take 4).length = 4 := by
    rw [List.length_take]
    omega
  have rest : (bytes.drop 4).length = (u32FromBe (bytes.take 4)).toNat := by
    rw [List.length_drop]
    omega
  rw [rest, UInt32.ofNat_toNat, u32ToBe_u32FromBe four, List.take_append_drop]

/-- Reading accepts the bytes of messages. -/
theorem parsePeerMessage_eq_ok_iff :
    parsePeerMessage bytes = .ok message ↔ message.Writes bytes := by
  constructor
  · intro read
    unfold parsePeerMessage at read
    split at read
    · cases read
    · simp only at read
      split at read
      · cases read
      · rename_i checked
        rw [not_or, not_not, Nat.not_lt] at checked
        obtain ⟨small, counted⟩ := checked
        have bytes_eq := eq_append_of_length counted
        have payload_eq : message.payload = bytes.drop 4 := by
          split at read
          · rename_i rest_eq
            cases read
            exact rest_eq.symm
          · rename_i rest_eq
            rw [rest_eq]
            exact (eq_payload_of_parseBody read).symm
        refine ⟨?_, ?_⟩
        · rw [payload_eq, List.length_drop]
          omega
        · rw [payload_eq]
          exact bytes_eq
  · rintro ⟨fits, rfl⟩
    have small : maxPeerMessageBytes < 2 ^ 32 := by decide
    have count : (UInt32.ofNat message.payload.length).toNat = message.payload.length :=
      UInt32.toNat_ofNat_of_lt' (Nat.lt_of_le_of_lt fits small)
    unfold parsePeerMessage
    rw [List.take_left' (length_u32ToBe _), u32FromBe_u32ToBe, List.drop_left' (length_u32ToBe _),
      List.length_append, length_u32ToBe, if_neg (by omega)]
    simp only [count]
    rw [if_neg (by omega)]
    cases written : message.payload with
    | nil =>
      cases message <;> cases written
      rfl
    | cons id body => exact parseBody_of_eq_payload written.symm

/-- Reading and writing are inverse to each other, and only messages over the
limit cannot be written. -/
theorem peerMessage_codec (message : PeerMessage) (bytes : List UInt8) :
    (encodePeerMessage message = .ok bytes ↔ parsePeerMessage bytes = .ok message) ∧
    ((∃ reason, encodePeerMessage message = .error reason) ↔
      maxPeerMessageBytes < message.payload.length) := by
  refine ⟨encodePeerMessage_eq_ok_iff.trans parsePeerMessage_eq_ok_iff.symm,
    ?_, encodePeerMessage_of_lt⟩
  rintro ⟨reason, refused⟩
  by_contra fits
  rw [encodePeerMessage_of_le (Nat.le_of_not_lt fits)] at refused
  cases refused

/-! ## The handshake -/

/-- `BitTorrentHandshake`. -/
structure BitTorrentHandshake where
  reserved : Vector UInt8 8
  infoHash : Vector UInt8 20
  peerId : Vector UInt8 20

/-- The name that a handshake begins with. -/
def protocolName : List UInt8 :=
  "BitTorrent protocol".toList.map fun char => char.toNat.toUInt8

/-- `encode_handshake`. -/
def encodeHandshake (handshake : BitTorrentHandshake) : List UInt8 :=
  (List.replicate 68 0).set 0 19
    |> copyFromSlice 1 protocolName
    |> copyFromSlice 20 handshake.reserved.toList
    |> copyFromSlice 28 handshake.infoHash.toList
    |> copyFromSlice 48 handshake.peerId.toList

theorem length_fieldAt {offset width : Nat} {input : List UInt8}
    (inside : offset + width ≤ input.length) : (fieldAt offset width input).length = width := by
  rw [fieldAt, List.length_take, List.length_drop]
  omega

/-- `input[offset..offset + width].try_into()`. -/
def arrayAt {width : Nat} (offset : Nat) (input : List UInt8)
    (inside : offset + width ≤ input.length) : Vector UInt8 width :=
  ⟨(fieldAt offset width input).toArray, length_fieldAt inside⟩

/-- `parse_handshake`. -/
def parseHandshake (input : List UInt8) : Except ProxyError BitTorrentHandshake :=
  if wide : input.length = 68 then
    if input.head? ≠ some 19 ∨ fieldAt 1 19 input ≠ protocolName then
      .error (.parse "invalid BitTorrent handshake")
    else
      .ok ⟨arrayAt 20 input (by omega), arrayAt 28 input (by omega), arrayAt 48 input (by omega)⟩
  else .error (.parse "invalid BitTorrent handshake")

theorem length_protocolName : protocolName.length = 19 := by
  decide

theorem encodeHandshake_eq (handshake : BitTorrentHandshake) :
    encodeHandshake handshake = [[19], protocolName, handshake.reserved.toList,
      handshake.infoHash.toList, handshake.peerId.toList].flatten := by
  unfold encodeHandshake
  have head : (List.replicate 68 (0 : UInt8)).set 0 19 = [19] ++ List.replicate 67 0 := rfl
  rw [head]
  simp (disch := simp [length_protocolName]) only [copyFromSlice_zeros]
  simp [length_protocolName]

theorem fieldAt_append_drop (offset width : Nat) (input : List UInt8) :
    fieldAt offset width input ++ input.drop (offset + width) = input.drop offset := by
  rw [fieldAt, ← List.drop_drop, List.take_append_drop]

/-- Reading and writing are inverse to each other. -/
theorem parseHandshake_eq_ok_iff {input : List UInt8} {handshake : BitTorrentHandshake} :
    parseHandshake input = .ok handshake ↔ encodeHandshake handshake = input := by
  rw [encodeHandshake_eq]
  unfold parseHandshake
  constructor
  · intro parsed
    split at parsed
    · rename_i wide
      split at parsed
      · cases parsed
      · rename_i wellFormed
        cases parsed
        obtain ⟨first, named⟩ := not_or.mp wellFormed
        have last : fieldAt 48 20 input = input.drop 48 :=
          List.take_of_length_le (by simp; omega)
        obtain ⟨rest, rfl⟩ := List.head?_eq_some_iff.mp (not_not.mp first)
        change [19] ++ (protocolName ++ (fieldAt 20 8 _ ++ (fieldAt 28 20 _ ++
          (fieldAt 48 20 _ ++ [])))) = _
        rw [List.append_nil, last, fieldAt_append_drop 28 20, fieldAt_append_drop 20 8,
          ← not_not.mp named, fieldAt_append_drop 1 19]
        rfl
    · cases parsed
  · rintro rfl
    rw [dif_pos (by simp [length_protocolName]), if_neg]
    · congr <;> apply Vector.toList_inj.mp <;>
        simp (disch := simp [length_protocolName]) only [arrayAt, Vector.toList_mk,
          List.flatten_cons, fieldAt_head, fieldAt_tail, length_protocolName,
          Vector.length_toList, Nat.reduceSub, List.length_singleton]
    · exact not_or.mpr ⟨not_not.mpr rfl, not_not.mpr (fieldAt_head _ length_protocolName)⟩

end P2pNetwork
end VideoProxy
