import VideoProxy.Lib.Dialogue
import VideoProxy.P2pNetwork.PeerMessage

/-!
# Download of a piece from a peer

`download_piece` asks for a piece block by block.  Before each block the client
says that it is interested and waits to be unchoked.  The peer unchokes a client
that is choked, answers the requests of a client that is not, and may say other
things in between.
-/

namespace VideoProxy
namespace P2pNetwork

open Dialogue

/-! ## The client -/

/-- `MAX_REQUEST_BLOCK_BYTES`. -/
def maxRequestBlockBytes : Nat := 16 * 1024

/-- Where `download_block` is. -/
inductive BlockStage
  | announcing
  | awaitingUnchoke
  | requesting
  | awaitingBlock
  deriving DecidableEq

/-- The state of `download_piece`. -/
inductive PieceDownload
  | running (begin : Nat) (piece : List UInt8) (stage : BlockStage)
  | ended (result : Except ProxyError (List UInt8))

/-- What `download_piece` is called with. -/
structure PieceCall where
  index : UInt32
  pieceLength : Nat
  expectedSha1 : List UInt8
  sha1 : List UInt8 → List UInt8

namespace PieceCall

variable (call : PieceCall)

/-- The length of the block that is asked for. -/
def blockLength (begin : Nat) : Nat :=
  min (call.pieceLength - begin) maxRequestBlockBytes

/-- `verify_piece_sha1`. -/
def verifyPieceSha1 (piece : List UInt8) : Except ProxyError (List UInt8) :=
  if call.sha1 piece ≠ call.expectedSha1 then
    .error (.request "BitTorrent piece SHA-1 mismatch")
  else .ok piece

/-- The condition of the loop of `download_piece`, and the check at the start of
`download_block`. -/
def proceed (begin : Nat) (piece : List UInt8) : PieceDownload :=
  if begin < call.pieceLength then
    let length := call.blockLength begin
    if length = 0 ∨ length > maxRequestBlockBytes ∨ begin + length ≥ 2 ^ 32 then
      .ended (.error (.request "invalid peer block request"))
    else .running begin piece .announcing
  else .ended (call.verifyPieceSha1 piece)

/-- The start of `download_piece`. -/
def start : PieceDownload :=
  if call.pieceLength = 0 ∨ call.pieceLength > 8 * 1024 * 1024 then
    .ended (.error (.request "invalid BitTorrent piece length"))
  else call.proceed 0 []

/-- The messages that the client sends. -/
def sends : PieceDownload → Option (PeerMessage × PieceDownload)
  | .running begin piece .announcing =>
    some (.interested, .running begin piece .awaitingUnchoke)
  | .running begin piece .requesting =>
    some (.request call.index (.ofNat begin) (.ofNat (call.blockLength begin)),
      .running begin piece .awaitingBlock)
  | _ => none

/-- The loop before the request. -/
def onUnchoke (begin : Nat) (piece : List UInt8) : PeerMessage → PieceDownload
  | .unchoke => .running begin piece .requesting
  | .choke | .keepAlive | .have _ | .bitfield _ =>
    .running begin piece .awaitingUnchoke
  | _ => .ended (.error (.request "unexpected peer message before unchoke"))

/-- The loop after the request. -/
def onBlock (begin : Nat) (piece : List UInt8) : PeerMessage → PieceDownload
  | .piece receivedIndex receivedBegin block =>
    if receivedIndex ≠ call.index ∨ receivedBegin ≠ .ofNat begin ∨
        block.length ≠ call.blockLength begin then
      .ended (.error (.request "peer returned mismatched block"))
    else call.proceed (begin + call.blockLength begin) (piece ++ block)
  | .choke => .ended (.error (.request "peer choked block request"))
  | .keepAlive | .have _ => .running begin piece .awaitingBlock
  | _ =>
    .ended (.error (.request "unexpected peer message during block request"))

/-- What the client does with a message that it waits for. -/
def receives : PieceDownload → Option (PeerMessage → PieceDownload)
  | .running begin piece .awaitingUnchoke => some (onUnchoke begin piece)
  | .running begin piece .awaitingBlock => some (call.onBlock begin piece)
  | _ => none

end PieceCall

/-! ## The peer -/

/-- A request that has not been answered. -/
structure BlockRequest where
  index : UInt32
  begin : UInt32
  length : UInt32
  deriving DecidableEq

/-- A peer that follows the protocol. -/
structure Seeder where
  choking : Bool
  interested : Bool
  requests : List BlockRequest
  deriving DecidableEq

/-- What the peer may send. -/
inductive SeederChoice
  | unchoke
  | answer (position : Nat)
  | keepAlive
  | have (index : UInt32)

/-- The blocks that a peer has: each is as long as it is asked for. -/
structure Content where
  block : BlockRequest → List UInt8
  length_block : ∀ request, (block request).length = request.length.toNat

namespace Seeder

/-- The peer unchokes a client that is choked, and answers its requests. -/
def sends (content : Content) (seeder : Seeder) :
    SeederChoice → Option (PeerMessage × Seeder)
  | .unchoke =>
    if seeder.choking then some (.unchoke, { seeder with choking := false })
    else none
  | .answer position =>
    (seeder.requests[position]?).map fun request =>
      (.piece request.index request.begin (content.block request),
        { seeder with requests := seeder.requests.eraseIdx position })
  | .keepAlive => some (.keepAlive, seeder)
  | .have index => some (.have index, seeder)

/-- Requests of a client that is choked are dropped. -/
def receives (seeder : Seeder) : PeerMessage → Seeder
  | .interested => { seeder with interested := true }
  | .notInterested => { seeder with interested := false }
  | .request index begin length =>
    if seeder.choking then seeder
    else
      { seeder with
        requests := seeder.requests ++ [{ index, begin, length }] }
  | _ => seeder

/-- Nothing is left for the peer to send: all requests are answered, and the
client is unchoked if it is interested. -/
def Quiet (seeder : Seeder) : Prop :=
  seeder.requests = [] ∧ ¬(seeder.choking = true ∧ seeder.interested = true)

end Seeder

/-! ## The exchange -/

/-- The client and the peer together. -/
def exchange (call : PieceCall) (content : Content) :
    Dialogue PieceDownload Seeder SeederChoice PeerMessage where
  clientSends := call.sends
  clientReceives := call.receives
  peerSends := Seeder.sends content
  peerReceives := Seeder.receives

/-- A connection with nothing on its way, on which the client is choked or has
been unchoked before. -/
def connection (call : PieceCall) (choking : Bool) :
    World PieceDownload Seeder PeerMessage where
  client := call.start
  peer := { choking, interested := false, requests := [] }
  toPeer := []
  toClient := []

/-- The client waits for a message, and none will come. -/
def Stuck (call : PieceCall) (world : World PieceDownload Seeder PeerMessage) : Prop :=
  (call.receives world.client).isSome ∧ world.toClient = [] ∧ world.toPeer = [] ∧ world.peer.Quiet

/-! ## One block -/

variable {message : PeerMessage} {seeder : Seeder}

/-- What a peer sends is an unchoke, the answer to a request, or chatter. -/
theorem Seeder.sends_cases {content : Content} {after : Seeder} {choice : SeederChoice}
    (sends : seeder.sends content choice = some (message, after)) :
    (message = .unchoke ∧ seeder.choking = true ∧ after = { seeder with choking := false }) ∨
      (∃ position request, seeder.requests[position]? = some request ∧
        message = .piece request.index request.begin (content.block request) ∧
        after = { seeder with
          requests := seeder.requests.eraseIdx position }) ∨
      (IsChatter message ∧ after = seeder) := by
  cases choice with
  | unchoke =>
    simp only [Seeder.sends] at sends
    split at sends
    · rename_i choking
      cases sends
      exact .inl ⟨rfl, choking, rfl⟩
    · cases sends
  | answer position =>
    obtain ⟨request, found, same⟩ := Option.map_eq_some_iff.mp sends
    cases same
    exact .inr (.inl ⟨position, request, found, rfl, rfl⟩)
  | keepAlive =>
    cases sends
    exact .inr (.inr ⟨.inl rfl, rfl⟩)
  | «have» index =>
    cases sends
    exact .inr (.inr ⟨.inr ⟨index, rfl⟩, rfl⟩)

/-- The client has not been unchoked yet, or the message that says so is on its
way, once. -/
def Unchoking (seeder : Seeder) (toClient : List PeerMessage) : Prop :=
  (seeder.choking = true ∧ ∀ message ∈ toClient, IsChatter message) ∨
    (seeder.choking = false ∧ Carries IsChatter .unchoke toClient)

theorem Unchoking.send {toClient : List PeerMessage}
    (unchoking : Unchoking seeder toClient) (chatter : IsChatter message) :
    Unchoking seeder (toClient ++ [message]) :=
  unchoking.imp (fun choked => ⟨choked.1, forall_mem_send choked.2 chatter⟩)
    fun unchoked => ⟨unchoked.1, unchoked.2.send chatter⟩

theorem Unchoking.unchoke {toClient : List PeerMessage}
    (unchoking : Unchoking seeder toClient) (choking : seeder.choking = true) :
    Unchoking { seeder with choking := false } (toClient ++ [.unchoke]) := by
  rcases unchoking with ⟨_, chat⟩ | ⟨unchoked, _⟩
  · exact .inr ⟨rfl, carries_send chat⟩
  · rw [choking] at unchoked
    cases unchoked

theorem Unchoking.receive {rest : List PeerMessage}
    (unchoking : Unchoking seeder (message :: rest)) :
    (IsChatter message ∧ Unchoking seeder rest) ∨ (message = .unchoke ∧ seeder.choking = false ∧
        ∀ other ∈ rest, IsChatter other) := by
  rcases unchoking with ⟨choking, chat⟩ | ⟨unchoked, carries⟩
  · obtain ⟨first, later⟩ := List.forall_mem_cons.mp chat
    exact .inl ⟨first, .inl ⟨choking, later⟩⟩
  · rcases carries.receive with ⟨first, later⟩ | ⟨rfl, chat⟩
    · exact .inl ⟨first, .inr ⟨unchoked, later⟩⟩
    · exact .inr ⟨rfl, unchoked, chat⟩

namespace PieceCall

variable (call : PieceCall)

/-- The request for the first block. -/
def firstRequest : BlockRequest where
  index := call.index
  begin := .ofNat 0
  length := .ofNat (call.blockLength 0)

/-- The message that asks for the first block. -/
def asks : PeerMessage :=
  .request call.index (.ofNat 0) (.ofNat (call.blockLength 0))

/-- The message that has the first block. -/
def answer (content : Content) : PeerMessage :=
  .piece call.index (.ofNat 0) (content.block call.firstRequest)

/-- How far the download of a piece of one block is. -/
inductive Progress (content : Content) :
    World PieceDownload Seeder PeerMessage → Prop
  | announcing {peer toClient}
      (unasked : peer.requests = [])
      (unchoking : Unchoking peer toClient) :
      Progress content ⟨.running 0 [] .announcing, peer, [], toClient⟩
  | awaitingUnchoke {peer toPeer toClient}
      (unasked : peer.requests = [])
      (unchoking : Unchoking peer toClient)
      (sent : ∀ message ∈ toPeer, message = .interested)
      (announced : .interested ∈ toPeer ∨ peer.interested = true) :
      Progress content ⟨.running 0 [] .awaitingUnchoke, peer, toPeer, toClient⟩
  | requesting {peer toPeer toClient}
      (unasked : peer.requests = [])
      (unchoked : peer.choking = false)
      (sent : ∀ message ∈ toPeer, message = .interested)
      (chat : ∀ message ∈ toClient, IsChatter message) :
      Progress content ⟨.running 0 [] .requesting, peer, toPeer, toClient⟩
  | awaitingBlock {peer toPeer toClient}
      (unchoked : peer.choking = false)
      (asked : ∀ request ∈ peer.requests, request = call.firstRequest)
      (sent : ∀ message ∈ toPeer, message = .interested ∨ message = call.asks)
      (chat : ∀ message ∈ toClient, IsChatter message ∨ message = call.answer content)
      (pending : call.asks ∈ toPeer ∨ call.firstRequest ∈ peer.requests ∨
        call.answer content ∈ toClient) :
      Progress content ⟨.running 0 [] .awaitingBlock, peer, toPeer, toClient⟩
  | ended {peer toPeer toClient} :
      Progress content ⟨.ended (call.verifyPieceSha1 (content.block call.firstRequest)), peer,
          toPeer, toClient⟩

variable {call} {content : Content}

variable {message : PeerMessage} {world : World PieceDownload Seeder PeerMessage}

theorem onUnchoke_of_isChatter (chatter : IsChatter message) (begin : Nat) (piece : List UInt8) :
    onUnchoke begin piece message = .running begin piece .awaitingUnchoke := by
  rcases chatter with rfl | ⟨index, rfl⟩ <;> rfl

theorem onBlock_of_isChatter (chatter : IsChatter message) (begin : Nat) (piece : List UInt8) :
    call.onBlock begin piece message = .running begin piece .awaitingBlock := by
  rcases chatter with rfl | ⟨index, rfl⟩ <;> rfl

theorem onBlock_answer :
    call.onBlock 0 [] (call.answer content) =
      call.proceed (call.blockLength 0) (content.block call.firstRequest) := by
  have small : maxRequestBlockBytes < 2 ^ 32 := by decide
  have fits : call.blockLength 0 < 2 ^ 32 :=
    Nat.lt_of_le_of_lt (Nat.min_le_right _ _) small
  have block_length : (content.block call.firstRequest).length = call.blockLength 0 := by
    rw [content.length_block]
    exact UInt32.toNat_ofNat_of_lt fits
  unfold onBlock answer
  simp only [block_length, ne_eq, not_true_eq_false, or_self, if_false,
    Nat.zero_add, List.nil_append]

theorem proceed_of_single (single : call.pieceLength ≤ maxRequestBlockBytes) (piece : List UInt8) :
    call.proceed (call.blockLength 0) piece = .ended (call.verifyPieceSha1 piece) := by
  have length_eq : call.blockLength 0 = call.pieceLength := Nat.min_eq_left single
  rw [proceed, if_neg (by omega)]

theorem proceed_of_several (several : maxRequestBlockBytes < call.pieceLength)
    (bounded : call.pieceLength ≤ 8 * 1024 * 1024) (piece : List UInt8) :
    call.proceed maxRequestBlockBytes piece = .running maxRequestBlockBytes piece .announcing := by
  have block : 0 < call.blockLength maxRequestBlockBytes ∧
      call.blockLength maxRequestBlockBytes ≤ maxRequestBlockBytes := by
    unfold blockLength maxRequestBlockBytes at *
    omega
  have small : maxRequestBlockBytes + maxRequestBlockBytes < 2 ^ 32 := by decide
  rw [proceed, if_pos several]
  exact if_neg (by omega)

theorem progress_clientSends {client : PieceDownload} (progress : call.Progress content world)
    (sends : call.sends world.client = some (message, client)) :
    call.Progress content
      { world with client, toPeer := world.toPeer ++ [message] } := by
  cases progress with
  | announcing unasked unchoking =>
    cases sends
    exact .awaitingUnchoke unasked unchoking (fun _ member => List.mem_singleton.mp member)
      (.inl List.mem_cons_self)
  | awaitingUnchoke => cases sends
  | requesting unasked unchoked sent chat =>
    cases sends
    refine .awaitingBlock unchoked ?_ ?_ (fun message member => .inl (chat message member))
      (.inl (List.mem_append_right _ List.mem_cons_self))
    · rw [unasked]
      exact fun _ absent => absurd absent List.not_mem_nil
    · exact forall_mem_send (fun message member => .inl (sent message member)) (.inr rfl)
  | awaitingBlock => cases sends
  | ended => cases sends

theorem progress_clientReceives (single : call.pieceLength ≤ maxRequestBlockBytes)
    {handle : PeerMessage → PieceDownload}
    {rest : List PeerMessage} (progress : call.Progress content world)
    (waits : call.receives world.client = some handle) (queue : world.toClient = message :: rest) :
    call.Progress content
      { world with client := handle message, toClient := rest } := by
  cases progress with
  | announcing => cases waits
  | awaitingUnchoke unasked unchoking sent announced =>
    cases waits
    cases queue
    rcases unchoking.receive with ⟨chatter, later⟩ | ⟨rfl, unchoked, chat⟩
    · rw [onUnchoke_of_isChatter chatter]
      exact .awaitingUnchoke unasked later sent announced
    · exact .requesting unasked unchoked sent chat
  | requesting => cases waits
  | awaitingBlock unchoked asked sent chat pending =>
    cases waits
    cases queue
    obtain ⟨first, later⟩ := List.forall_mem_cons.mp chat
    rcases first with chatter | rfl
    · rw [onBlock_of_isChatter chatter]
      refine .awaitingBlock unchoked asked sent later ?_
      refine pending.imp_right fun later => later.imp_right fun member => ?_
      rcases List.mem_cons.mp member with rfl | later
      · rcases chatter with absurdly | ⟨index, absurdly⟩ <;> cases absurdly
      · exact later
    · rw [onBlock_answer, proceed_of_single single]
      exact .ended
  | ended => cases waits

theorem progress_peerSends {choice : SeederChoice}
    {peer : Seeder} (progress : call.Progress content world)
    (sends : world.peer.sends content choice = some (message, peer)) :
    call.Progress content
      { world with peer, toClient := world.toClient ++ [message] } := by
  cases progress with
  | announcing unasked unchoking =>
    rcases Seeder.sends_cases sends with ⟨rfl, choking, rfl⟩ |
      ⟨position, request, found, _⟩ | ⟨chatter, rfl⟩
    · exact .announcing unasked (unchoking.unchoke choking)
    · rw [unasked, List.getElem?_nil] at found
      cases found
    · exact .announcing unasked (unchoking.send chatter)
  | awaitingUnchoke unasked unchoking sent announced =>
    rcases Seeder.sends_cases sends with ⟨rfl, choking, rfl⟩ |
      ⟨position, request, found, _⟩ | ⟨chatter, rfl⟩
    · exact .awaitingUnchoke unasked (unchoking.unchoke choking) sent announced
    · rw [unasked, List.getElem?_nil] at found
      cases found
    · exact .awaitingUnchoke unasked (unchoking.send chatter) sent announced
  | requesting unasked unchoked sent chat =>
    rcases Seeder.sends_cases sends with ⟨rfl, choking, rfl⟩ |
      ⟨position, request, found, _⟩ | ⟨chatter, rfl⟩
    · rw [unchoked] at choking
      cases choking
    · rw [unasked, List.getElem?_nil] at found
      cases found
    · exact .requesting unasked unchoked sent (forall_mem_send chat chatter)
  | awaitingBlock unchoked asked sent chat pending =>
    rcases Seeder.sends_cases sends with ⟨rfl, choking, rfl⟩ |
      ⟨position, request, found, rfl, rfl⟩ | ⟨chatter, rfl⟩
    · rw [unchoked] at choking
      cases choking
    · cases asked request (List.mem_of_getElem? found)
      exact .awaitingBlock unchoked
        (fun other member => asked other (List.mem_of_mem_eraseIdx member))
        sent
        (forall_mem_send chat (.inr rfl))
        (.inr (.inr (List.mem_append_right _ List.mem_cons_self)))
    · exact .awaitingBlock unchoked asked sent (forall_mem_send chat (.inl chatter))
        (pending.imp_right fun later =>
          later.imp_right fun member => List.mem_append_left _ member)
  | ended => exact .ended

theorem progress_peerReceives {rest : List PeerMessage} (progress : call.Progress content world)
    (queue : world.toPeer = message :: rest) :
    call.Progress content
      { world with peer := world.peer.receives message, toPeer := rest } := by
  cases progress with
  | announcing => cases queue
  | awaitingUnchoke unasked unchoking sent announced =>
    cases queue
    obtain ⟨rfl, later⟩ := List.forall_mem_cons.mp sent
    exact .awaitingUnchoke unasked unchoking later (.inr rfl)
  | requesting unasked unchoked sent chat =>
    cases queue
    obtain ⟨rfl, later⟩ := List.forall_mem_cons.mp sent
    exact .requesting unasked unchoked later chat
  | @awaitingBlock peer _ _ unchoked asked sent chat pending =>
    cases queue
    obtain ⟨first, later⟩ := List.forall_mem_cons.mp sent
    rcases first with rfl | rfl
    · refine .awaitingBlock unchoked asked later chat (pending.imp_left fun member => ?_)
      exact (List.mem_cons.mp member).resolve_left PeerMessage.noConfusion
    · have taken : peer.receives call.asks =
          { peer with requests := peer.requests ++ [call.firstRequest] } :=
        if_neg (by rw [unchoked]; exact Bool.false_ne_true)
      rw [taken]
      exact .awaitingBlock unchoked (forall_mem_send asked rfl) later chat
        (.inr (.inl (List.mem_append_right _ List.mem_cons_self)))
  | ended => exact .ended

/-- A download that progresses is not stuck. -/
theorem Progress.not_stuck (progress : call.Progress content world) : ¬Stuck call world := by
  rintro ⟨waits, received, taken, quiet⟩
  cases progress with
  | announcing => cases waits
  | awaitingUnchoke unasked unchoking sent announced =>
    cases received
    cases taken
    rcases unchoking with ⟨choking, _⟩ | ⟨_, carries⟩
    · exact quiet.2 ⟨choking, announced.resolve_left List.not_mem_nil⟩
    · exact carries.ne_nil rfl
  | requesting => cases waits
  | awaitingBlock unchoked asked sent chat pending =>
    cases received
    cases taken
    rcases pending with queued | requested | answered
    · exact List.not_mem_nil queued
    · rw [quiet.1] at requested
      exact List.not_mem_nil requested
    · exact List.not_mem_nil answered
  | ended => cases waits

theorem start_eq (positive : 0 < call.pieceLength) (bounded : call.pieceLength ≤ 8 * 1024 * 1024) :
    call.start = .running 0 [] .announcing := by
  have block : 0 < call.blockLength 0 ∧ call.blockLength 0 ≤ maxRequestBlockBytes := by
    unfold blockLength maxRequestBlockBytes
    omega
  have small : maxRequestBlockBytes < 2 ^ 32 := by decide
  rw [start, if_neg (by omega), proceed, if_pos positive]
  exact if_neg (by omega)

theorem not_stuck_of_single (positive : 0 < call.pieceLength)
    (single : call.pieceLength ≤ maxRequestBlockBytes)
    (reached : (exchange call content).Reached (connection call true) world) :
    ¬Stuck call world := by
  have bounded : call.pieceLength ≤ 8 * 1024 * 1024 :=
    single.trans (by decide)
  have starts : call.Progress content (connection call true) := by
    rw [connection, start_eq positive bounded]
    exact .announcing rfl (.inl ⟨rfl, List.forall_mem_nil _⟩)
  refine (reached.invariant (call.Progress content) starts ?_).not_stuck
  intro world progress
  exact {
    clientSends := fun _ _ => progress_clientSends progress
    clientReceives := fun _ _ _ => progress_clientReceives single progress
    peerSends := fun _ _ _ => progress_peerSends progress
    peerReceives := fun _ _ => progress_peerReceives progress }

/-! ## More than one block -/

theorem stuck_of_unchoked {start : World PieceDownload Seeder PeerMessage} {begin : Nat}
    {piece : List UInt8} {interested : Bool} (reached : (exchange call content).Reached start
      ⟨.running begin piece .announcing, ⟨false, interested, []⟩, [], []⟩) :
    ∃ world, (exchange call content).Reached start world ∧ Stuck call world := by
  have runs : runActions (exchange call content).step [.clientSends, .peerReceives]
      ⟨.running begin piece .announcing, ⟨false, interested, []⟩, [], []⟩ =
      some ⟨.running begin piece .awaitingUnchoke, ⟨false, true, []⟩, [], []⟩ :=
    rfl
  exact ⟨_, reached.runActions (admitsAll_true _ _) runs, rfl, rfl, rfl, rfl,
    fun choked => Bool.noConfusion choked.1⟩

/-- The first of several blocks comes, and the client announces itself again. -/
theorem reached_second_block (several : maxRequestBlockBytes < call.pieceLength)
    (bounded : call.pieceLength ≤ 8 * 1024 * 1024) :
    (exchange call content).Reached (connection call true)
      ⟨.running maxRequestBlockBytes (content.block call.firstRequest)
        .announcing, ⟨false, true, []⟩, [], []⟩ := by
  have answered : runActions (exchange call content).step
      [.clientSends, .peerReceives, .peerSends .unchoke, .clientReceives,
        .clientSends, .peerReceives, .peerSends (.answer 0)]
      ⟨.running 0 [] .announcing, ⟨true, false, []⟩, [], []⟩ =
      some ⟨.running 0 [] .awaitingBlock, ⟨false, true, []⟩, [], [call.answer content]⟩ :=
    rfl
  have block : call.blockLength 0 = maxRequestBlockBytes :=
    Nat.min_eq_right several.le
  have first : call.onBlock 0 [] (call.answer content) =
      .running maxRequestBlockBytes (content.block call.firstRequest) .announcing := by
    rw [onBlock_answer, block, proceed_of_several several bounded]
  have received : (exchange call content).step .clientReceives
      ⟨.running 0 [] .awaitingBlock, ⟨false, true, []⟩, [], [call.answer content]⟩ =
      some ⟨call.onBlock 0 [] (call.answer content), ⟨false, true, []⟩, [], []⟩ :=
    rfl
  rw [connection, start_eq (Nat.zero_lt_of_lt several) bounded, ← first]
  exact (Reaches.refl.runActions (admitsAll_true _ _) answered).tail trivial received

end PieceCall

open PieceCall

/-- The download of a piece is never stuck, however the messages interleave,
exactly on a connection that starts choked and for a piece of one block. -/
theorem downloadPiece_never_stuck_iff (call : PieceCall) (content : Content) (choking : Bool)
    (positive : 0 < call.pieceLength)
    (bounded : call.pieceLength ≤ 8 * 1024 * 1024) :
    (∀ world, (exchange call content).Reached (connection call choking) world → ¬Stuck call world) ↔
      choking = true ∧ call.pieceLength ≤ maxRequestBlockBytes := by
  constructor
  · intro never
    cases choking with
    | false =>
      have starts : (exchange call content).Reached (connection call false)
          ⟨.running 0 [] .announcing, ⟨false, false, []⟩, [], []⟩ := by
        rw [connection, start_eq positive bounded]
        exact .refl
      obtain ⟨world, reached, stuck⟩ := stuck_of_unchoked starts
      exact absurd stuck (never world reached)
    | true =>
      refine ⟨rfl, Nat.le_of_not_lt fun several => ?_⟩
      obtain ⟨world, reached, stuck⟩ :=
        stuck_of_unchoked (reached_second_block several bounded)
      exact never world reached stuck
  · rintro ⟨rfl, single⟩ world reached
    exact not_stuck_of_single positive single reached

/-- A peer that has zeros. -/
def zeros : Content where
  block request := List.replicate request.length.toNat 0
  length_block _ := List.length_replicate

/-- A piece of zeros whose hash is not looked at. -/
def pieceOfZeros (pieceLength : Nat) : PieceCall where
  index := 0
  pieceLength
  expectedSha1 := []
  sha1 _ := []

theorem downloadPiece_never_stuck_one_block :
    0 < (pieceOfZeros 16384).pieceLength ∧ (pieceOfZeros 16384).pieceLength ≤ 8 * 1024 * 1024 ∧
      ∀ world, (exchange (pieceOfZeros 16384) zeros).Reached
          (connection (pieceOfZeros 16384) true) world →
        ¬Stuck (pieceOfZeros 16384) world :=
  ⟨by decide, by decide, (downloadPiece_never_stuck_iff (pieceOfZeros 16384)
    zeros true (by decide) (by decide)).mpr ⟨rfl, by decide⟩⟩

/-- The second block of a piece is announced to a peer that has unchoked the
client already. -/
theorem second_block_stuck :
    ∃ world, (exchange (pieceOfZeros 16385) zeros).Reached
        (connection (pieceOfZeros 16385) true) world ∧
      Stuck (pieceOfZeros 16385) world :=
  stuck_of_unchoked (reached_second_block (by decide) (by decide))

end P2pNetwork
end VideoProxy
