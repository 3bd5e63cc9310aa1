import Mathlib.Data.List.MinMax
import Mathlib.Data.Prod.Lex
import Mathlib.Logic.Function.Basic
import VideoProxy.P2pNetwork.BlockExchange
import VideoProxy.P2pNetwork.Torrent

/-!
# Pieces to download

A `PieceScheduler` says which piece is downloaded next, and a `TorrentPieceStore`
has a file for each piece.  A piece is claimed, and is complete or missing again
after that.
-/

namespace VideoProxy
namespace P2pNetwork

/-! ## The scheduler -/

/-- `PieceState`. -/
inductive PieceState
  | missing
  | inFlight
  | complete
  deriving DecidableEq

/-- What the vectors of a `PieceScheduler` have for one piece. -/
structure PieceSlot where
  state : PieceState
  availability : Nat
  failures : Nat
  priority : Nat

/-- `PieceScheduler`. -/
structure PieceScheduler where
  slots : List PieceSlot
  maxFailures : Nat

/-- A peer with this bitfield has the piece. -/
def hasPiece (bitfield : List UInt8) (index : Nat) : Prop :=
  bitfield.getD (index / 8) 0 &&& (0x80 : UInt8) >>> UInt8.ofNat (index % 8) ≠ 0

instance (bitfield : List UInt8) (index : Nat) : Decidable (hasPiece bitfield index) :=
  inferInstanceAs (Decidable (_ ≠ _))

namespace PieceScheduler

/-- `PieceScheduler::new`. -/
def new (pieceCount maxFailures : Nat) : Except ProxyError PieceScheduler :=
  if pieceCount = 0 ∨ pieceCount > 1000000 ∨ maxFailures = 0 then
    .error (.request "invalid piece scheduler limits")
  else
    .ok {
      slots := List.replicate pieceCount
        { state := .missing, availability := 0, failures := 0, priority := 0 }
      maxFailures }

/-- The bits of the last byte that stand for no piece are not set. -/
def spareBitsClear (bitfield : List UInt8) (pieceCount : Nat) : Prop :=
  let spareBits := bitfield.length * 8 - pieceCount
  spareBits = 0 ∨ bitfield.getLastD 0 &&& ((1 : UInt8) <<< UInt8.ofNat spareBits) - 1 = 0

instance (bitfield : List UInt8) (pieceCount : Nat) :
    Decidable (spareBitsClear bitfield pieceCount) :=
  inferInstanceAs (Decidable (_ ∨ _))

/-- The slots after a bitfield of the right length. -/
def countPieces (bitfield : List UInt8) (slots : List PieceSlot) : List PieceSlot :=
  slots.mapIdx fun index slot =>
    if hasPiece bitfield index then
      { slot with availability := min (slot.availability + 1) (2 ^ 32 - 1) }
    else slot

/-- `PieceScheduler::observe_bitfield`. -/
def observeBitfield (bitfield : List UInt8) :
    Faulty PieceScheduler ProxyError Unit :=
  fun scheduler =>
    let count := scheduler.slots.length
    if bitfield.length ≠ (count + 7) / 8 then
      (.error (.parse "peer bitfield length mismatch"), scheduler)
    else
      let observed := { scheduler with slots := countPieces bitfield scheduler.slots }
      if spareBitsClear bitfield count then (.ok (), observed)
      else (.error (.parse "peer bitfield sets spare bits"), observed)

/-- The piece can be claimed for a peer. -/
def Claimable (scheduler : PieceScheduler) (bitfield : List UInt8)
    (entry : PieceSlot × Nat) : Prop :=
  hasPiece bitfield entry.2 ∧ entry.1.state = .missing ∧ entry.1.failures < scheduler.maxFailures

instance (scheduler : PieceScheduler) (bitfield : List UInt8) :
    DecidablePred (scheduler.Claimable bitfield) :=
  fun _ => inferInstanceAs (Decidable (_ ∧ _))

/-- Pieces with a high priority come first, then those that few peers have and
those that failed less often. -/
def order (entry : PieceSlot × Nat) : Nat ×ₗ Nat ×ₗ Nat ×ₗ Nat :=
  toLex (255 - entry.1.priority, toLex (entry.1.availability, toLex (entry.1.failures, entry.2)))

/-- The slot of a piece changes. -/
def adjust (scheduler : PieceScheduler) (index : Nat)
    (change : PieceSlot → PieceSlot) : PieceScheduler :=
  { scheduler with slots := scheduler.slots.modify index change }

/-- `PieceScheduler::claim_next`. -/
def claimNext (bitfield : List UInt8) :
    Faulty PieceScheduler ProxyError (Option Nat) :=
  fun scheduler =>
    if bitfield.length ≠ (scheduler.slots.length + 7) / 8 then
      (.error (.parse "peer bitfield length mismatch"), scheduler)
    else
      match (scheduler.slots.zipIdx.filter (scheduler.Claimable bitfield)).argmin order with
      | some (_, index) =>
        (.ok (some index), scheduler.adjust index fun slot =>
          { slot with state := .inFlight })
      | none => (.ok none, scheduler)

/-- The checks and the change of `complete` and `fail`. -/
def settle (index : Nat) (change : PieceSlot → PieceSlot) :
    Faulty PieceScheduler ProxyError Unit :=
  fun scheduler =>
    match scheduler.slots[index]? with
    | none => (.error (.request "piece index out of range"), scheduler)
    | some slot =>
      if slot.state ≠ .inFlight then
        (.error (.request "piece is not in flight"), scheduler)
      else (.ok (), scheduler.adjust index change)

/-- `PieceScheduler::complete`. -/
def complete (index : Nat) : Faulty PieceScheduler ProxyError Unit :=
  settle index fun slot => { slot with state := .complete }

/-- `PieceScheduler::fail`. -/
def fail (index : Nat) : Faulty PieceScheduler ProxyError Unit :=
  settle index fun slot =>
    { slot with failures := min (slot.failures + 1) 255, state := .missing }

/-- The state of a piece, if there is such a piece. -/
def stateOf (scheduler : PieceScheduler) (index : Nat) : Option PieceState :=
  scheduler.slots[index]?.map PieceSlot.state

/-- The failures of a piece. -/
def failuresOf (scheduler : PieceScheduler) (index : Nat) : Nat :=
  scheduler.slots[index]?.elim 0 PieceSlot.failures

/-- A piece gets a state and a number of failures, and the others keep theirs. -/
structure Becomes (index : Nat) (state : PieceState) (failures : Nat)
    (before after : PieceScheduler) : Prop where
  others : ∀ other, other ≠ index → after.stateOf other = before.stateOf other ∧
    after.failuresOf other = before.failuresOf other
  state : after.stateOf index = some state
  failures : after.failuresOf index = failures
  limit : after.maxFailures = before.maxFailures

section Operations

variable {scheduler after : PieceScheduler} {bitfield : List UInt8} {index : Nat}

theorem new_slots {pieceCount maxFailures : Nat}
    (made : new pieceCount maxFailures = .ok scheduler) :
    (∀ index state, scheduler.stateOf index = some state → state = .missing) ∧
      (∀ index, scheduler.failuresOf index = 0) ∧
      scheduler.maxFailures = maxFailures := by
  unfold new at made
  split at made
  · cases made
  · cases made
    refine ⟨fun index state there => ?_, fun index => ?_, rfl⟩
    · obtain ⟨slot, found, rfl⟩ := Option.map_eq_some_iff.mp there
      rw [List.eq_of_mem_replicate (List.mem_of_getElem? found)]
    · rw [failuresOf, List.getElem?_replicate]
      split <;> rfl

theorem adjust_becomes {slot : PieceSlot} (found : scheduler.slots[index]? = some slot)
    (change : PieceSlot → PieceSlot) :
    Becomes index (change slot).state (change slot).failures scheduler
      (scheduler.adjust index change) := by
  have changed : (scheduler.adjust index change).slots[index]? = some (change slot) := by
    simp [adjust, found]
  refine ⟨fun other ne => ?_, ?_, ?_, rfl⟩
  · have same : (scheduler.adjust index change).slots[other]? = scheduler.slots[other]? := by
      simp [adjust, Ne.symm ne]
    rw [stateOf, stateOf, failuresOf, failuresOf, same]
    exact ⟨rfl, rfl⟩
  · rw [stateOf, changed]
    rfl
  · rw [failuresOf, changed]
    rfl

/-- A piece that is claimed was missing, is one that the peer has and has not
failed too often. -/
theorem claimNext_some (claims : claimNext bitfield scheduler = (.ok (some index), after)) :
    hasPiece bitfield index ∧ scheduler.stateOf index = some .missing ∧
      scheduler.failuresOf index < scheduler.maxFailures ∧
      Becomes index .inFlight (scheduler.failuresOf index) scheduler after := by
  simp only [claimNext] at claims
  split at claims
  · cases claims
  · split at claims
    · rename_i slot chosen least
      cases claims
      obtain ⟨listed, claimable⟩ := List.mem_filter.mp (List.argmin_mem least)
      have found : scheduler.slots[index]? = some slot :=
        List.mem_zipIdx_iff_getElem?.mp listed
      obtain ⟨has, missing, below⟩ := of_decide_eq_true claimable
      have failures_eq : scheduler.failuresOf index = slot.failures := by
        rw [failuresOf, found]
        rfl
      rw [failures_eq, stateOf, found]
      exact ⟨has, congrArg some missing, below, adjust_becomes found fun slot =>
        { slot with state := .inFlight }⟩
    · cases claims

theorem claimNext_of_not_some {outcome : Exit ProxyError (Option Nat)}
    (claims : claimNext bitfield scheduler = (outcome, after))
    (nothing : ∀ index, outcome ≠ .ok (some index)) :
    after = scheduler := by
  simp only [claimNext] at claims
  split at claims
  · cases claims
    rfl
  · split at claims
    · cases claims
      exact absurd rfl (nothing _)
    · cases claims
      rfl

theorem claimNext_ne_stopped : claimNext bitfield scheduler ≠ (.stopped, after) := by
  intro claims
  simp only [claimNext] at claims
  split at claims
  · cases claims
  · split at claims
    · cases claims
    · cases claims

theorem settle_becomes {change : PieceSlot → PieceSlot}
    (inFlight : scheduler.stateOf index = some .inFlight) :
    ∃ slot after, scheduler.slots[index]? = some slot ∧
      settle index change scheduler = (.ok (), after) ∧
      Becomes index (change slot).state (change slot).failures scheduler after := by
  obtain ⟨slot, found, state_eq⟩ := Option.map_eq_some_iff.mp inFlight
  refine ⟨slot, _, found, ?_, adjust_becomes found change⟩
  simp only [settle, found, state_eq, ne_eq, not_true_eq_false, if_false]

theorem complete_becomes (inFlight : scheduler.stateOf index = some .inFlight) :
    ∃ after, complete index scheduler = (.ok (), after) ∧
      Becomes index .complete (scheduler.failuresOf index) scheduler after := by
  obtain ⟨slot, after, found, settles, becomes⟩ := settle_becomes inFlight
  rw [failuresOf, found]
  exact ⟨after, settles, becomes⟩

theorem fail_becomes (inFlight : scheduler.stateOf index = some .inFlight) :
    ∃ after, fail index scheduler = (.ok (), after) ∧
      Becomes index .missing (min (scheduler.failuresOf index + 1) 255) scheduler after := by
  obtain ⟨slot, after, found, settles, becomes⟩ := settle_becomes inFlight
  rw [failuresOf, found]
  exact ⟨after, settles, becomes⟩

/-- The states, the failures and their limit are the same. -/
structure SameStates (before after : PieceScheduler) : Prop where
  states : ∀ index, after.stateOf index = before.stateOf index
  failures : ∀ index, after.failuresOf index = before.failuresOf index
  limit : after.maxFailures = before.maxFailures

theorem SameStates.refl (scheduler : PieceScheduler) : SameStates scheduler scheduler :=
  ⟨fun _ => rfl, fun _ => rfl, rfl⟩

/-- Observing a bitfield changes availabilities only. -/
theorem observeBitfield_sameStates {outcome : Exit ProxyError Unit}
    (observes : observeBitfield bitfield scheduler = (outcome, after)) :
    SameStates scheduler after := by
  have counted : SameStates scheduler { scheduler with
      slots := scheduler.slots.mapIdx fun index slot =>
        if hasPiece bitfield index then
          { slot with availability := min (slot.availability + 1) (2 ^ 32 - 1) }
        else slot } := by
    refine ⟨fun index => ?_, fun index => ?_, rfl⟩
    · rw [stateOf, stateOf, List.getElem?_mapIdx, Option.map_map]
      congr 1
      funext slot
      simp only [Function.comp_apply]
      split <;> rfl
    · rw [failuresOf, failuresOf, List.getElem?_mapIdx]
      cases scheduler.slots[index]? with
      | none => rfl
      | some slot =>
        simp only [Option.map_some, Option.elim_some]
        split <;> rfl
  simp only [observeBitfield] at observes
  split at observes
  · cases observes
    exact .refl scheduler
  · split at observes
    · cases observes
      exact counted
    · cases observes
      exact counted

end Operations

end PieceScheduler

/-! ## The store -/

/-- The files of a `TorrentPieceStore`: `.piece` and `.piece.tmp` by index. -/
structure TorrentPieceStore where
  pieces : Nat → Option (List UInt8)
  temps : Nat → Option (List UInt8)

namespace TorrentPieceStore

/-- The file of a piece changes. -/
def setPiece (store : TorrentPieceStore) (index : Nat)
    (file : Option (List UInt8)) : TorrentPieceStore :=
  { store with pieces := Function.update store.pieces index file }

/-- The temporary file of a piece changes. -/
def setTemp (store : TorrentPieceStore) (index : Nat)
    (file : Option (List UInt8)) : TorrentPieceStore :=
  { store with temps := Function.update store.temps index file }

/-- A file of this size can be a piece. -/
def IsPieceSize (bytes : List UInt8) : Prop :=
  ¬(bytes = [] ∨ bytes.length > 8 * 1024 * 1024)

instance (bytes : List UInt8) : Decidable (IsPieceSize bytes) :=
  inferInstanceAs (Decidable (¬_))

/-- `TorrentPieceStore::load`.  Reading may fail with an error, and so may the
removal of a file that is not the piece. -/
def load (call : PieceCall) (readFault : Option String) (removes : Bool) (index : Nat)
    (store : TorrentPieceStore) :
    Except ProxyError (Option (List UInt8)) × TorrentPieceStore :=
  match readFault with
  | some reason =>
    (.error (.storage ("read torrent piece failed: " ++ reason)), store)
  | none =>
    match store.pieces index with
    | none => (.ok none, store)
    | some bytes =>
      if IsPieceSize bytes ∧ call.verifyPieceSha1 bytes = .ok bytes then
        (.ok (some bytes), store)
      else
        (.ok none, if removes then store.setPiece index none else store)

/-- The checks of `TorrentPieceStore::store`. -/
def checkStore (call : PieceCall) (bytes : List UInt8) :
    Except ProxyError (List UInt8) :=
  if IsPieceSize bytes then call.verifyPieceSha1 bytes
  else .error (.storage "invalid torrent piece size")

end TorrentPieceStore

/-- `torrent_piece_length`. -/
def torrentPieceLength (metadata : TorrentMetadata) (index : Nat) :
    Except ProxyError Nat :=
  if index ≥ metadata.pieceSha1.length then
    .error (.request "piece index out of range")
  else if index + 1 < metadata.pieceSha1.length then .ok metadata.pieceLength
  else if metadata.pieceLength * index > u64Max then
    .error (.request "piece offset overflow")
  else
    match checkedSub metadata.totalLength (metadata.pieceLength * index) with
    | none => .error (.request "piece length underflow")
    | some length =>
      if length ≥ 2 ^ 32 then
        .error (.request "last piece length overflow")
      else .ok length

end P2pNetwork
end VideoProxy
