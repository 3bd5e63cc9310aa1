import Mathlib.Data.List.Count
import VideoProxy.P2pNetwork.Geometry

/-!
# Rarest first

The scheduler counts for each piece the peers that have it and gives out the piece that
fewest have.  It counts the bits of a bitfield before it has checked the spare bits at
the end, and keeps what it counted when that check fails: the counts are those of the
accepted bitfields exactly if no rejected one of the right length had a piece.
-/

namespace VideoProxy
namespace P2pNetwork
namespace PieceScheduler

/-- The calls of a scheduler. -/
inductive Call
  | observeBitfield (bitfield : List UInt8)
  | claimNext (bitfield : List UInt8)
  | complete (index : Nat)
  | fail (index : Nat)
  | prioritizeByteRange (metadata : TorrentMetadata) (start finish : Nat) (priority : UInt8)

/-- The effect of a call on the scheduler and on the list of the bitfields that were
accepted, on a machine with words of so many bits. -/
def perform (bits : Nat) (run : PieceScheduler × List (List UInt8)) :
    Call → PieceScheduler × List (List UInt8)
  | .observeBitfield bitfield =>
    match observeBitfield bitfield run.1 with
    | (.ok (), after) => (after, run.2 ++ [bitfield])
    | (_, after) => (after, run.2)
  | .claimNext bitfield => ((claimNext bitfield run.1).2, run.2)
  | .complete index => ((complete index run.1).2, run.2)
  | .fail index => ((fail index run.1).2, run.2)
  | .prioritizeByteRange metadata start finish priority =>
    ((prioritizeByteRange bits metadata start finish priority.toNat run.1).2, run.2)

/-- Calls from a scheduler on. -/
def performAll (bits : Nat) (start : PieceScheduler) (calls : List Call) :
    PieceScheduler × List (List UInt8) :=
  calls.foldl (perform bits) (start, [])

/-- The bitfields that calls show to the scheduler. -/
def shown (calls : List Call) : List (List UInt8) :=
  calls.filterMap fun
    | .observeBitfield bitfield => some bitfield
    | _ => none

/-! ## The purpose of the scheduler -/

/-- How many of the bitfields have a piece. -/
def peersWith (bitfields : List (List UInt8)) (index : Nat) : Nat :=
  bitfields.countP fun bitfield => hasPiece bitfield index

/-- A piece comes before another one: its priority is higher, fewer peers have it, it
failed less often, or it has the lower index. -/
def Before (peers : Nat → Nat) (piece other : PieceSlot × Nat) : Prop :=
  other.1.priority < piece.1.priority ∨ other.1.priority = piece.1.priority ∧
    (peers piece.2 < peers other.2 ∨ peers piece.2 = peers other.2 ∧
      (piece.1.failures < other.1.failures ∨ piece.1.failures = other.1.failures ∧
        piece.2 ≤ other.2))

/-- The right answer to a claim. -/
def Answers (scheduler : PieceScheduler) (peers : Nat → Nat) (bitfield : List UInt8) :
    Option Nat → Prop
  | some index => ∃ slot, (slot, index) ∈ scheduler.slots.zipIdx ∧
      scheduler.Claimable bitfield (slot, index) ∧
      ∀ other ∈ scheduler.slots.zipIdx, scheduler.Claimable bitfield other →
        Before peers (slot, index) other
  | none => ∀ other ∈ scheduler.slots.zipIdx, ¬scheduler.Claimable bitfield other

/-! ## Availabilities -/

/-- The bitfields of the right length. -/
def fitting (pieceCount : Nat) (bitfields : List (List UInt8)) : List (List UInt8) :=
  bitfields.filter fun bitfield => bitfield.length = (pieceCount + 7) / 8

/-- What the availabilities count: the bitfields of the right length. -/
structure Counts (pieceCount : Nat) (bitfields : List (List UInt8))
    (run : PieceScheduler × List (List UInt8)) : Prop where
  length_eq : run.1.slots.length = pieceCount
  accepted_eq : run.2 = (fitting pieceCount bitfields).filter fun bitfield =>
    spareBitsClear bitfield pieceCount
  priorities : ∀ slot ∈ run.1.slots, slot.priority ≤ 255
  availabilities : ∀ entry ∈ run.1.slots.zipIdx, entry.1.availability =
    min (peersWith (fitting pieceCount bitfields) entry.2) (2 ^ 32 - 1)

variable {pieceCount : Nat} {bitfields : List (List UInt8)}
  {run : PieceScheduler × List (List UInt8)}

section Change

variable (counts : Counts pieceCount bitfields run) (index : Nat) {change : PieceSlot → PieceSlot}
  (priority_le : ∀ slot, slot.priority ≤ 255 → (change slot).priority ≤ 255)
  (availability_eq : ∀ slot, (change slot).availability = slot.availability)
include counts priority_le availability_eq

theorem Counts.adjust :
    Counts pieceCount bitfields (run.1.adjust index change, run.2) := by
  have slot_cases : ∀ (place : Nat) slot, (run.1.slots.modify index change)[place]? = some slot →
      ∃ old, run.1.slots[place]? = some old ∧ (slot = old ∨ slot = change old) := by
    intro place slot found
    rw [List.getElem?_modify] at found
    obtain ⟨old, old_eq, rfl⟩ := Option.map_eq_some_iff.mp found
    refine ⟨old, old_eq, ?_⟩
    split
    · exact .inr rfl
    · exact .inl rfl
  refine ⟨?_, counts.accepted_eq, fun slot member => ?_, fun entry member => ?_⟩
  · exact (List.length_modify _ _ _).trans counts.length_eq
  · obtain ⟨place, found⟩ := List.mem_iff_getElem?.mp member
    obtain ⟨old, old_eq, rfl | rfl⟩ := slot_cases place slot found
    · exact counts.priorities _ (List.mem_of_getElem? old_eq)
    · exact priority_le old (counts.priorities old (List.mem_of_getElem? old_eq))
  · obtain ⟨old, old_eq, same⟩ :=
      slot_cases entry.2 entry.1 (List.mem_zipIdx_iff_getElem?.mp member)
    have counted := counts.availabilities (old, entry.2) (List.mem_zipIdx_iff_getElem?.mpr old_eq)
    rcases same with same | same
    · rw [same]
      exact counted
    · rw [same, availability_eq]
      exact counted

theorem Counts.settle :
    Counts pieceCount bitfields ((settle index change run.1).2, run.2) := by
  unfold PieceScheduler.settle
  split
  · exact counts
  · split
    · exact counts
    · exact counts.adjust index priority_le availability_eq

end Change

theorem Counts.raisePriorities (counts : Counts pieceCount bitfields run) (priority : UInt8)
    (indices : List Nat) :
    Counts pieceCount bitfields ((raisePriorities priority.toNat indices run.1).2, run.2) := by
  induction indices generalizing run with
  | nil => exact counts
  | cons index indices inductionHypothesis =>
    rw [PieceScheduler.raisePriorities]
    beta_reduce
    split
    · have small := priority.toNat_lt
      have raised : Counts pieceCount bitfields (run.1.adjust index fun slot =>
          { slot with priority := max slot.priority priority.toNat }, run.2) :=
        counts.adjust index (fun slot bounded => Nat.max_le.mpr ⟨bounded, by omega⟩) fun _ => rfl
      exact inductionHypothesis raised
    · exact counts

theorem Counts.claimNext (counts : Counts pieceCount bitfields run) (bitfield : List UInt8) :
    Counts pieceCount bitfields ((claimNext bitfield run.1).2, run.2) := by
  unfold PieceScheduler.claimNext
  split
  · exact counts
  · split
    · exact counts.adjust _ (fun _ small => small) fun _ => rfl
    · exact counts

theorem fitting_concat (pieceCount : Nat) (bitfields : List (List UInt8)) (bitfield : List UInt8) :
    fitting pieceCount (bitfields ++ [bitfield]) =
      if bitfield.length = (pieceCount + 7) / 8 then fitting pieceCount bitfields ++ [bitfield]
      else fitting pieceCount bitfields := by
  rw [fitting, List.filter_append, List.filter_singleton]
  split
  · rename_i fits
    simp [fits, fitting]
  · rename_i differs
    simp [differs, fitting]

theorem peersWith_concat (bitfields : List (List UInt8)) (bitfield : List UInt8) (index : Nat) :
    peersWith (bitfields ++ [bitfield]) index =
      peersWith bitfields index + if hasPiece bitfield index then 1 else 0 := by
  rw [peersWith, List.countP_append, List.countP_singleton]
  simp only [decide_eq_true_eq, peersWith]

variable {bitfield : List UInt8}

theorem Counts.countPieces (counts : Counts pieceCount bitfields run)
    (fits : bitfield.length = (pieceCount + 7) / 8) {accepted : List (List UInt8)}
    (accepted_eq : accepted = (fitting pieceCount bitfields ++ [bitfield]).filter fun bitfield =>
      spareBitsClear bitfield pieceCount) :
    Counts pieceCount (bitfields ++ [bitfield])
      ({ run.1 with slots := countPieces bitfield run.1.slots }, accepted) := by
  refine ⟨List.length_mapIdx.trans counts.length_eq, ?_, fun slot member => ?_,
    fun entry member => ?_⟩
  · rw [fitting_concat, if_pos fits]
    exact accepted_eq
  · obtain ⟨index, inside, rfl⟩ := List.mem_mapIdx.mp member
    have bounded := counts.priorities _ (List.getElem_mem inside)
    split
    · exact bounded
    · exact bounded
  · have found := List.mem_zipIdx_iff_getElem?.mp member
    rw [PieceScheduler.countPieces, List.getElem?_mapIdx] at found
    obtain ⟨old, old_eq, slot_eq⟩ := Option.map_eq_some_iff.mp found
    have counted := counts.availabilities (old, entry.2) (List.mem_zipIdx_iff_getElem?.mpr old_eq)
    simp only at counted
    rw [← slot_eq, fitting_concat, if_pos fits, peersWith_concat]
    split
    · simp only [counted]
      omega
    · simp only [counted, Nat.add_zero]

/-- A bitfield of the right length is counted, accepted or not. -/
theorem Counts.observeBitfield (counts : Counts pieceCount bitfields run) (bits : Nat)
    (bitfield : List UInt8) :
    Counts pieceCount (bitfields ++ [bitfield]) (perform bits run (.observeBitfield bitfield)) := by
  by_cases fits : bitfield.length = (pieceCount + 7) / 8
  · by_cases clear : spareBitsClear bitfield pieceCount
    · have performed : PieceScheduler.perform bits run (.observeBitfield bitfield) =
          ({ run.1 with slots := PieceScheduler.countPieces bitfield run.1.slots },
            run.2 ++ [bitfield]) := by
        simp [PieceScheduler.perform, PieceScheduler.observeBitfield, counts.length_eq, fits,
          clear, PieceScheduler.countPieces]
      rw [performed]
      apply counts.countPieces fits
      rw [counts.accepted_eq, List.filter_append, List.filter_singleton, decide_eq_true clear]
      rfl
    · have performed : PieceScheduler.perform bits run (.observeBitfield bitfield) =
          ({ run.1 with slots := PieceScheduler.countPieces bitfield run.1.slots }, run.2) := by
        simp [PieceScheduler.perform, PieceScheduler.observeBitfield, counts.length_eq, fits,
          clear, PieceScheduler.countPieces]
      rw [performed]
      apply counts.countPieces fits
      rw [counts.accepted_eq, List.filter_append, List.filter_singleton, decide_eq_false clear]
      exact (List.append_nil _).symm
  · have performed : PieceScheduler.perform bits run (.observeBitfield bitfield) = run := by
      simp [PieceScheduler.perform, PieceScheduler.observeBitfield, counts.length_eq, fits]
    rw [performed]
    refine ⟨counts.length_eq, ?_, counts.priorities, ?_⟩
    · rw [fitting_concat, if_neg fits]
      exact counts.accepted_eq
    · rw [fitting_concat, if_neg fits]
      exact counts.availabilities

theorem Counts.perform (counts : Counts pieceCount bitfields run) (bits : Nat) (call : Call) :
    Counts pieceCount (bitfields ++ shown [call]) (perform bits run call) := by
  cases call with
  | observeBitfield bitfield => exact counts.observeBitfield bits bitfield
  | claimNext bitfield =>
    rw [show shown [.claimNext bitfield] = [] from rfl, List.append_nil]
    exact counts.claimNext bitfield
  | complete index =>
    rw [show shown [.complete index] = [] from rfl, List.append_nil]
    exact counts.settle index (fun _ small => small) fun _ => rfl
  | fail index =>
    rw [show shown [.fail index] = [] from rfl, List.append_nil]
    exact counts.settle index (fun _ small => small) fun _ => rfl
  | prioritizeByteRange metadata start finish priority =>
    rw [show shown [.prioritizeByteRange metadata start finish priority] = [] from rfl,
      List.append_nil]
    rw [PieceScheduler.perform, PieceScheduler.prioritizeByteRange]
    split
    · exact counts
    · split
      · exact counts
      · split
        · exact counts.raisePriorities priority _
        · exact counts

theorem performAll_counts {maxFailures : Nat} {start : PieceScheduler}
    (made : new pieceCount maxFailures = .ok start) (bits : Nat) (calls : List Call) :
    Counts pieceCount (shown calls) (performAll bits start calls) := by
  have begins : Counts pieceCount [] (start, []) := by
    unfold new at made
    split at made
    · cases made
    · cases made
      refine ⟨List.length_replicate, rfl, fun slot member => ?_, fun entry member => ?_⟩
      · rw [List.eq_of_mem_replicate member]
        exact Nat.zero_le _
      · have found := List.mem_of_getElem? (List.mem_zipIdx_iff_getElem?.mp member)
        rw [List.eq_of_mem_replicate found]
        rfl
  have steps : ∀ (calls : List Call) (earlier : List (List UInt8)) run,
      Counts pieceCount earlier run →
        Counts pieceCount (earlier ++ shown calls)
          (calls.foldl (PieceScheduler.perform bits) run) := by
    intro calls
    induction calls with
    | nil =>
      intro earlier run counts
      rwa [show shown [] = [] from rfl, List.append_nil]
    | cons call calls inductionHypothesis =>
      intro earlier run counts
      have next := inductionHypothesis _ _ (counts.perform bits call)
      have shown_eq : shown [call] ++ shown calls = shown (call :: calls) := by
        rw [shown, shown, ← List.filterMap_append]
        rfl
      rwa [List.append_assoc, shown_eq] at next
  exact steps calls [] _ begins

/-! ## Claims -/

theorem order_le_iff {peers : Nat → Nat} {piece other : PieceSlot × Nat}
    (pieceCounted : piece.1.availability = peers piece.2)
    (otherCounted : other.1.availability = peers other.2) (pieceBounded : piece.1.priority ≤ 255)
    (otherBounded : other.1.priority ≤ 255) :
    order piece ≤ order other ↔ Before peers piece other := by
  rw [order, order, Before, ← pieceCounted, ← otherCounted]
  simp only [Prod.Lex.toLex_le_toLex]
  omega

theorem claimNext_answers {scheduler : PieceScheduler} {peers : Nat → Nat}
    (fits : bitfield.length = (scheduler.slots.length + 7) / 8)
    (priorities : ∀ slot ∈ scheduler.slots, slot.priority ≤ 255)
    (counted : ∀ entry ∈ scheduler.slots.zipIdx, entry.1.availability = peers entry.2) :
    ∃ outcome after, PieceScheduler.claimNext bitfield scheduler = (.ok outcome, after) ∧
      Answers scheduler peers bitfield outcome := by
  have bounded : ∀ entry ∈ scheduler.slots.zipIdx, entry.1.priority ≤ 255 := fun entry member =>
    priorities entry.1 (List.mem_of_getElem? (List.mem_zipIdx_iff_getElem?.mp member))
  unfold PieceScheduler.claimNext
  rw [if_neg (not_not_intro fits)]
  split
  · rename_i slot index least
    obtain ⟨listed, claimable⟩ := List.mem_filter.mp (List.argmin_mem least)
    refine ⟨some index, _, rfl, slot, listed, of_decide_eq_true claimable,
      fun other member otherClaimable => ?_⟩
    rw [← order_le_iff (counted _ listed) (counted _ member) (bounded _ listed) (bounded _ member)]
    exact List.le_of_mem_argmin (List.mem_filter.mpr ⟨member, decide_eq_true otherClaimable⟩) least
  · rename_i empty
    rw [List.argmin_eq_none, List.filter_eq_nil_iff] at empty
    exact ⟨none, _, rfl, fun other member claimable =>
      empty other member (decide_eq_true claimable)⟩

/-- The bitfields that are rejected for their spare bits. -/
def rejected (pieceCount : Nat) (bitfields : List (List UInt8)) : List (List UInt8) :=
  (fitting pieceCount bitfields).filter fun bitfield => ¬spareBitsClear bitfield pieceCount

theorem mem_rejected :
    bitfield ∈ rejected pieceCount bitfields ↔ bitfield ∈ bitfields ∧
      bitfield.length = (pieceCount + 7) / 8 ∧ ¬spareBitsClear bitfield pieceCount := by
  simp only [rejected, fitting, List.mem_filter, decide_eq_true_eq, and_assoc]

/-- The availability of a piece counts the rejected bitfields too. -/
theorem Counts.availability_eq (counts : Counts pieceCount bitfields run)
    (few : bitfields.length < 2 ^ 32) {entry : PieceSlot × Nat}
    (member : entry ∈ run.1.slots.zipIdx) :
    entry.1.availability =
      peersWith run.2 entry.2 + peersWith (rejected pieceCount bitfields) entry.2 := by
  have bounded : peersWith (fitting pieceCount bitfields) entry.2 < 2 ^ 32 :=
    Nat.lt_of_le_of_lt (List.countP_le_length.trans (List.length_filter_le _ _)) few
  have split := List.countP_eq_countP_filter_add (fitting pieceCount bitfields)
    (fun bitfield => decide (hasPiece bitfield entry.2))
    (fun bitfield => decide (spareBitsClear bitfield pieceCount))
  rw [counts.availabilities entry member, counts.accepted_eq, Nat.min_eq_left (by omega)]
  simpa only [peersWith, rejected, decide_not] using split

/-- The calls that show fewer than 2^32 bitfields leave availabilities that count the
accepted ones, and claims that are answered by them, exactly if no bitfield of the right
length that was rejected for its spare bits has a piece. -/
theorem rarestFirst_iff {pieceCount maxFailures : Nat} {start : PieceScheduler}
    (made : new pieceCount maxFailures = .ok start) (bits : Nat) {calls : List Call}
    (few : (shown calls).length < 2 ^ 32) :
    ((∀ entry ∈ (performAll bits start calls).1.slots.zipIdx,
        entry.1.availability = peersWith (performAll bits start calls).2 entry.2) ∧
      ∀ bitfield : List UInt8, bitfield.length = (pieceCount + 7) / 8 → ∃ outcome after,
          PieceScheduler.claimNext bitfield (performAll bits start calls).1 = (.ok outcome, after) ∧
          Answers (performAll bits start calls).1 (peersWith (performAll bits start calls).2)
            bitfield outcome) ↔
      ∀ bitfield ∈ shown calls, bitfield.length = (pieceCount + 7) / 8 →
        ¬spareBitsClear bitfield pieceCount → ∀ index < pieceCount, ¬hasPiece bitfield index := by
  have counts := performAll_counts made bits calls
  generalize performAll bits start calls = run at counts ⊢
  constructor
  · rintro ⟨counted, -⟩ bitfield shownBitfield fits unclear index inside has
    have insideSlots : index < run.1.slots.length := counts.length_eq ▸ inside
    have member : (run.1.slots[index], index) ∈ run.1.slots.zipIdx :=
      List.mem_zipIdx_iff_getElem?.mpr (List.getElem?_eq_getElem insideSlots)
    have total := counts.availability_eq few member
    have accepted := counted _ member
    have positive : 0 < peersWith (rejected pieceCount (shown calls)) index :=
      List.countP_pos_iff.mpr
        ⟨bitfield, mem_rejected.mpr ⟨shownBitfield, fits, unclear⟩, decide_eq_true has⟩
    simp only at total accepted
    omega
  · intro harmless
    have counted : ∀ entry ∈ run.1.slots.zipIdx,
        entry.1.availability = peersWith run.2 entry.2 := by
      intro entry member
      have inside : entry.2 < pieceCount := by
        rw [← counts.length_eq]
        exact (List.getElem?_eq_some_iff.mp (List.mem_zipIdx_iff_getElem?.mp member)).1
      rw [counts.availability_eq few member, Nat.add_eq_left]
      refine List.countP_eq_zero.mpr fun bitfield refused has => ?_
      obtain ⟨shownBitfield, fits, unclear⟩ := mem_rejected.mp refused
      exact harmless bitfield shownBitfield fits unclear entry.2 inside (of_decide_eq_true has)
    refine ⟨counted, fun bitfield fits => ?_⟩
    exact claimNext_answers (by rw [counts.length_eq, fits]) counts.priorities counted

/-- A scheduler of four pieces. -/
def fourPieces : PieceScheduler where
  slots := List.replicate 4 ⟨.missing, 0, 0, 0⟩
  maxFailures := 1

theorem rarestFirst_iff_four :
    (∀ bitfield ∈ shown [.observeBitfield [0xA0], .claimNext [0xF0]],
        bitfield.length = (4 + 7) / 8 → ¬spareBitsClear bitfield 4 →
          ∀ index < 4, ¬hasPiece bitfield index) ∧
      ∀ entry ∈ (performAll 64 fourPieces
          [.observeBitfield [0xA0], .claimNext [0xF0]]).1.slots.zipIdx,
        entry.1.availability = peersWith (performAll 64 fourPieces
          [.observeBitfield [0xA0], .claimNext [0xF0]]).2 entry.2 := by
  have harmless : ∀ bitfield ∈ shown [.observeBitfield [0xA0], .claimNext [0xF0]],
      bitfield.length = (4 + 7) / 8 → ¬spareBitsClear bitfield 4 →
        ∀ index < 4, ¬hasPiece bitfield index := by
    decide
  exact ⟨harmless, ((rarestFirst_iff (show new 4 1 = .ok fourPieces from rfl) 64
    (by decide)).mpr harmless).1⟩

/-- Four pieces and a bitfield that sets the four spare bits: it is rejected and counted. -/
theorem fourPieces_count_rejected :
    (observeBitfield [0xFF] fourPieces).1 = .error (.parse "peer bitfield sets spare bits") ∧
      (performAll 64 fourPieces [.observeBitfield [0xFF]]).1.slots.map PieceSlot.availability =
        [1, 1, 1, 1] ∧
      (performAll 64 fourPieces [.observeBitfield [0xFF]]).2 = [] := by
  decide

end PieceScheduler
end P2pNetwork
end VideoProxy
