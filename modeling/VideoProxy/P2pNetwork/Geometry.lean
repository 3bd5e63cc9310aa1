import VideoProxy.P2pNetwork.PieceScheduler

/-!
# Pieces and bytes of a torrent

The pieces of a torrent are to divide its bytes: each has a length between one and
the length of a piece, together they have the length of the torrent, and every
byte belongs to a piece of the table.  The number of pieces that is compared with
the table is a conversion of a 64-bit quotient to `usize`, which drops bits on a
32-bit machine.  The division is right exactly if the quotient is a machine word.
-/

namespace VideoProxy
namespace P2pNetwork

open Faulty

/-! ## The code, for any size of a machine word -/

/-- `usize::try_from`. -/
def usizeTryFrom (bits value : Nat) : Option Nat :=
  if value < 2 ^ bits then some value else none

namespace PieceScheduler

/-- The loop of `prioritize_byte_range`; an index outside of the table stops the
process. -/
def raisePriorities (priority : Nat) :
    List Nat → Faulty PieceScheduler ProxyError Unit
  | [] => pure ()
  | index :: indices => fun scheduler =>
    if index < scheduler.slots.length then
      raisePriorities priority indices (scheduler.adjust index fun slot =>
        { slot with priority := max slot.priority priority })
    else (.stopped, scheduler)

/-- `PieceScheduler::prioritize_byte_range`. -/
def prioritizeByteRange (bits : Nat) (metadata : TorrentMetadata)
    (start finish priority : Nat) : Faulty PieceScheduler ProxyError Unit :=
  fun scheduler =>
    if start > finish ∨ finish ≥ metadata.totalLength ∨
        metadata.pieceSha1.length ≠ scheduler.slots.length then
      (.error (.request "invalid playback priority range"), scheduler)
    else if metadata.pieceLength = 0 then (.stopped, scheduler)
    else
      match usizeTryFrom bits (start / metadata.pieceLength),
          usizeTryFrom bits (finish / metadata.pieceLength) with
      | some first, some last =>
        raisePriorities priority (List.range' first (last + 1 - first)) scheduler
      | _, _ => (.error (.request "priority piece index overflow"), scheduler)

end PieceScheduler

/-! ## What an accepted input has -/

theorem foldlM_checkedAdd_le {files : List TorrentFile} {start total : Nat} (small : start ≤ u64Max)
    (summed : files.foldlM (fun total file => checkedAdd total file.length) start = some total) :
    total ≤ u64Max := by
  induction files generalizing start with
  | nil =>
    cases summed
    exact small
  | cons file files inductionHypothesis =>
    rw [List.foldlM_cons] at summed
    obtain ⟨next, next_eq, summed⟩ := Option.bind_eq_some_iff.mp summed
    obtain ⟨rfl, bounded⟩ := checkedAdd_eq_some_iff.mp next_eq
    exact inductionHypothesis bounded summed

/-- The table of the pieces of an accepted torrent. -/
structure Tabled (bits : Nat) (metadata : TorrentMetadata) : Prop where
  positive : 0 < metadata.pieceLength
  short : metadata.pieceLength ≤ 8 * 1024 * 1024
  nonempty : 0 < metadata.pieceSha1.length
  few : metadata.pieceSha1.length ≤ 1000000
  count : metadata.pieceSha1.length =
    asUsize bits ((metadata.totalLength + metadata.pieceLength - 1) / metadata.pieceLength)
  word : metadata.totalLength ≤ u64Max

theorem torrentPiecesAt_eq_ok {bits : Nat} {info : Entries} {totalLength pieceLength : Nat}
    {pieceSha1 : List (List UInt8)}
    (accepted : torrentPiecesAt bits info totalLength = .ok (pieceLength, pieceSha1)) :
    0 < pieceLength ∧ pieceLength ≤ 8 * 1024 * 1024 ∧ 0 < pieceSha1.length ∧
      pieceSha1.length ≤ 1000000 ∧
      pieceSha1.length = asUsize bits ((totalLength + pieceLength - 1) / pieceLength) := by
  unfold torrentPiecesAt at accepted
  split at accepted
  · cases accepted
  · rename_i length length_eq
    have bounds := Option.mem_filter_iff.mp length_eq
    simp only [Bool.decide_and, Bool.and_eq_true, decide_eq_true_eq] at bounds
    split at accepted
    · rename_i pieces _
      split at accepted
      · cases accepted
      · rename_i shaped
        split at accepted
        · cases accepted
        · rename_i few
          split at accepted
          · cases accepted
          · rename_i count
            cases accepted
            have nonempty : 0 < pieces.length := by
              rw [List.length_pos_iff]
              intro empty
              exact shaped (Or.inl (List.isEmpty_iff.mpr empty))
            rw [List.length_map, List.length_range]
            exact ⟨bounds.2.2.1, bounds.2.2.2, by omega, by omega, by omega⟩
    · cases accepted

theorem tabled_of_accepted {bits : Nat} {sha1 : List UInt8 → List UInt8} {input : List UInt8}
    {metadata : TorrentMetadata}
    (accepted : parseTorrentMetadataAt bits sha1 input = .ok metadata) :
    Tabled bits metadata := by
  obtain ⟨found, parser, -, checked⟩ := parseTorrentMetadataAt_eq_ok accepted
  obtain ⟨-, -, summed, pieces_eq, -⟩ := torrentMetadataAt_eq_ok checked
  obtain ⟨positive, short, nonempty, few, count⟩ := torrentPiecesAt_eq_ok pieces_eq
  exact ⟨positive, short, nonempty, few, count, foldlM_checkedAdd_le (Nat.zero_le _) summed⟩

/-! ## Lengths of the pieces -/

/-- The pieces of a torrent divide its bytes, and the scheduler finds the pieces of
any of them. -/
structure Coherent (bits : Nat) (metadata : TorrentMetadata) : Prop where
  lengths : ∃ length : Nat → Nat, (∀ index < metadata.pieceSha1.length,
      torrentPieceLength metadata index = .ok (length index) ∧
        1 ≤ length index ∧ length index ≤ metadata.pieceLength) ∧
    ((List.range metadata.pieceSha1.length).map length).sum = metadata.totalLength
  priorities : ∀ scheduler : PieceScheduler, scheduler.slots.length = metadata.pieceSha1.length →
    ∀ start finish priority, start ≤ finish → finish < metadata.totalLength → ∃ after,
        PieceScheduler.prioritizeByteRange bits metadata start finish priority scheduler =
          (.ok (), after)

section Pieces

variable {bits : Nat} {metadata : TorrentMetadata}

theorem ceil_bounds {length total count : Nat} (positive : 0 < length) (nonempty : 0 < count)
    (count_eq : count = (total + length - 1) / length) :
    length * (count - 1) < total ∧ total ≤ length * count := by
  have product := Nat.div_add_mod (total + length - 1) length
  have remainder := Nat.mod_lt (total + length - 1) positive
  rw [← count_eq] at product
  obtain ⟨before, rfl⟩ := Nat.exists_eq_add_one.mpr nonempty
  rw [Nat.add_sub_cancel, Nat.mul_add, Nat.mul_one] at *
  omega

/-- A piece is as long as the others, or what the others leave. -/
def dividedLength (metadata : TorrentMetadata) (index : Nat) : Nat :=
  if index + 1 < metadata.pieceSha1.length then metadata.pieceLength
  else metadata.totalLength - metadata.pieceLength * index

theorem torrentPieceLength_eq (tabled : Tabled bits metadata)
    (before : metadata.pieceLength * (metadata.pieceSha1.length - 1) < metadata.totalLength)
    (after : metadata.totalLength ≤ metadata.pieceLength * metadata.pieceSha1.length) {index : Nat}
    (inside : index < metadata.pieceSha1.length) :
    torrentPieceLength metadata index = .ok (dividedLength metadata index) ∧
      1 ≤ dividedLength metadata index ∧
      dividedLength metadata index ≤ metadata.pieceLength := by
  have positive := tabled.positive
  have short := tabled.short
  have word := tabled.word
  unfold torrentPieceLength dividedLength
  rw [if_neg (Nat.not_le.mpr inside)]
  by_cases earlier : index + 1 < metadata.pieceSha1.length
  · simp only [if_pos earlier]
    exact ⟨trivial, positive, Nat.le_refl _⟩
  · have last : index = metadata.pieceSha1.length - 1 := by omega
    have next : metadata.pieceLength * metadata.pieceSha1.length =
        metadata.pieceLength * index + metadata.pieceLength := by
      rw [← Nat.mul_succ, last]
      congr 1
      omega
    rw [← last] at before
    have rest : checkedSub metadata.totalLength (metadata.pieceLength * index) =
        some (metadata.totalLength - metadata.pieceLength * index) :=
      checkedSub_eq_some_iff.mpr ⟨before.le, rfl⟩
    rw [if_neg earlier, if_neg earlier, if_neg (by omega), rest]
    exact ⟨if_neg (by omega), by omega, by omega⟩

theorem sum_dividedLength (nonempty : 0 < metadata.pieceSha1.length)
    (before : metadata.pieceLength * (metadata.pieceSha1.length - 1) < metadata.totalLength) :
    ((List.range metadata.pieceSha1.length).map (dividedLength metadata)).sum =
      metadata.totalLength := by
  obtain ⟨others, count⟩ := Nat.exists_eq_add_one.mpr nonempty
  have same : (List.range others).map (dividedLength metadata) =
      List.replicate others metadata.pieceLength := by
    rw [List.eq_replicate_iff]
    refine ⟨by rw [List.length_map, List.length_range], fun length member => ?_⟩
    obtain ⟨index, inside, rfl⟩ := List.mem_map.mp member
    have early := List.mem_range.mp inside
    exact if_pos (by omega)
  have last : dividedLength metadata others =
      metadata.totalLength - metadata.pieceLength * others := if_neg (by omega)
  rw [count, Nat.add_sub_cancel] at before
  rw [count, List.range_succ, List.map_append, List.sum_append, same, List.sum_replicate_nat,
    List.map_singleton, List.sum_singleton, last, Nat.mul_comm]
  omega

namespace PieceScheduler

theorem raisePriorities_ok (priority : Nat) {indices : List Nat} {scheduler : PieceScheduler}
    (inside : ∀ index ∈ indices, index < scheduler.slots.length) :
    ∃ after, raisePriorities priority indices scheduler = (.ok (), after) := by
  induction indices generalizing scheduler with
  | nil => exact ⟨scheduler, rfl⟩
  | cons index indices inductionHypothesis =>
    unfold raisePriorities
    rw [if_pos (inside index List.mem_cons_self)]
    refine inductionHypothesis fun other member => ?_
    rw [adjust, List.length_modify]
    exact inside other (List.mem_cons_of_mem _ member)

theorem prioritizeByteRange_ok (tabled : Tabled bits metadata) (fits : 1000000 < 2 ^ bits)
    (after : metadata.totalLength ≤ metadata.pieceLength * metadata.pieceSha1.length)
    {scheduler : PieceScheduler} (sized : scheduler.slots.length = metadata.pieceSha1.length)
    {start finish : Nat} (ordered : start ≤ finish) (inside : finish < metadata.totalLength)
    (priority : Nat) :
    ∃ left, prioritizeByteRange bits metadata start finish priority scheduler = (.ok (), left) := by
  have positive := tabled.positive
  have few := tabled.few
  have last : finish / metadata.pieceLength < metadata.pieceSha1.length := by
    rw [Nat.div_lt_iff_lt_mul positive, Nat.mul_comm]
    omega
  have first : start / metadata.pieceLength ≤ finish / metadata.pieceLength :=
    Nat.div_le_div_right ordered
  unfold prioritizeByteRange usizeTryFrom
  rw [if_neg (by omega), if_neg (by omega), if_pos (by omega), if_pos (by omega)]
  refine raisePriorities_ok priority fun index member => ?_
  obtain ⟨_, upper⟩ := List.mem_range'_1.mp member
  omega

end PieceScheduler

theorem length_sum_le {length : Nat → Nat} {count bound : Nat}
    (each : ∀ index < count, length index ≤ bound) :
    ((List.range count).map length).sum ≤ bound * count := by
  induction count with
  | zero => exact Nat.zero_le _
  | succ count inductionHypothesis =>
    have earlier := inductionHypothesis fun index inside => each index (by omega)
    have last := each count (Nat.lt_succ_self count)
    rw [List.range_succ, List.map_append, List.sum_append, List.map_singleton,
      List.sum_singleton, Nat.mul_succ]
    omega

/-- The division is right exactly if the number of pieces is a machine word. -/
theorem coherent_iff {sha1 : List UInt8 → List UInt8} {input : List UInt8}
    (word : bits = 32 ∨ bits = 64)
    (accepted : parseTorrentMetadataAt bits sha1 input = .ok metadata) :
    Coherent bits metadata ↔
      (metadata.totalLength + metadata.pieceLength - 1) / metadata.pieceLength < 2 ^ bits := by
  have tabled := tabled_of_accepted accepted
  constructor
  · rintro ⟨⟨length, each, sum_eq⟩, _⟩
    have narrow : metadata.pieceSha1.length < 2 ^ bits := by
      rw [tabled.count]
      exact Nat.mod_lt _ (Nat.two_pow_pos bits)
    refine Nat.lt_of_le_of_lt ?_ narrow
    have covered := length_sum_le fun index inside => (each index inside).2.2
    have positive := tabled.positive
    rw [Nat.div_le_iff_le_mul_add_pred positive]
    omega
  · intro small
    have count_eq : metadata.pieceSha1.length =
        (metadata.totalLength + metadata.pieceLength - 1) / metadata.pieceLength :=
      tabled.count.trans (Nat.mod_eq_of_lt small)
    obtain ⟨before, after⟩ := ceil_bounds tabled.positive tabled.nonempty count_eq
    have fits : 1000000 < 2 ^ bits := by
      rcases word with rfl | rfl <;> decide
    exact ⟨⟨dividedLength metadata,
        fun index inside => torrentPieceLength_eq tabled before after inside,
        sum_dividedLength tabled.nonempty before⟩,
      fun scheduler sized start finish priority ordered inside =>
        PieceScheduler.prioritizeByteRange_ok tabled fits after sized ordered inside priority⟩

/-- The torrent of two files is divided on a 32-bit machine. -/
theorem coherent_two_files :
    parseTorrentMetadataAt 32 (fun _ => []) twoFiles = .ok twoFilesMetadata ∧
      Coherent 32 twoFilesMetadata := by
  have parsed : parseTorrentMetadataAt 32 (fun _ => []) twoFiles = .ok twoFilesMetadata := by
    decide +kernel
  exact ⟨parsed, (coherent_iff (Or.inl rfl) parsed).mpr (by decide)⟩

/-- A torrent of `2 ^ 32 + 1` bytes in pieces of one byte. -/
def hugeMetadata : TorrentMetadata where
  infoHash := []
  name := "a".toList
  totalLength := 2 ^ 32 + 1
  pieceLength := 1
  pieceSha1 := [List.replicate 20 97]
  files := [{ path := ["a".toList], length := 2 ^ 32 + 1 }]

/-- It is accepted with one hash on a 32-bit machine, its piece has no length, and
giving priority to its second byte stops the process. -/
theorem huge_torrent_incoherent :
    parseTorrentMetadataAt 32 (fun _ => [])
        (Text.ascii ("d4:infod6:lengthi4294967297e4:name1:a12:piece lengthi1e" ++
          "6:pieces20:aaaaaaaaaaaaaaaaaaaaee").toList) = .ok hugeMetadata ∧
      torrentPieceLength hugeMetadata 0 = .error (.request "last piece length overflow") ∧
      ((PieceScheduler.prioritizeByteRange 32 hugeMetadata 1 1 0)
        ⟨[⟨.missing, 0, 0, 0⟩], 3⟩).1 = .stopped := by
  refine ⟨by decide +kernel, by decide +kernel, by decide +kernel⟩

end Pieces

end P2pNetwork
end VideoProxy
