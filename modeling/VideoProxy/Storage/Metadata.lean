import Mathlib.Data.List.TakeWhile
import VideoProxy.Lib.IntervalTable
import VideoProxy.Lib.Word64

/-!
# The range table of a cached resource

Each cached resource has a sidecar document with the table of completed ranges
and the upstream metadata.  This module has the document, the insertion of a
completed range into its table, the edits that the storage engine makes, and the
check that a document read from disk has to pass.
-/

namespace VideoProxy

open IntervalTable

/-- Cache keys. -/
abbrev Key := String

/-- `UpstreamMeta`: what a cache hit needs to rebuild the response headers. -/
structure UpstreamMeta where
  totalSize : Option Nat := none
  contentType : Option String := none
  deriving DecidableEq

/-- `RangeMetadata`: the document stored as `ranges.json`. -/
structure RangeMetadata where
  version : Nat := 0
  completed : List (Nat × Nat) := []
  key : Option Key := none
  totalSize : Option Nat := none
  contentType : Option String := none
  deriving DecidableEq

/-- `RANGE_METADATA_VERSION`. -/
def rangeMetadataVersion : Nat := 1

/-- `slice::partition_point` on a list partitioned by the predicate. -/
def partitionPoint (predicate : α → Bool) (entries : List α) : Nat :=
  (entries.takeWhile predicate).length

/-- `merge_range`: add the closed range to a coalesced table. -/
def mergeRange (ranges : List (Nat × Nat)) (start finish : Nat) : List (Nat × Nat) :=
  let first := partitionPoint (fun range => saturatingAdd range.2 1 < start) ranges
  let last := partitionPoint (fun range => range.1 ≤ saturatingAdd finish 1) ranges
  let merged := match (ranges.take last).drop first with
    | [] => (start, finish)
    | leftmost :: rest =>
      (min leftmost.1 start, (leftmost :: rest).foldl
          (fun widest range => max widest range.2) finish)
  ranges.take first ++ merged :: ranges.drop last

/-- The loop of `metadata_is_valid` over the completed ranges. -/
def rangesAreValid (fileSize : Nat) : Option Nat → List (Nat × Nat) → Bool
  | _, [] => true
  | previousEnd, (start, finish) :: rest =>
    if start > finish ∨ finish ≥ fileSize then false
    else if previousEnd.any fun previous =>
        start ≤ saturatingAdd previous 1 then false
    else rangesAreValid fileSize (some finish) rest

/-- `metadata_is_valid`. -/
def metadataIsValid (metadata : RangeMetadata) (key : Key) (fileSize : Option Nat) : Bool :=
  if metadata.version > rangeMetadataVersion ∨ metadata.key ≠ some key then
    false
  else if metadata.totalSize.any fun total =>
      fileSize.any fun size => size > total then false
  else
    match fileSize with
    | none => metadata.completed.isEmpty
    | some size => rangesAreValid size none metadata.completed

/-- The edit of `record_completed_range`; it always reports a change. -/
def completedEdit (start finish : Nat) (metadata : RangeMetadata) : RangeMetadata × Bool :=
  ({ metadata with completed := mergeRange metadata.completed start finish }, true)

/-- The first half of the edit of `record_upstream_meta`. -/
def totalSizeEdit (declared : Option Nat) (metadata : RangeMetadata) : RangeMetadata × Bool :=
  match declared with
  | some totalSize =>
    if totalSize > 0 ∧ metadata.totalSize ≠ some totalSize then
      ({ metadata with totalSize := some totalSize }, true)
    else (metadata, false)
  | none => (metadata, false)

/-- The second half of the edit of `record_upstream_meta`. -/
def contentTypeEdit (declared : Option String) (metadata : RangeMetadata) : RangeMetadata × Bool :=
  match declared with
  | some contentType =>
    if metadata.contentType ≠ some contentType then
      ({ metadata with contentType := some contentType }, true)
    else (metadata, false)
  | none => (metadata, false)

/-- The edit of `record_upstream_meta`, with its report whether anything
changed. -/
def upstreamEdit (upstream : UpstreamMeta) (metadata : RangeMetadata) : RangeMetadata × Bool :=
  let (sized, sizeChanged) := totalSizeEdit upstream.totalSize metadata
  let (typed, typeChanged) := contentTypeEdit upstream.contentType sized
  (typed, sizeChanged || typeChanged)

/-- The stamp that `update_metadata` puts on a changed document. -/
def stamp (key : Key) (metadata : RangeMetadata) : RangeMetadata :=
  let metadata := if metadata.key ≠ some key then
      { metadata with key := some key }
    else metadata
  { metadata with version := rangeMetadataVersion }

@[simp] theorem stamp_completed (key : Key) (metadata : RangeMetadata) :
    (stamp key metadata).completed = metadata.completed := by
  unfold stamp
  split <;> rfl

@[simp] theorem stamp_totalSize (key : Key) (metadata : RangeMetadata) :
    (stamp key metadata).totalSize = metadata.totalSize := by
  unfold stamp
  split <;> rfl

@[simp] theorem stamp_contentType (key : Key) (metadata : RangeMetadata) :
    (stamp key metadata).contentType = metadata.contentType := by
  unfold stamp
  split <;> rfl

@[simp] theorem stamp_version (key : Key) (metadata : RangeMetadata) :
    (stamp key metadata).version = rangeMetadataVersion := rfl

@[simp] theorem stamp_key (key : Key) (metadata : RangeMetadata) :
    (stamp key metadata).key = some key := by
  unfold stamp
  split
  · rfl
  · rename_i same
    simpa using same

theorem totalSizeEdit_other (declared : Option Nat) (metadata : RangeMetadata) :
    (totalSizeEdit declared metadata).1.completed = metadata.completed ∧
      (totalSizeEdit declared metadata).1.contentType = metadata.contentType := by
  unfold totalSizeEdit
  repeat' split
  all_goals exact ⟨rfl, rfl⟩

theorem contentTypeEdit_other (declared : Option String) (metadata : RangeMetadata) :
    (contentTypeEdit declared metadata).1.completed = metadata.completed ∧
      (contentTypeEdit declared metadata).1.totalSize = metadata.totalSize := by
  unfold contentTypeEdit
  repeat' split
  all_goals exact ⟨rfl, rfl⟩

@[simp] theorem upstreamEdit_completed (upstream : UpstreamMeta) (metadata : RangeMetadata) :
    (upstreamEdit upstream metadata).1.completed = metadata.completed :=
  (contentTypeEdit_other _ _).1.trans (totalSizeEdit_other _ _).1

theorem upstreamEdit_totalSize (upstream : UpstreamMeta) (metadata : RangeMetadata) :
    (upstreamEdit upstream metadata).1.totalSize =
      (upstream.totalSize.filter (0 < ·)).or metadata.totalSize := by
  simp only [upstreamEdit, (contentTypeEdit_other _ _).2]
  cases upstream.totalSize with
  | none => simp [totalSizeEdit]
  | some total =>
    by_cases positive : 0 < total
    · by_cases known : metadata.totalSize = some total
      · simp [totalSizeEdit, Option.filter, positive, known]
      · simp [totalSizeEdit, Option.filter, positive, known]
    · simp [totalSizeEdit, Option.filter, positive]

theorem upstreamEdit_contentType (upstream : UpstreamMeta) (metadata : RangeMetadata) :
    (upstreamEdit upstream metadata).1.contentType =
      upstream.contentType.or metadata.contentType := by
  have sized := (totalSizeEdit_other upstream.totalSize metadata).2
  simp only [upstreamEdit]
  cases upstream.contentType with
  | none => simp [contentTypeEdit, sized]
  | some contentType =>
    by_cases known : metadata.contentType = some contentType
    · simp [contentTypeEdit, sized, known]
    · simp [contentTypeEdit, sized, known]

variable {metadata : RangeMetadata} {key : Key}

theorem upstreamEdit_unchanged {upstream : UpstreamMeta}
    (unchanged : (upstreamEdit upstream metadata).2 = false) :
    (upstreamEdit upstream metadata).1 = metadata := by
  simp only [upstreamEdit, Bool.or_eq_false_iff] at unchanged ⊢
  have sized : (totalSizeEdit upstream.totalSize metadata).1 = metadata := by
    revert unchanged
    unfold totalSizeEdit
    repeat' split
    all_goals simp
  rw [sized] at unchanged ⊢
  revert unchanged
  unfold contentTypeEdit
  repeat' split
  all_goals simp

/-! ## Inserting a completed range -/

theorem take_partitionPoint (predicate : α → Bool) (entries : List α) :
    entries.take (partitionPoint predicate entries) = entries.takeWhile predicate := by
  calc entries.take (partitionPoint predicate entries)
      = (entries.takeWhile predicate ++ entries.dropWhile predicate).take
          (partitionPoint predicate entries) := by
        rw [List.takeWhile_append_dropWhile]
    _ = entries.takeWhile predicate := List.take_left

theorem drop_partitionPoint (predicate : α → Bool) (entries : List α) :
    entries.drop (partitionPoint predicate entries) = entries.dropWhile predicate := by
  calc entries.drop (partitionPoint predicate entries)
      = (entries.takeWhile predicate ++ entries.dropWhile predicate).drop
          (partitionPoint predicate entries) := by
        rw [List.takeWhile_append_dropWhile]
    _ = entries.dropWhile predicate := List.drop_left

theorem partitionPoint_le_partitionPoint {stronger weaker : α → Bool} {entries : List α}
    (implies : ∀ entry ∈ entries, stronger entry = true → weaker entry = true) :
    partitionPoint stronger entries ≤ partitionPoint weaker entries := by
  unfold partitionPoint
  induction entries with
  | nil => simp
  | cons entry entries inductionHypothesis =>
    have rest := inductionHypothesis fun other member =>
      implies other (List.mem_cons_of_mem entry member)
    cases holds : stronger entry with
    | false => simp [holds]
    | true =>
      have also := implies entry List.mem_cons_self holds
      simpa [holds, also] using rest

section MergeRange

variable {ranges : List (Nat × Nat)} {start finish : Nat} (coalesced : Coalesced ranges)
  (words : ∀ range ∈ ranges, range.2 ≤ u64Max) (ordered : start ≤ finish)
  (word : finish ≤ u64Max)
include coalesced words ordered word

/-- The two partition points of `merge_range` cut a coalesced table into the
ranges before the new one, those that touch it, and those after it, and the
middle is replaced by the hull. -/
theorem mergeRange_cut :
    ∃ before touching after, ranges = before ++ touching ++ after ∧ mergeRange ranges start finish =
        before ++ hull (start, finish) touching :: after ∧
      (∀ range ∈ before, Separated range (start, finish)) ∧
      (∀ range ∈ touching, start ≤ range.2 + 1 ∧ range.1 ≤ finish + 1) ∧
      ∀ range ∈ after, Separated (start, finish) range := by
  let isBefore : Nat × Nat → Bool :=
    fun range => saturatingAdd range.2 1 < start
  let reaches : Nat × Nat → Bool :=
    fun range => range.1 ≤ saturatingAdd finish 1
  have isBefore_iff (range : Nat × Nat) :
      isBefore range = true ↔ range.2 + 1 < start := by
    simp only [isBefore, decide_eq_true_eq]
    exact saturatingAdd_one_lt_iff (by omega)
  have reaches_iff (range : Nat × Nat) (member : range ∈ ranges) :
      reaches range = true ↔ range.1 ≤ finish + 1 := by
    have proper := coalesced.proper range member
    have wordEnd := words range member
    simp only [reaches, decide_eq_true_eq]
    exact le_saturatingAdd_one_iff (by omega)
  have nested : partitionPoint isBefore ranges ≤ partitionPoint reaches ranges := by
    apply partitionPoint_le_partitionPoint
    intro range member early
    have proper := coalesced.proper range member
    rw [isBefore_iff] at early
    rw [reaches_iff range member]
    omega
  refine ⟨ranges.take (partitionPoint isBefore ranges),
    (ranges.take (partitionPoint reaches ranges)).drop (partitionPoint isBefore ranges),
    ranges.drop (partitionPoint reaches ranges),
    (take_append_between_append_drop nested ranges).symm, ?_, ?_, ?_, ?_⟩
  · simp only [mergeRange, isBefore, reaches]
    generalize (ranges.take _).drop _ = touching
    cases touching <;> rfl
  · intro range member
    rw [take_partitionPoint] at member
    exact (isBefore_iff range).mp (List.mem_takeWhile_imp member)
  · intro range member
    have inRanges : range ∈ ranges :=
      List.mem_of_mem_take (List.mem_of_mem_drop member)
    have late : range ∈ ranges.dropWhile isBefore := by
      rw [List.drop_take] at member
      rw [← drop_partitionPoint]
      exact List.mem_of_mem_take member
    have early : range ∈ ranges.takeWhile reaches := by
      rw [← take_partitionPoint]
      exact List.mem_of_mem_drop member
    have notBefore := not_of_mem_dropWhile coalesced.pairwise_ordered (by
        intro left right gap rightBefore
        rw [isBefore_iff] at rightBefore ⊢
        omega) late
    have touches : ¬range.2 + 1 < start := by
      rw [← isBefore_iff, notBefore]
      exact Bool.false_ne_true
    exact ⟨by omega, (reaches_iff range inRanges).mp (List.mem_takeWhile_imp early)⟩
  · intro range member
    have inRanges : range ∈ ranges := List.mem_of_mem_drop member
    rw [drop_partitionPoint] at member
    have notReached := not_of_mem_dropWhile coalesced.pairwise_ordered (by
        intro left right gap rightReaches
        rw [decide_eq_true_eq] at rightReaches ⊢
        omega) member
    have beyond : ¬range.1 ≤ finish + 1 := by
      rw [← reaches_iff range inRanges, notReached]
      exact Bool.false_ne_true
    unfold Separated
    omega

theorem mergeRange_coalesced : Coalesced (mergeRange ranges start finish) := by
  obtain ⟨before, touching, after, cut, merged, beforeGap, _, afterGap⟩ :=
    mergeRange_cut coalesced words ordered word
  rw [merged]
  rw [cut] at coalesced
  exact coalesced.splice_hull ordered beforeGap afterGap

theorem covers_mergeRange (point : Nat) :
    Covers (mergeRange ranges start finish) point ↔
      Covers ranges point ∨ (start ≤ point ∧ point ≤ finish) := by
  obtain ⟨before, touching, after, cut, merged, _, touches, _⟩ :=
    mergeRange_cut coalesced words ordered word
  rw [merged]
  rw [cut] at coalesced ⊢
  exact covers_splice_hull coalesced touches point

/-- Inserting a range below a bound keeps a table below it. -/
theorem mergeRange_bounded {bound : Nat} (bounded : ∀ range ∈ ranges, range.2 ≤ bound)
    (below : finish ≤ bound) :
    ∀ range ∈ mergeRange ranges start finish, range.2 ≤ bound := by
  intro range member
  have covered := (mergeRange_coalesced coalesced words ordered word).covers_last member
  rcases (covers_mergeRange coalesced words ordered word range.2).mp covered with
    ⟨old, inRanges, -, reaches⟩ | ⟨-, reaches⟩
  · exact reaches.trans (bounded old inRanges)
  · exact reaches.trans below

end MergeRange

/-! ## The check of a document read from disk -/

/-- The loop of the check accepts exactly the coalesced tables inside the file
that continue after the range checked before. -/
theorem rangesAreValid_iff {fileSize : Nat} (word : fileSize ≤ u64Max) {previousEnd : Option Nat}
    (previousInside : ∀ previous ∈ previousEnd, previous < fileSize) (ranges : List (Nat × Nat)) :
    rangesAreValid fileSize previousEnd ranges = true ↔
      Coalesced ranges ∧ (∀ range ∈ ranges, range.2 < fileSize) ∧
        ∀ previous ∈ previousEnd, ∀ range ∈ ranges, previous + 1 < range.1 := by
  induction ranges generalizing previousEnd with
  | nil => simp [rangesAreValid, Coalesced.nil]
  | cons range ranges inductionHypothesis =>
    obtain ⟨start, finish⟩ := range
    have gap_iff : (previousEnd.any fun previous =>
        decide (start ≤ saturatingAdd previous 1)) = true ↔
        ¬∀ previous ∈ previousEnd, previous + 1 < start := by
      cases previousEnd with
      | none => simp
      | some previous =>
        have inside := previousInside previous rfl
        rw [Option.any_some, decide_eq_true_eq, saturatingAdd_of_le (by omega)]
        simp
    unfold rangesAreValid
    by_cases improper : start > finish ∨ finish ≥ fileSize
    · rw [if_pos improper]
      simp only [Bool.false_eq_true, false_iff]
      intro valid
      have proper := valid.1.proper _ List.mem_cons_self
      have inside := valid.2.1 _ List.mem_cons_self
      simp only at proper inside
      omega
    · rw [if_neg improper]
      by_cases early : ∀ previous ∈ previousEnd, previous + 1 < start
      · rw [if_neg (by rw [gap_iff]; exact not_not_intro early),
          inductionHypothesis (by simp; omega), Coalesced.cons_iff]
        constructor
        · rintro ⟨coalesced, inside, gaps⟩
          refine ⟨⟨by omega, gaps finish rfl, coalesced⟩, ?_, ?_⟩
          · exact List.forall_mem_cons.mpr ⟨by simp only; omega, inside⟩
          · intro previous member
            have first := early previous member
            refine List.forall_mem_cons.mpr ⟨first, ?_⟩
            intro range inTail
            have second := gaps finish rfl range inTail
            omega
        · rintro ⟨⟨_, gaps, coalesced⟩, inside, _⟩
          refine ⟨coalesced, (List.forall_mem_cons.mp inside).2, ?_⟩
          intro previous member range inTail
          obtain rfl := Option.some.inj member
          exact gaps range inTail
      · rw [if_pos (gap_iff.mpr early)]
        simp only [Bool.false_eq_true, false_iff]
        intro valid
        exact early fun previous member =>
          valid.2.2 previous member _ List.mem_cons_self

theorem key_eq_of_metadataIsValid {fileSize : Option Nat}
    (valid : metadataIsValid metadata key fileSize = true) :
    metadata.key = some key := by
  by_contra foreign
  unfold metadataIsValid at valid
  rw [if_pos (.inr foreign)] at valid
  cases valid

/-- A document read from disk passes the check beside an existing file exactly
when its table is coalesced and lies inside the file. -/
theorem metadataIsValid_some_iff {fileSize : Nat} (word : fileSize ≤ u64Max) :
    metadataIsValid metadata key (some fileSize) = true ↔
      metadata.version ≤ rangeMetadataVersion ∧ metadata.key = some key ∧
        (∀ total ∈ metadata.totalSize, fileSize ≤ total) ∧
        Coalesced metadata.completed ∧
        ∀ range ∈ metadata.completed, range.2 < fileSize := by
  have ranges_iff : rangesAreValid fileSize none metadata.completed = true ↔
      Coalesced metadata.completed ∧ ∀ range ∈ metadata.completed, range.2 < fileSize := by
    rw [rangesAreValid_iff word (by simp)]
    simp
  unfold metadataIsValid
  split
  · rename_i foreign
    simp only [Bool.false_eq_true, false_iff]
    rintro ⟨version, owner, _⟩
    rcases foreign with newer | other
    · omega
    · exact other owner
  · rename_i own
    obtain ⟨version, owner⟩ := not_or.mp own
    cases declared : metadata.totalSize with
    | none =>
      simp only [Option.any_none, Bool.false_eq_true, if_false, ranges_iff]
      simp_all
    | some total =>
      by_cases short : fileSize > total
      · simp [short]
      · simp only [Option.any_some, decide_eq_true_eq, if_neg short, ranges_iff]
        simp_all

theorem metadataIsValid_none_iff :
    metadataIsValid metadata key none = true ↔
      metadata.version ≤ rangeMetadataVersion ∧ metadata.key = some key ∧
        metadata.completed = [] := by
  unfold metadataIsValid
  split
  · rename_i foreign
    simp only [Bool.false_eq_true, false_iff]
    rintro ⟨version, owner, _⟩
    rcases foreign with newer | other
    · omega
    · exact other owner
  · rename_i own
    obtain ⟨version, owner⟩ := not_or.mp own
    have unsized : ¬(metadata.totalSize.any fun total =>
        (none : Option Nat).any fun size => decide (size > total)) := by
      cases metadata.totalSize <;> simp
    rw [if_neg unsized]
    simp_all

/-- `slice::partition_point` may be used: what satisfies the predicate comes first. -/
def Partitioned (predicate : α → Bool) (entries : List α) : Prop :=
  entries.Pairwise fun left right => predicate right = true → predicate left = true

/-- Inserting a range into a coalesced table of words: both searches are made in a
partitioned table, the result is a coalesced table of words for the union, and a
document with it is valid beside a file that has all of its bytes. -/
theorem mergeRange_maintains {ranges : List (Nat × Nat)} {start finish : Nat}
    (coalesced : Coalesced ranges) (words : ∀ range ∈ ranges, range.2 ≤ u64Max)
    (ordered : start ≤ finish) (word : finish ≤ u64Max) :
    (Partitioned (fun range => decide (saturatingAdd range.2 1 < start)) ranges ∧
      Partitioned (fun range => decide (range.1 ≤ saturatingAdd finish 1)) ranges) ∧
    Coalesced (mergeRange ranges start finish) ∧
    (∀ range ∈ mergeRange ranges start finish, range.2 ≤ u64Max) ∧
    (∀ point, Covers (mergeRange ranges start finish) point ↔
      Covers ranges point ∨ start ≤ point ∧ point ≤ finish) ∧
    ∀ fileSize ≤ u64Max, (∀ range ∈ ranges, range.2 < fileSize) → finish < fileSize →
      ∀ (metadata : RangeMetadata) (key : Key),
        metadata.version ≤ rangeMetadataVersion → metadata.key = some key →
        (∀ total ∈ metadata.totalSize, fileSize ≤ total) →
        metadataIsValid { metadata with completed := mergeRange ranges start finish } key
          (some fileSize) = true := by
  have merged := mergeRange_coalesced coalesced words ordered word
  refine ⟨⟨?_, ?_⟩, merged, mergeRange_bounded coalesced words ordered word words word,
    covers_mergeRange coalesced words ordered word, ?_⟩
  · refine coalesced.pairwise_ordered.imp fun ⟨_, gap, _⟩ before => ?_
    rw [decide_eq_true_eq, saturatingAdd_one_lt_iff (by omega)] at before ⊢
    omega
  · refine coalesced.pairwise_ordered.imp fun ⟨_, gap, _⟩ reached => ?_
    rw [decide_eq_true_eq] at reached ⊢
    omega
  · intro fileSize fileWord inside below metadata key version own fits
    refine (metadataIsValid_some_iff fileWord).mpr ⟨version, own, fits, merged, ?_⟩
    have bounded := mergeRange_bounded coalesced words ordered word
      (fun range member => Nat.le_pred_of_lt (inside range member)) (Nat.le_pred_of_lt below)
    exact fun range member => Nat.lt_of_le_pred (Nat.zero_lt_of_lt below) (bounded range member)

/-- A range that ends with the last word joins the last range of a table. -/
theorem mergeRange_maintains_last :
    mergeRange [(0, 3), (5, u64Max - 1)] 7 u64Max = [(0, 3), (5, u64Max)] ∧
      Coalesced (mergeRange [(0, 3), (5, u64Max - 1)] 7 u64Max) := by
  have coalesced : Coalesced [(0, 3), (5, u64Max - 1)] :=
    ⟨by decide, List.pairwise_pair.mpr (show 3 + 1 < 5 by decide)⟩
  exact ⟨by decide, (mergeRange_maintains coalesced (by decide) (by decide) (by decide)).2.1⟩

end VideoProxy
