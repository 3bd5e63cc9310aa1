import VideoProxy.Storage.Lengths
import VideoProxy.Storage.Restart

/-!
# Sidecars of an older layout

A sidecar of an older layout lists ranges of an existing data file, but may have
no key in it.  A new process reads it, enumerates it, and replaces it with the
next change.  The same check decides each time whether the ranges are trusted, and
it asks for the key, so a sidecar without one is never upgraded: its ranges are
not answered from, it is removed at start-up, and the next change starts anew.
-/

namespace VideoProxy
namespace DiskStorage

open Faulty IntervalTable

/-! ## Reading a sidecar for the first time -/

/-- The document that an update starts from when nothing is in the index. -/
def trusted (key : Key) (disk : Disk) (metadata : RangeMetadata) : RangeMetadata :=
  if metadataIsValid metadata key ((disk.files.lookup key).map SparseFile.length) then
    metadata
  else {}

section Fresh

variable {env : Environment} (calm : env.Calm)
variable {key : Key} {disk after : Disk} {metadata : RangeMetadata}
include calm

theorem loadMetadata_found (found : disk.sidecars.lookup key = some (.metadata metadata)) :
    ∃ clock, loadMetadata env key disk = (.ok (if metadataIsValid metadata key
        ((disk.files.lookup key).map SparseFile.length) then some metadata
        else none), { disk with clock := clock }) := by
  unfold loadMetadata
  rw [bind_of_ok (fsQuery_calm calm _ disk)]
  simp only [found]
  rw [bind_of_ok (dataFileSize_calm calm key _)]
  exact ⟨_, rfl⟩

/-- An update replaces the sidecar if its edit changes what is trusted of it. -/
theorem updateMetadata_found (found : disk.sidecars.lookup key = some (.metadata metadata))
    (fresh : disk.index.lookup key = none) {edit : RangeMetadata → RangeMetadata × Bool}
    (updates : updateMetadata env key edit disk = (.ok (), after)) :
    after.sidecars.lookup key = some (.metadata (if (edit (trusted key disk metadata)).2 then
        stamp key (edit (trusted key disk metadata)).1
      else metadata)) := by
  obtain ⟨clock, loads⟩ := loadMetadata_found calm found
  have current : currentMetadata env key disk =
      (.ok (trusted key disk metadata), { disk with clock := clock }) := by
    unfold currentMetadata trusted
    rw [bind_of_ok (gets_apply _ disk)]
    simp only [fresh]
    rw [bind_of_ok loads]
    split
    · rfl
    · rfl
  unfold updateMetadata at updates
  rw [bind_of_ok current] at updates
  cases changed : (edit (trusted key disk metadata)).2 with
  | false =>
    simp only [changed] at updates
    cases updates
    exact found
  | true =>
    simp only [changed] at updates
    obtain ⟨_, written, writes, rest⟩ := exists_of_bind_eq_ok updates
    cases rest
    rw [if_pos rfl]
    have committed := writeMetadata_eq_ok writes
    exact committed

end Fresh

/-! ## Checking ranges -/

/-- The last position that a range asks for. -/
def lastPosition (metadata : RangeMetadata) (length : Nat) (range : Nat × Nat) : Option Nat :=
  if range.2 = openEnded then checkedSub (metadata.totalSize.getD length) 1
  else some range.2

/-- The sidecar passes the check, and nothing else is in the index. -/
structure Loads (key : Key) (metadata : RangeMetadata) (file : SparseFile)
    (disk : Disk) : Prop where
  sidecar : disk.sidecars.lookup key = some (.metadata metadata)
  data : disk.files.lookup key = some file
  valid : metadataIsValid metadata key (some file.length) = true
  indexed : ∀ entry, disk.index.lookup key = some entry → entry = metadata

section Checking

variable {env : Environment} (calm : env.Calm)
variable {key : Key} {disk : Disk} {metadata : RangeMetadata} {file : SparseFile}
include calm

theorem Loads.withMetadata (loads : Loads key metadata file disk) (view : RangeMetadata → α) :
    ∃ after, DiskStorage.withMetadata env key view disk = (.ok (view metadata), after) ∧
      Loads key metadata file after := by
  unfold DiskStorage.withMetadata
  rw [bind_of_ok (gets_apply _ disk)]
  cases cached : disk.index.lookup key with
  | some entry =>
    rw [loads.indexed entry cached]
    exact ⟨disk, rfl, loads⟩
  | none =>
    obtain ⟨clock, found⟩ := loadMetadata_found calm loads.sidecar
    rw [loads.data, Option.map_some, if_pos loads.valid] at found
    simp only
    rw [bind_of_ok found]
    refine ⟨_, rfl, loads.sidecar, loads.data, loads.valid, fun entry indexed => ?_⟩
    simp only [indexInsert_lookup, Option.some.injEq] at indexed
    exact indexed.symm

theorem Loads.requestedEnd (loads : Loads key metadata file disk) (range : Nat × Nat) :
    ∃ after, DiskStorage.requestedEnd env key range disk =
        (.ok (lastPosition metadata file.length range), after) ∧
      Loads key metadata file after := by
  unfold DiskStorage.requestedEnd lastPosition
  split
  · obtain ⟨middle, views, loadsMiddle⟩ :=
      loads.withMetadata calm RangeMetadata.totalSize
    rw [bind_of_ok views]
    cases metadata.totalSize with
    | some total => exact ⟨middle, rfl, loadsMiddle⟩
    | none =>
      simp only
      rw [bind_of_ok (dataFileSize_calm calm key middle), loadsMiddle.data]
      exact ⟨_, rfl, loadsMiddle.sidecar, loadsMiddle.data, loadsMiddle.valid, loadsMiddle.indexed⟩
  · exact ⟨disk, rfl, loads⟩

/-- A check is answered from the ranges of the sidecar. -/
theorem Loads.checkRange (loads : Loads key metadata file disk)
    (coalesced : Coalesced metadata.completed) {range : Nat × Nat} {last : Nat}
    (asked : lastPosition metadata file.length range = some last) (ordered : range.1 ≤ last) :
    ∃ answer after, DiskStorage.checkRange env key range disk = (.ok answer, after) ∧
      (answer = true ↔ ∀ offset, range.1 ≤ offset → offset ≤ last →
        Covers metadata.completed offset) := by
  obtain ⟨middle, ends, loadsMiddle⟩ := loads.requestedEnd calm range
  unfold DiskStorage.checkRange
  rw [bind_of_ok ends, asked]
  simp only
  obtain ⟨viewed, views, loadsViewed⟩ := loadsMiddle.withMetadata calm fun metadata =>
    metadata.completed.any fun completed =>
      completed.1 ≤ range.1 && last ≤ completed.2
  rw [bind_of_ok views, coalesced.forall_covers_iff ordered]
  cases covered : metadata.completed.any fun completed =>
      completed.1 ≤ range.1 && last ≤ completed.2 with
  | false =>
    refine ⟨false, _, rfl, iff_of_false Bool.false_ne_true ?_⟩
    rintro ⟨interval, member, lower, upper⟩
    have refused := List.any_eq_false.mp covered interval member
    simp [lower, upper] at refused
  | true =>
    simp only [if_true]
    rw [bind_of_ok (dataFileSize_calm calm key viewed), loadsViewed.data]
    refine ⟨true, _, rfl, iff_of_true rfl ?_⟩
    obtain ⟨interval, member, inside⟩ := List.any_eq_true.mp covered
    simp only [Bool.and_eq_true, decide_eq_true_eq] at inside
    exact ⟨interval, member, inside⟩

end Checking

/-! ## The next change -/

/-- The sidecar has the current layout and lists exactly these offsets. -/
def Upgraded (key : Key) (covered : Nat → Prop) (disk : Disk) : Prop :=
  ∃ metadata, disk.sidecars.lookup key = some (.metadata metadata) ∧
    metadata.version = rangeMetadataVersion ∧ metadata.key = some key ∧
    ∀ offset, Covers metadata.completed offset ↔ covered offset

theorem upgraded_iff {key : Key} {covered : Nat → Prop} {disk : Disk} {metadata : RangeMetadata}
    (found : disk.sidecars.lookup key = some (.metadata metadata))
    (owner : metadata.key = some key) :
    Upgraded key covered disk ↔ metadata.version = rangeMetadataVersion ∧
      ∀ offset, Covers metadata.completed offset ↔ covered offset := by
  constructor
  · rintro ⟨other, isOther, version, -, covers⟩
    rw [found] at isOther
    cases isOther
    exact ⟨version, covers⟩
  · rintro ⟨version, covers⟩
    exact ⟨metadata, found, version, owner, covers⟩

section Changing

variable {env : Environment} (calm : env.Calm)
variable {key : Key} {disk after : Disk} {metadata : RangeMetadata} {file : SparseFile}
include calm

/-- What is recorded about the upstream upgrades the sidecar if it is new. -/
theorem Loads.recordUpstreamMeta (loads : Loads key metadata file disk)
    (owner : metadata.key = some key) (fresh : disk.index.lookup key = none)
    {upstream : UpstreamMeta}
    (records : DiskStorage.recordUpstreamMeta env key upstream disk = (.ok (), after)) :
    Upgraded key (Covers metadata.completed) after ↔ metadata.version = rangeMetadataVersion ∨
        (upstreamEdit upstream metadata).2 = true := by
  have kept : after.sidecars.lookup key = some (.metadata
      (if (upstreamEdit upstream metadata).2 then
        stamp key (upstreamEdit upstream metadata).1 else metadata)) := by
    unfold DiskStorage.recordUpstreamMeta at records
    split at records
    · rename_i nothing
      simp only [Option.isNone_iff_eq_none] at nothing
      have unchanged : (upstreamEdit upstream metadata).2 = false := by
        simp [upstreamEdit, totalSizeEdit, contentTypeEdit, nothing.1, nothing.2]
      cases records
      rw [unchanged]
      exact loads.sidecar
    · have found := updateMetadata_found calm loads.sidecar fresh records
      unfold trusted at found
      rw [loads.data, Option.map_some, if_pos loads.valid] at found
      exact found
  cases changed : (upstreamEdit upstream metadata).2 with
  | false =>
    rw [changed, if_neg Bool.false_ne_true] at kept
    rw [upgraded_iff kept owner, or_iff_left Bool.false_ne_true]
    exact and_iff_left fun _ => Iff.rfl
  | true =>
    rw [changed, if_pos rfl] at kept
    rw [upgraded_iff kept (stamp_key _ _), stamp_version, stamp_completed, upstreamEdit_completed]
    exact iff_of_true ⟨rfl, fun _ => Iff.rfl⟩ (.inr rfl)

/-- A recorded range is added to what is trusted of the sidecar. -/
theorem recordCompletedRange_found (found : disk.sidecars.lookup key = some (.metadata metadata))
    (fresh : disk.index.lookup key = none) (coalesced : Coalesced metadata.completed)
    (words : ∀ range ∈ metadata.completed, range.2 ≤ u64Max) {start finish : Nat}
    (ordered : start ≤ finish) (word : finish ≤ u64Max)
    (records : recordCompletedRange env key start finish disk = (.ok (), after))
    {covered : Nat → Prop} :
    Upgraded key covered after ↔ ∀ offset, Covers (trusted key disk metadata).completed offset ∨
        (start ≤ offset ∧ offset ≤ finish) ↔ covered offset := by
  have committed : after.sidecars.lookup key = some (.metadata (stamp key
      (completedEdit start finish (trusted key disk metadata)).1)) :=
    updateMetadata_found calm found fresh records
  have covers (offset : Nat) :
      Covers (mergeRange (trusted key disk metadata).completed start finish) offset ↔
        Covers (trusted key disk metadata).completed offset ∨
          (start ≤ offset ∧ offset ≤ finish) := by
    unfold trusted
    split
    · exact covers_mergeRange coalesced words ordered word offset
    · exact covers_mergeRange Coalesced.nil (by simp) ordered word offset
  rw [upgraded_iff committed (stamp_key _ _), stamp_completed]
  refine (and_iff_right rfl).trans (forall_congr' fun offset => ?_)
  exact iff_congr (covers offset) Iff.rfl

omit calm in
/-- The data file after a write reaches to the end of both. -/
theorem write_file_length (data : disk.files.lookup key = some file) {stream : ByteStream}
    {range : Nat × Nat} {written : Nat}
    (writes : write env key stream range disk = (.ok written, after)) :
    range.1 + written ≤ maxFileOffset ∧
      ∃ grown, after.files.lookup key = some grown ∧ file.length ≤ grown.length ∧
        grown.length ≤ max file.length (range.1 + written) := by
  have bounded : LengthLe key
      (max file.length (range.1 + (accepted range stream).length)) disk := by
    intro other found
    rw [data] at found
    cases found
    exact Nat.le_max_left _ _
  have longer := keeps_of_eq (write_longer env stream range) writes
  have ended := write_length env (fun _ => Nat.le_max_right _ _) disk bounded
  rw [writes] at ended
  obtain ⟨shorter, reported⟩ := ended
  obtain ⟨written_eq, -, offsets⟩ := reported written rfl
  obtain ⟨grown, isGrown, lower⟩ := longer file data
  refine ⟨offsets, grown, isGrown, lower, ?_⟩
  rw [written_eq]
  exact shorter grown isGrown

/-- What a write leaves in the sidecar: the union, unless the write goes past the
recorded length, after which only its own range is known. -/
theorem Loads.write (loads : Loads key metadata file disk) (small : file.length ≤ maxFileOffset)
    (fresh : disk.index.lookup key = none) {stream : ByteStream} {range : Nat × Nat} {written : Nat}
    (writes : DiskStorage.write env key stream range disk = (.ok written, after)) :
    Upgraded key (fun offset => Covers metadata.completed offset ∨
        range.1 ≤ offset ∧ offset < range.1 + written) after ↔
      (metadata.version = rangeMetadataVersion ∨ 0 < written) ∧
        ∀ total, metadata.totalSize = some total → written = 0 ∨ range.1 + written ≤ total ∨
            ∀ offset, Covers metadata.completed offset →
              range.1 ≤ offset ∧ offset < range.1 + written := by
  have word : file.length ≤ u64Max := by
    unfold maxFileOffset at small
    unfold u64Max
    omega
  obtain ⟨version, owner, short, coalesced, inside⟩ :=
    (metadataIsValid_some_iff word).mp loads.valid
  rcases write_eq_ok writes with
    ⟨rfl, holding⟩ | ⟨positive, middle, grown, holding, isGrown, reaches, records⟩
  · have kept : after.sidecars.lookup key = some (.metadata metadata) := by
      rw [holding.sidecars]
      exact loads.sidecar
    rw [upgraded_iff kept owner, or_iff_left (Nat.lt_irrefl 0)]
    refine and_congr_right fun _ => iff_of_true (fun offset => ?_) fun _ _ => .inl rfl
    rw [or_iff_left (by omega)]
  · have found : middle.sidecars.lookup key = some (.metadata metadata) := by
      rw [holding.sidecars]
      exact loads.sidecar
    have fresh : middle.index.lookup key = none := by
      rw [holding.index]
      exact fresh
    obtain ⟨offsets, other, isOther, lower, upper⟩ :=
      write_file_length loads.data writes
    rw [(keeps_of_eq (updateMetadata_keeps env key _) records).sameFiles, isGrown] at isOther
    cases isOther
    have grownWord : grown.length ≤ u64Max := by
      unfold maxFileOffset at small offsets
      unfold u64Max
      omega
    have words : ∀ range ∈ metadata.completed, range.2 ≤ u64Max := by
      intro recorded member
      have := inside recorded member
      omega
    rw [recordCompletedRange_found calm found fresh coalesced words (by omega) (by omega) records]
    by_cases within : ∀ total ∈ metadata.totalSize, range.1 + written ≤ total
    · have valid : metadataIsValid metadata key (some grown.length) = true := by
        refine (metadataIsValid_some_iff grownWord).mpr ⟨version, owner,
          fun total declared => ?_, coalesced, fun recorded member => ?_⟩
        · have := short total declared
          have := within total declared
          omega
        · have := inside recorded member
          omega
      unfold trusted
      rw [isGrown, Option.map_some, if_pos valid]
      refine iff_of_true (fun offset => or_congr_right ?_)
        ⟨.inr positive, fun total declared => .inr (.inl (within total declared))⟩
      omega
    · push Not at within
      obtain ⟨total, declared, past⟩ := within
      have invalid : ¬metadataIsValid metadata key (some grown.length) = true := by
        intro valid
        have := ((metadataIsValid_some_iff grownWord).mp valid).2.2.1 total declared
        omega
      unfold trusted
      rw [isGrown, Option.map_some, if_neg invalid]
      constructor
      · intro covers
        refine ⟨.inr positive, fun _ _ => .inr (.inr fun offset covered => ?_)⟩
        have known := (covers offset).mpr (.inl covered)
        rw [or_iff_right (not_covers_nil offset)] at known
        omega
      · rintro ⟨-, recorded⟩ offset
        have contained := ((recorded total declared).resolve_left
          (by omega)).resolve_left (by omega)
        rw [or_iff_right (not_covers_nil offset), or_iff_right_of_imp (contained offset)]
        omega

end Changing

/-! ## The upgrade -/

/-- A sidecar survives: a new process answers from its ranges, the enumeration
leaves it and the data file in place, and a change brings it to the current layout
with all its ranges. -/
structure Upgrades (env : Environment) (key : Key) (disk : Disk) (metadata : RangeMetadata)
    (file : SparseFile) (range : Nat × Nat) (written : Nat) (after learned : Disk) : Prop where
  answers : ∀ range last, lastPosition metadata file.length range = some last → range.1 ≤ last →
    ∃ answer seen, checkRange env key range disk.reopen = (.ok answer, seen) ∧
      (answer = true ↔ ∀ offset, range.1 ≤ offset → offset ≤ last →
        Covers metadata.completed offset)
  kept : ∃ entries swept, enumerate env disk.reopen = (.ok entries, swept) ∧ SamePair key disk swept
  written : Upgraded key (fun offset => Covers metadata.completed offset ∨
    range.1 ≤ offset ∧ offset < range.1 + written) after
  recorded : Upgraded key (Covers metadata.completed) learned

/-- The enumeration leaves a pair exactly if it passes the check. -/
theorem enumerate_keeps_iff {env : Environment} (calm : env.Calm) {key : Key} {disk : Disk}
    {metadata : RangeMetadata} {file : SparseFile}
    (sidecar : disk.sidecars.lookup key = some (.metadata metadata))
    (data : disk.files.lookup key = some file) :
    (∃ entries swept, enumerate env disk.reopen = (.ok entries, swept) ∧ SamePair key disk swept) ↔
      metadataIsValid metadata key (some file.length) = true := by
  obtain ⟨after, enumerates, -, swept, -⟩ := restart_calm calm disk
  have sweeps := swept key (AList.lookup_isSome.mp (Option.isSome_of_eq_some sidecar))
  have keeps_eq : keepsPair key disk = metadataIsValid metadata key (some file.length) := by
    unfold keepsPair
    rw [sidecar, data]
    rfl
  rw [← keeps_eq]
  constructor
  · rintro ⟨entries, other, ends, same⟩
    rw [enumerates] at ends
    cases ends
    by_contra refused
    have removed := (sweeps.removed (Bool.eq_false_iff.mpr refused)).1
    rw [same.sidecar, sidecar] at removed
    cases removed
  · exact fun kept => ⟨_, after, enumerates, sweeps.kept kept⟩

/-- Sidecars of the current or an older layout that list ranges inside their data
file are upgraded exactly if they carry their own key and the data file is not longer
than the recorded length; the write must not go past that length, unless its range
contains all others, and the sidecar is only rewritten when something changes. -/
theorem upgrades_iff {env : Environment} (calm : env.Calm) {key : Key} {disk : Disk}
    {metadata : RangeMetadata} {file : SparseFile}
    (sidecar : disk.sidecars.lookup key = some (.metadata metadata))
    (data : disk.files.lookup key = some file) (small : file.length ≤ maxFileOffset)
    (version : metadata.version ≤ rangeMetadataVersion) (coalesced : Coalesced metadata.completed)
    (inside : ∀ range ∈ metadata.completed, range.2 < file.length) {stream : ByteStream}
    {range : Nat × Nat} {written : Nat} {after : Disk}
    (writes : write env key stream range disk.reopen = (.ok written, after))
    {upstream : UpstreamMeta} {learned : Disk}
    (records : recordUpstreamMeta env key upstream disk.reopen = (.ok (), learned)) :
    Upgrades env key disk metadata file range written after learned ↔ metadata.key = some key ∧
      (∀ total, metadata.totalSize = some total → file.length ≤ total) ∧
      ((metadata.version = rangeMetadataVersion ∨ 0 < written) ∧
        ∀ total, metadata.totalSize = some total → written = 0 ∨ range.1 + written ≤ total ∨
            ∀ offset, Covers metadata.completed offset →
              range.1 ≤ offset ∧ offset < range.1 + written) ∧
      (metadata.version = rangeMetadataVersion ∨ (upstreamEdit upstream metadata).2 = true) := by
  have word : file.length ≤ u64Max := by
    unfold maxFileOffset at small
    unfold u64Max
    omega
  have valid_iff : metadataIsValid metadata key (some file.length) = true ↔
      metadata.key = some key ∧ ∀ total, metadata.totalSize = some total → file.length ≤ total := by
    rw [metadataIsValid_some_iff word]
    constructor
    · rintro ⟨-, owner, short, -, -⟩
      exact ⟨owner, short⟩
    · rintro ⟨owner, short⟩
      exact ⟨version, owner, short, coalesced, inside⟩
  have loads_of (valid : metadataIsValid metadata key (some file.length) = true) :
      Loads key metadata file disk.reopen :=
    ⟨sidecar, data, valid, fun _ absurdly => by cases absurdly⟩
  rw [← and_assoc, ← valid_iff]
  constructor
  · intro upgrades
    have valid := (enumerate_keeps_iff calm sidecar data).mp upgrades.kept
    have loads := loads_of valid
    exact ⟨valid, (loads.write calm small rfl writes).mp upgrades.written,
      (loads.recordUpstreamMeta calm (valid_iff.mp valid).1 rfl records).mp upgrades.recorded⟩
  · rintro ⟨valid, writable, changes⟩
    have loads := loads_of valid
    exact ⟨fun _ _ asked ordered => loads.checkRange calm coalesced asked ordered,
      (enumerate_keeps_iff calm sidecar data).mpr valid,
      (loads.write calm small rfl writes).mpr writable,
      (loads.recordUpstreamMeta calm (valid_iff.mp valid).1 rfl records).mpr changes⟩

/-- Four bytes of a file and a sidecar that lists them. -/
def fourBytes (metadata : RangeMetadata) : Disk :=
  { Disk.empty with
    files := AList.singleton "video" (SparseFile.empty.write 0 [1, 2, 3, 4])
    sidecars := AList.singleton "video" (.metadata metadata) }

/-- A sidecar of the first layout with a key in it. -/
def keyedSidecar : RangeMetadata :=
  { completed := [(0, 3)], key := some "video" }

theorem upgrades_iff_keyed :
    Upgrades .calmHost "video" (fourBytes keyedSidecar) keyedSidecar
      (SparseFile.empty.write 0 [1, 2, 3, 4]) (10, 11) 2
      (write .calmHost "video" [.ok [5, 6]] (10, 11) (fourBytes keyedSidecar).reopen).2
      (recordUpstreamMeta .calmHost "video" ⟨some 100, none⟩
        (fourBytes keyedSidecar).reopen).2 := by
  have coalesced : Coalesced keyedSidecar.completed :=
    ⟨by decide, List.pairwise_singleton _ _⟩
  refine (upgrades_iff Environment.calmHost_calm rfl rfl (by decide) (by decide)
    coalesced (by decide) (Prod.ext rfl rfl) (Prod.ext rfl rfl)).mpr ?_
  exact ⟨rfl, nofun, ⟨.inr (by decide), nofun⟩, .inr rfl⟩

/-- A sidecar without a key: its ranges are not answered from, the enumeration
removes it with the data file, and a write forgets the old ranges. -/
theorem legacy_sidecar_lost :
    (checkRange .calmHost "video" (0, 3)
        (fourBytes { completed := [(0, 3)] }).reopen).1 = .ok false ∧
      (enumerate .calmHost
        (fourBytes { completed := [(0, 3)] }).reopen).2.sidecars.lookup "video" = none ∧
      ((enumerate .calmHost (fourBytes { completed := [(0, 3)] }).reopen).2.files.lookup
          "video").isNone = true ∧
      (write .calmHost "video" [.ok [5, 6]] (10, 11)
        (fourBytes { completed := [(0, 3)] }).reopen).2.sidecars.lookup "video" =
        some (.metadata { version := 1, completed := [(10, 11)], key := some "video" }) := by
  refine ⟨?_, ?_, ?_, ?_⟩
  · rfl
  · rfl
  · rfl
  · rfl

end DiskStorage
end VideoProxy
