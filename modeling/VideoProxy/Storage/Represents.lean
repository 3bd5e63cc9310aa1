import VideoProxy.Storage.Frame
import VideoProxy.Storage.Store

/-!
# How the directory represents the store

When the file system does what it is asked to do, the directory and the index
represent a store: the sidecar describes the recorded offsets, the data file
holds the recorded bytes, and an index entry is a copy of the sidecar.  This
module has the representation and the specifications of the metadata
operations: a document read from disk passes its check, a view is evaluated on a
description of the resource, and an update documents the edited resource.
-/

namespace VideoProxy

open IntervalTable

namespace DiskStorage

open Faulty

/-! ## Representation -/

/-- The document lists the recorded offsets and the upstream metadata. -/
structure Describes (metadata : RangeMetadata) (resource : Resource) : Prop where
  coalesced : Coalesced metadata.completed
  covers : ∀ offset, Covers metadata.completed offset ↔ (resource.bytes offset).isSome
  upstream : resource.upstream =
    { totalSize := metadata.totalSize, contentType := metadata.contentType }

/-- The sidecar describes the resource, and the index agrees with the
sidecar. -/
structure Documented (key : Key) (disk : Disk) (resource : Resource) : Prop where
  indexed : ∀ metadata, disk.index.lookup key = some metadata →
    disk.sidecars.lookup key = some (.metadata metadata)
  missing : disk.sidecars.lookup key = none → Describes {} resource
  described : ∀ document, disk.sidecars.lookup key = some document →
    ∃ metadata, document = .metadata metadata ∧
      metadata.version ≤ rangeMetadataVersion ∧ metadata.key = some key ∧
      Describes metadata resource

/-- The data file holds the recorded bytes, and is not longer than the limit,
which no recorded length is below. -/
structure Backed (limit : Nat) (key : Key) (disk : Disk) (resource : Resource) : Prop where
  stored : ∀ offset byte, resource.bytes offset = some byte →
    ∃ file, disk.files.lookup key = some file ∧ file.cell offset = some byte
  bounded : ∀ file, disk.files.lookup key = some file → file.length ≤ limit
  sized : ∀ total, resource.upstream.totalSize = some total → limit ≤ total

/-- The disk represents the store. -/
def Represents (limit : Key → Nat) (disk : Disk) (store : Store) : Prop :=
  ∀ key, Documented key disk (store key) ∧ Backed (limit key) key disk (store key)

/-- What a reader of the sidecar relies on: recorded offsets lie inside a data
file that is not longer than the recorded total. -/
structure Readable (key : Key) (disk : Disk)
    (resource : Resource) : Prop extends Documented key disk resource where
  inside : ∀ offset, (resource.bytes offset).isSome →
    ∃ file, disk.files.lookup key = some file ∧ offset < file.length
  word : ∀ file, disk.files.lookup key = some file → file.length ≤ u64Max
  short : ∀ file, disk.files.lookup key = some file →
    ∀ total, resource.upstream.totalSize = some total → file.length ≤ total

variable {resource : Resource} {disk : Disk} {key : Key}

theorem Describes.stamp {metadata : RangeMetadata}
    (describes : Describes metadata resource) (key : Key) :
    Describes (stamp key metadata) resource where
  coalesced := by
    rw [stamp_completed]
    exact describes.coalesced
  covers := by
    rw [stamp_completed]
    exact describes.covers
  upstream := by
    rw [stamp_totalSize, stamp_contentType]
    exact describes.upstream

theorem Documented.of_sidecar {metadata : RangeMetadata}
    (indexed : disk.index.lookup key = some metadata)
    (found : disk.sidecars.lookup key = some (.metadata metadata)) (owner : metadata.key = some key)
    (version : metadata.version ≤ rangeMetadataVersion) (describes : Describes metadata resource) :
    Documented key disk resource where
  indexed := by
    intro entry entry_eq
    rw [indexed] at entry_eq
    cases entry_eq
    exact found
  missing := by
    rw [found]
    intro absent
    cases absent
  described := by
    intro document document_eq
    rw [found] at document_eq
    cases document_eq
    exact ⟨metadata, rfl, version, owner, describes⟩

theorem describes_default : Describes {} Resource.empty where
  coalesced := Coalesced.nil
  covers := by simp [Resource.empty]
  upstream := rfl

/-- The two halves of a representation make the sidecar readable, even when the
file already holds bytes that are not yet recorded. -/
theorem Documented.readable {held : Resource} {limit : Nat}
    (documented : Documented key disk resource) (backed : Backed limit key disk held)
    (recorded : ∀ offset, (resource.bytes offset).isSome → (held.bytes offset).isSome)
    (upstream : held.upstream = resource.upstream) (small : limit ≤ maxFileOffset) :
    Readable key disk resource where
  toDocumented := documented
  inside := by
    intro offset isRecorded
    obtain ⟨byte, byte_eq⟩ := Option.isSome_iff_exists.mp (recorded offset isRecorded)
    obtain ⟨file, found, cell_eq⟩ := backed.stored offset byte byte_eq
    refine ⟨file, found, SparseFile.lt_length_of_isSome ?_⟩
    rw [cell_eq]
    rfl
  word := by
    intro file found
    have bound := backed.bounded file found
    unfold maxFileOffset at small
    unfold u64Max
    omega
  short := by
    intro file found total declared
    have bound := backed.bounded file found
    have sized := backed.sized total (upstream ▸ declared)
    omega

/-- A recorded range lies in one file, which holds its bytes. -/
theorem Backed.file_of_recorded {limit : Nat}
    (backed : Backed limit key disk resource) {first last : Nat} (ordered : first ≤ last)
    (recorded : ∀ offset, first ≤ offset → offset ≤ last → (resource.bytes offset).isSome) :
    ∃ file, disk.files.lookup key = some file ∧ last < file.length ∧
      ∀ offset, first ≤ offset → offset ≤ last →
        some (file.byteAt offset) = resource.bytes offset := by
  have cell (offset : Nat) (lower : first ≤ offset) (upper : offset ≤ last) :
      ∃ file byte, disk.files.lookup key = some file ∧
        file.cell offset = some byte ∧ resource.bytes offset = some byte := by
    obtain ⟨byte, byte_eq⟩ := Option.isSome_iff_exists.mp (recorded offset lower upper)
    obtain ⟨file, found, cell_eq⟩ := backed.stored offset byte byte_eq
    exact ⟨file, byte, found, cell_eq, byte_eq⟩
  obtain ⟨file, byte, found, cell_eq, _⟩ := cell last ordered (Nat.le_refl _)
  refine ⟨file, found, ?_, ?_⟩
  · apply SparseFile.lt_length_of_isSome
    rw [cell_eq]
    rfl
  · intro offset lower upper
    obtain ⟨other, stored, other_eq, cell_eq, byte_eq⟩ :=
      cell offset lower upper
    rw [found] at other_eq
    cases other_eq
    rw [SparseFile.byteAt, cell_eq, byte_eq]
    rfl

section Frames

variable {key other : Key} {before after : Disk} {resource : Resource}

theorem Documented.frame (documented : Documented other before resource)
    (frame : Frame key before after) (ne : other ≠ key) :
    Documented other after resource where
  indexed := by
    intro metadata found
    rw [frame.sidecars other ne]
    rcases frame.index other ne with same | dropped
    · exact documented.indexed metadata (same ▸ found)
    · rw [dropped] at found
      cases found
  missing := by
    rw [frame.sidecars other ne]
    exact documented.missing
  described := by
    rw [frame.sidecars other ne]
    exact documented.described

theorem Backed.frame {limit : Nat} (backed : Backed limit other before resource)
    (frame : Frame key before after) (ne : other ≠ key) :
    Backed limit other after resource where
  stored := by
    rw [frame.files other ne]
    exact backed.stored
  bounded := by
    rw [frame.files other ne]
    exact backed.bounded
  sized := backed.sized

theorem Backed.metadataFrame {limit : Nat} (backed : Backed limit other before resource)
    (frame : MetadataFrame key before after) :
    Backed limit other after resource where
  stored := by
    rw [frame.sameFiles]
    exact backed.stored
  bounded := by
    rw [frame.sameFiles]
    exact backed.bounded
  sized := backed.sized

theorem Documented.fileFrame (documented : Documented other before resource)
    (frame : FileFrame key before after) :
    Documented other after resource where
  indexed := by
    rw [frame.sameIndex, frame.sameSidecars]
    exact documented.indexed
  missing := by
    rw [frame.sameSidecars]
    exact documented.missing
  described := by
    rw [frame.sameSidecars]
    exact documented.described

theorem Documented.tick (documented : Documented key before resource) (clock : Nat) :
    Documented key { before with clock := clock } resource :=
  ⟨documented.indexed, documented.missing, documented.described⟩

theorem Backed.tick {limit : Nat} (backed : Backed limit key before resource) (clock : Nat) :
    Backed limit key { before with clock := clock } resource :=
  ⟨backed.stored, backed.bounded, backed.sized⟩

theorem Documented.unchanged (documented : Documented key before resource)
    (unchanged : Unchanged before after) :
    Documented key after resource where
  indexed := by
    rw [unchanged.index, unchanged.sidecars]
    exact documented.indexed
  missing := by
    rw [unchanged.sidecars]
    exact documented.missing
  described := by
    rw [unchanged.sidecars]
    exact documented.described

end Frames

theorem Represents.update {limit : Key → Nat} {before after : Disk} {store : Store}
    (represents : Represents limit before store)
    (frame : Frame key before after) (documented : Documented key after resource)
    (backed : Backed (limit key) key after resource) :
    Represents limit after (Function.update store key resource) := by
  intro other
  by_cases equal : other = key
  · subst other
    rw [Function.update_self]
    exact ⟨documented, backed⟩
  · rw [Function.update_of_ne equal]
    exact ⟨(represents other).1.frame frame equal, (represents other).2.frame frame equal⟩

/-! ## Calm calls -/

section Calm

variable {env : Environment} (calm : env.Calm)
include calm

@[simp] theorem fsCall_calm (done broken : Disk → Disk) (disk : Disk) :
    fsCall env done broken disk = (.ok (), done { disk with clock := disk.clock + 1 }) := by
  simp [fsCall, calm disk.clock]

theorem fsQuery_calm (view : Disk → α) (disk : Disk) :
    fsQuery env view disk = (.ok (some (view disk)), { disk with clock := disk.clock + 1 }) := by
  simp [fsQuery, calm disk.clock]

theorem dataFileSize_calm (key : Key) (disk : Disk) :
    dataFileSize env key disk = (.ok ((disk.files.lookup key).map SparseFile.length),
        { disk with clock := disk.clock + 1 }) := by
  simp [dataFileSize, bind_apply, fsQuery_calm calm]

/-! ## Metadata -/

variable {key : Key} {disk : Disk} {resource : Resource}

/-- The document read from the sidecar passes the check. -/
theorem loadMetadata_calm (readable : Readable key disk resource) :
    ∃ clock, loadMetadata env key disk = (.ok (match disk.sidecars.lookup key with
        | some (.metadata metadata) => some metadata
        | _ => none), { disk with clock := clock }) := by
  unfold loadMetadata
  rw [bind_of_ok (fsQuery_calm calm _ disk)]
  cases found : disk.sidecars.lookup key with
  | none => exact ⟨_, rfl⟩
  | some document =>
    obtain ⟨metadata, rfl, version, owner, describes⟩ :=
      readable.described document found
    simp only
    rw [bind_of_ok (dataFileSize_calm calm key _)]
    have valid : metadataIsValid metadata key
        ((disk.files.lookup key).map SparseFile.length) = true := by
      cases opened : disk.files.lookup key with
      | none =>
        apply metadataIsValid_none_iff.mpr
        refine ⟨version, owner, describes.coalesced.eq_nil ?_⟩
        intro offset covered
        obtain ⟨file, other, _⟩ := readable.inside offset ((describes.covers offset).mp covered)
        rw [opened] at other
        cases other
      | some file =>
        apply (metadataIsValid_some_iff (readable.word file opened)).mpr
        refine ⟨version, owner, ?_, describes.coalesced, ?_⟩
        · intro total declared
          apply readable.short file opened
          rw [describes.upstream]
          exact declared
        · intro range member
          obtain ⟨other, found, inside⟩ := readable.inside range.2 ((describes.covers range.2).mp
              (describes.coalesced.covers_last member))
          rw [opened] at found
          cases found
          exact inside
    rw [valid]
    exact ⟨_, rfl⟩

/-- An update starts from a description of the resource. -/
theorem currentMetadata_calm (readable : Readable key disk resource) :
    ∃ metadata clock, currentMetadata env key disk = (.ok metadata, { disk with clock := clock }) ∧
      Describes metadata resource := by
  unfold currentMetadata
  rw [bind_of_ok (gets_apply _ disk)]
  cases cached : disk.index.lookup key with
  | some metadata =>
    obtain ⟨_, equal, _, _, describes⟩ :=
      readable.described _ (readable.indexed metadata cached)
    cases equal
    exact ⟨metadata, disk.clock, rfl, describes⟩
  | none =>
    obtain ⟨clock, loaded⟩ := loadMetadata_calm calm readable
    simp only
    rw [bind_of_ok loaded]
    cases found : disk.sidecars.lookup key with
    | none => exact ⟨{}, clock, rfl, readable.missing found⟩
    | some document =>
      obtain ⟨metadata, rfl, _, _, describes⟩ :=
        readable.described document found
      exact ⟨metadata, clock, rfl, describes⟩

/-- A view is evaluated on a description of the resource. -/
theorem withMetadata_calm (readable : Readable key disk resource) (view : RangeMetadata → α) :
    ∃ metadata after, withMetadata env key view disk = (.ok (view metadata), after) ∧
      Describes metadata resource ∧ Documented key after resource := by
  unfold withMetadata
  rw [bind_of_ok (gets_apply _ disk)]
  cases cached : disk.index.lookup key with
  | some metadata =>
    obtain ⟨_, equal, _, _, describes⟩ :=
      readable.described _ (readable.indexed metadata cached)
    cases equal
    exact ⟨metadata, disk, rfl, describes, readable.toDocumented⟩
  | none =>
    obtain ⟨clock, loaded⟩ := loadMetadata_calm calm readable
    simp only
    rw [bind_of_ok loaded]
    cases found : disk.sidecars.lookup key with
    | none =>
      refine ⟨{}, _, rfl, readable.missing found, ?_⟩
      exact readable.toDocumented.tick clock
    | some document =>
      obtain ⟨metadata, rfl, _, _, describes⟩ :=
        readable.described document found
      refine ⟨metadata, _, rfl, describes, ?_⟩
      constructor
      · intro entry indexed
        simp only [indexInsert_lookup, Option.some.injEq] at indexed
        subst entry
        exact found
      · exact readable.missing
      · exact readable.described

theorem writeMetadata_calm (key : Key) (disk : Disk) (metadata : RangeMetadata) :
    ∃ clock temporaries, writeMetadata env key metadata disk = (.ok (), { disk with
          sidecars := disk.sidecars.insert key (.metadata metadata)
          temporaries := temporaries
          clock := clock }) := by
  simp only [writeMetadata, ensureDirExists, writeTemporary, renameTemporary, attempt, bind_apply,
    fsCall_calm calm, id, AList.lookup_insert, pure_apply]
  exact ⟨_, _, rfl⟩

/-- An update that turns descriptions of one resource into descriptions of
another documents the second one. -/
theorem updateMetadata_calm (readable : Readable key disk resource)
    (edit : RangeMetadata → RangeMetadata × Bool) {edited : Resource}
    (describes : ∀ metadata, Describes metadata resource → Describes (edit metadata).1 edited)
    (unchanged : ∀ metadata, Describes metadata resource →
      (edit metadata).2 = false → edited = resource) :
    ∃ after, updateMetadata env key edit disk = (.ok (), after) ∧ Documented key after edited := by
  obtain ⟨metadata, clock, current, described⟩ :=
    currentMetadata_calm calm readable
  unfold updateMetadata
  rw [bind_of_ok current]
  cases changed : (edit metadata).2 with
  | false =>
    refine ⟨_, rfl, ?_⟩
    rw [unchanged metadata described changed]
    exact readable.toDocumented.tick clock
  | true =>
    simp only [if_true]
    obtain ⟨_, _, written⟩ := writeMetadata_calm calm key
      { disk with clock := clock } (stamp key (edit metadata).1)
    rw [bind_of_ok written]
    refine ⟨_, rfl, ?_⟩
    apply Documented.of_sidecar
    · exact indexInsert_lookup env key _ _
    · exact AList.lookup_insert _
    · exact stamp_key key _
    · exact Nat.le_refl _
    · exact (describes metadata described).stamp key

end Calm

/-! ## Edits of the document -/

section Edits

variable {metadata : RangeMetadata} {resource : Resource}

/-- Merging the range of a block describes the resource with the block. -/
theorem Describes.completedEdit (describes : Describes metadata resource)
    (words : ∀ offset, (resource.bytes offset).isSome → offset ≤ u64Max) {start : Nat}
    {block : Bytes} (nonempty : block ≠ []) (word : start + block.length ≤ u64Max) :
    Describes (completedEdit start (start + (block.length - 1)) metadata).1
      (resource.record start block) := by
  have positive : 0 < block.length := List.length_pos_iff.mpr nonempty
  have wordEnds : ∀ range ∈ metadata.completed, range.2 ≤ u64Max := by
    intro range member
    exact words range.2 ((describes.covers range.2).mp (describes.coalesced.covers_last member))
  constructor
  · exact mergeRange_coalesced describes.coalesced wordEnds (by omega) (by omega)
  · intro offset
    rw [Resource.record_bytes_isSome, ← describes.covers]
    simp only [VideoProxy.completedEdit]
    rw [covers_mergeRange describes.coalesced wordEnds (by omega) (by omega)]
    apply or_congr_right
    omega
  · exact describes.upstream

theorem Describes.upstreamEdit (describes : Describes metadata resource) (upstream : UpstreamMeta) :
    Describes (upstreamEdit upstream metadata).1 (resource.learn upstream) where
  coalesced := by
    rw [upstreamEdit_completed]
    exact describes.coalesced
  covers := by
    rw [upstreamEdit_completed]
    exact describes.covers
  upstream := by
    rw [upstreamEdit_totalSize, upstreamEdit_contentType]
    simp only [Resource.learn, describes.upstream]

theorem Describes.learn_eq (describes : Describes metadata resource) {upstream : UpstreamMeta}
    (unchanged : (VideoProxy.upstreamEdit upstream metadata).2 = false) :
    resource.learn upstream = resource := by
  have edited := (describes.upstreamEdit upstream).upstream
  rw [upstreamEdit_unchanged unchanged, ← describes.upstream] at edited
  ext1
  · rfl
  · exact edited

end Edits

end DiskStorage
end VideoProxy
