import VideoProxy.Storage.Manager
import VideoProxy.Storage.Records
import VideoProxy.Storage.Represents

/-!
# What a lookup sees

The metadata of a key is the entry of the index or else the sidecar, if that
passes its check, and nothing otherwise.  When the calls to the file system
succeed, every lookup is answered from it, in whatever state the directory is,
and leaves it as it was.
-/

namespace VideoProxy

open IntervalTable

/-- The upstream metadata of a document. -/
def RangeMetadata.upstream (metadata : RangeMetadata) : UpstreamMeta where
  totalSize := metadata.totalSize
  contentType := metadata.contentType

namespace Disk

/-- The document that `load_metadata` accepts. -/
def loaded (key : Key) (disk : Disk) : Option RangeMetadata :=
  match disk.sidecars.lookup key with
  | some (.metadata metadata) =>
    if metadataIsValid metadata key ((disk.files.lookup key).map SparseFile.length) then
      some metadata
    else none
  | _ => none

/-- The metadata that lookups of a key are answered with. -/
def current (key : Key) (disk : Disk) : RangeMetadata :=
  ((disk.index.lookup key).or (disk.loaded key)).getD {}

/-- Lookups of a key are answered alike. -/
structure SameView (key : Key) (before after : Disk) : Prop where
  current : after.current key = before.current key
  file : after.files.lookup key = before.files.lookup key

theorem SameView.tick (key : Key) (disk : Disk) (clock : Nat) :
    SameView key disk { disk with clock := clock } :=
  ⟨rfl, rfl⟩

theorem SameView.trans {key : Key} {first second third : Disk} (left : SameView key first second)
    (right : SameView key second third) :
    SameView key first third :=
  ⟨right.current.trans left.current, right.file.trans left.file⟩

theorem current_of_index {key : Key} {disk : Disk} {metadata : RangeMetadata}
    (indexed : disk.index.lookup key = some metadata) :
    disk.current key = metadata := by
  rw [current, indexed]
  rfl

end Disk

namespace DiskStorage

open Faulty Disk

/-- What a lookup sees has the properties that all documents have. -/
theorem Known.current {holds : RangeMetadata → Prop} {key : Key} {disk : Disk}
    (known : Known (fun _ => holds) key disk) (initial : holds {}) :
    holds (disk.current key) := by
  unfold Disk.current
  cases indexed : disk.index.lookup key with
  | some metadata => exact known.indexed metadata indexed
  | none =>
    rw [Option.none_or]
    cases accepted : disk.loaded key with
    | none => exact initial
    | some metadata =>
      refine known.documented metadata ?_
      unfold loaded at accepted
      split at accepted
      · rename_i found
        split at accepted
        · cases accepted
          exact found
        · cases accepted
      · cases accepted

section Calm

variable {env : Environment} (calm : env.Calm) (key : Key) (disk : Disk)
include calm

theorem loadMetadata_loaded :
    ∃ clock, loadMetadata env key disk = (.ok (disk.loaded key), { disk with clock := clock }) := by
  unfold loadMetadata loaded
  rw [bind_of_ok (fsQuery_calm calm _ disk)]
  cases disk.sidecars.lookup key with
  | none => exact ⟨_, rfl⟩
  | some document =>
    cases document with
    | metadata metadata =>
      simp only
      rw [bind_of_ok (dataFileSize_calm calm key _)]
      exact ⟨_, rfl⟩
    | _ => exact ⟨_, rfl⟩

/-- A view is evaluated on the current metadata. -/
theorem withMetadata_current (view : RangeMetadata → α) :
    ∃ after, withMetadata env key view disk = (.ok (view (disk.current key)), after) ∧
      SameView key disk after := by
  unfold withMetadata
  rw [bind_of_ok (gets_apply _ disk)]
  cases indexed : disk.index.lookup key with
  | some metadata =>
    rw [current_of_index indexed]
    exact ⟨disk, rfl, rfl, rfl⟩
  | none =>
    obtain ⟨clock, read⟩ := loadMetadata_loaded calm key disk
    simp only
    rw [bind_of_ok read]
    have seen : disk.current key = (disk.loaded key).getD {} := by
      rw [current, indexed, Option.none_or]
    rw [seen]
    cases accepted : disk.loaded key with
    | none => exact ⟨_, rfl, SameView.tick key disk clock⟩
    | some metadata =>
      refine ⟨_, rfl, ?_, rfl⟩
      rw [seen, accepted]
      exact current_of_index (indexInsert_lookup _ _ _ _)

theorem upstreamMeta_current :
    ∃ after, upstreamMeta env key disk = (.ok (disk.current key).upstream, after) ∧
      SameView key disk after :=
  withMetadata_current calm key disk _

theorem checkRange_completed (start : Nat) {finish : Nat} (closed : finish ≠ openEnded) :
    ∃ after, checkRange env key (start, finish) disk =
        (.ok (((disk.current key).completed.any fun completed =>
          completed.1 ≤ start && finish ≤ completed.2) && (disk.files.lookup key).isSome), after) ∧
      SameView key disk after := by
  unfold checkRange requestedEnd
  simp only [if_neg closed, pure_bind]
  obtain ⟨after, viewed, same⟩ := withMetadata_current calm key disk
    fun metadata => metadata.completed.any fun completed =>
      completed.1 ≤ start && finish ≤ completed.2
  rw [bind_of_ok viewed]
  cases covered : (disk.current key).completed.any fun completed =>
      completed.1 ≤ start && finish ≤ completed.2 with
  | true =>
    rw [if_pos rfl, bind_of_ok (dataFileSize_calm calm key after), Option.isSome_map, same.file]
    exact ⟨_, rfl, same.trans (SameView.tick key after _)⟩
  | false => exact ⟨after, rfl, same⟩

theorem checkRange_current (tidy : Tidy (disk.current key)) {start finish : Nat}
    (ordered : start ≤ finish) (closed : finish ≠ openEnded) :
    ∃ answer after, checkRange env key (start, finish) disk = (.ok answer, after) ∧
      SameView key disk after ∧
      (answer = true ↔ (∀ offset, start ≤ offset → offset ≤ finish →
          Covers (disk.current key).completed offset) ∧
        (disk.files.lookup key).isSome) := by
  obtain ⟨after, checked, same⟩ :=
    checkRange_completed calm key disk start closed
  refine ⟨_, after, checked, same, ?_⟩
  rw [Bool.and_eq_true, tidy.coalesced.forall_covers_iff ordered]
  simp only [List.any_eq_true, Bool.and_eq_true, decide_eq_true_eq]

end Calm

end DiskStorage

theorem StorageManager.upstreamMeta_current {env : Environment} (calm : env.Calm)
    (config : StorageConfig) (key : Key) (manager : Manager Disk) :
    ∃ after, StorageManager.upstreamMeta (DiskStorage.engine env config) key manager =
        (.ok (manager.engine.current key).upstream,
          { manager with engine := after }) ∧
      Disk.SameView key manager.engine after := by
  obtain ⟨after, reported, same⟩ :=
    DiskStorage.upstreamMeta_current calm key manager.engine
  exact ⟨after, StorageManager.onEngine_of_ok reported, same⟩

end VideoProxy
