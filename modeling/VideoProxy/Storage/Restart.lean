import VideoProxy.Lib.Transition
import VideoProxy.Storage.Current

/-!
# Restarts

A new process over the directory starts with an empty index and enumerates the
sidecars.  Of each it keeps the pair of files or removes it, by a check that also
wants a data file to be there.  Whether a key answers after the restart as it did
before depends on whether the last process committed what that check accepts.
-/

namespace VideoProxy
namespace DiskStorage

open Faulty IntervalTable

/-! ## Runs of successful operations -/

/-- An operation that changes the cache, with the host it runs on. -/
inductive Mutation
  | write
      (env : Environment)
      (key : Key)
      (stream : ByteStream)
      (range : Nat × Nat)
  | recordUpstreamMeta (env : Environment) (key : Key) (upstream : UpstreamMeta)
  | delete (env : Environment) (key : Key)

/-- The state that an operation leaves if it succeeds. -/
def succeeded : Exit ProxyError α × Disk → Option Disk
  | (.ok _, disk) => some disk
  | _ => none

/-- The state after a successful operation. -/
def Mutation.step : Mutation → Disk → Option Disk
  | .write env key stream range, disk =>
    succeeded (DiskStorage.write env key stream range disk)
  | .recordUpstreamMeta env key upstream, disk =>
    succeeded (DiskStorage.recordUpstreamMeta env key upstream disk)
  | .delete env key, disk => succeeded (DiskStorage.delete env key disk)

/-- What holds of every key between successful operations. -/
structure Consistent (key : Key) (disk : Disk) : Prop
    extends Sound key disk, Settled key disk

variable {after before disk first second third : Disk} {key : Key} {metadata : RangeMetadata}

theorem exists_of_succeeded {ended : Exit ProxyError α × Disk}
    (moves : succeeded ended = some after) :
    ∃ value, ended = (.ok value, after) := by
  obtain ⟨exit, disk⟩ := ended
  cases exit with
  | ok value =>
    cases moves
    exact ⟨value, rfl⟩
  | error reason => cases moves
  | stopped => cases moves

theorem consistent_of_frame
    (consistent : ∀ other, Consistent other before) (frame : Frame key before after)
    (own : Consistent key after) :
    ∀ other, Consistent other after := by
  intro other
  by_cases same : other = key
  · subst same
    exact own
  · exact ⟨(consistent other).toSound.frame frame same,
      (consistent other).toSettled.frame frame same⟩

theorem Mutation.step_consistent {mutation : Mutation}
    (consistent : ∀ key, Consistent key before) (moves : mutation.step before = some after) :
    ∀ key, Consistent key after := by
  cases mutation with
  | write env key stream range =>
    obtain ⟨written, ended⟩ := exists_of_succeeded moves
    have sound := write_sound env stream range before (consistent key).toSound
    rw [ended] at sound
    exact consistent_of_frame consistent (keeps_of_eq (write_keeps env key stream range) ended)
      ⟨sound, write_settled (consistent key).toSettled ended⟩
  | recordUpstreamMeta env key upstream =>
    obtain ⟨_, ended⟩ := exists_of_succeeded moves
    have sound := recordUpstreamMeta_sound env upstream before (consistent key).toSound
    rw [ended] at sound
    exact consistent_of_frame consistent (keeps_of_eq (MetadataFrame.keeps key
        (recordUpstreamMeta_keeps env key upstream)) ended)
      ⟨sound, recordUpstreamMeta_settled (consistent key).toSettled ended⟩
  | delete env key =>
    obtain ⟨_, ended⟩ := exists_of_succeeded moves
    obtain ⟨file, sidecar, index⟩ := delete_eq_ok ended
    refine consistent_of_frame consistent (keeps_of_eq (delete_keeps env key) ended)
      ⟨⟨⟨fun _ found => ?_, fun _ found => ?_⟩, fun _ found => ?_⟩,
        ⟨fun _ found => ?_, fun _ found => ?_⟩⟩
    · cases index.symm.trans found
    · cases sidecar.symm.trans found
    · cases file.symm.trans found
    · cases index.symm.trans found
    · cases sidecar.symm.trans found

theorem empty_consistent (key : Key) : Consistent key Disk.empty := by
  refine ⟨allSound_empty key, ⟨fun _ found => ?_, fun _ found => ?_⟩⟩
  all_goals
    simp only [Disk.empty, AList.lookup_empty] at found
    cases found

theorem reaches_consistent {admitted : Mutation → Disk → Prop}
    (reached : Reaches Mutation.step admitted Disk.empty disk) :
    ∀ key, Consistent key disk :=
  reached.invariant (fun disk => ∀ key, Consistent key disk) empty_consistent
    fun _ _ _ consistent _ moves =>
      Mutation.step_consistent consistent moves

/-! ## Enumeration -/

/-- Whether `enumerate` keeps the pair of a key. -/
def keepsPair (key : Key) (disk : Disk) : Bool :=
  match disk.sidecars.lookup key with
  | some (.metadata metadata) =>
    (disk.files.lookup key).any fun file =>
      metadataIsValid metadata key (some file.length)
  | _ => false

/-- The pair of the key is the same. -/
structure SamePair (key : Key) (before after : Disk) : Prop where
  sidecar : after.sidecars.lookup key = before.sidecars.lookup key
  file : after.files.lookup key = before.files.lookup key

/-- The pair of the key was kept or removed. -/
structure Swept (key : Key) (before after : Disk) : Prop where
  kept : keepsPair key before = true → SamePair key before after
  removed : keepsPair key before = false →
    after.sidecars.lookup key = none ∧ after.files.lookup key = none

theorem SamePair.trans (left : SamePair key first second) (right : SamePair key second third) :
    SamePair key first third :=
  ⟨right.sidecar.trans left.sidecar, right.file.trans left.file⟩

theorem SamePair.keepsPair (same : SamePair key before after) :
    DiskStorage.keepsPair key after = DiskStorage.keepsPair key before := by
  unfold DiskStorage.keepsPair
  rw [same.sidecar, same.file]

theorem Swept.trans_same (swept : Swept key first second) (same : SamePair key second third) :
    Swept key first third := by
  refine ⟨fun kept => (swept.kept kept).trans same, fun dropped => ?_⟩
  obtain ⟨sidecar, file⟩ := swept.removed dropped
  exact ⟨same.sidecar.trans sidecar, same.file.trans file⟩

theorem SamePair.trans_swept (same : SamePair key first second) (swept : Swept key second third) :
    Swept key first third := by
  refine ⟨fun kept => same.trans (swept.kept ?_), fun dropped =>
    swept.removed ?_⟩
  · exact same.keepsPair.trans kept
  · exact same.keepsPair.trans dropped

/-- The entry of a pair that is kept. -/
def keptEntry (key : Key) (disk : Disk) : Option (Key × Nat) :=
  if keepsPair key disk then
    (disk.files.lookup key).map fun file => (key, file.length)
  else none

theorem keptEntry_eq_some_iff {entry : Key × Nat} :
    keptEntry key disk = some entry ↔
      keepsPair key disk = true ∧ ∃ file, disk.files.lookup key = some file ∧
        (key, file.length) = entry := by
  unfold keptEntry
  split
  · rename_i kept
    rw [Option.map_eq_some_iff]
    exact (and_iff_right kept).symm
  · rename_i dropped
    exact iff_of_false (Option.some_ne_none _).symm fun kept => dropped kept.1

theorem exists_of_keepsPair (kept : keepsPair key disk = true) :
    key ∈ disk.sidecars ∧ ∃ file, disk.files.lookup key = some file := by
  unfold keepsPair at kept
  split at kept
  · rename_i found
    refine ⟨AList.lookup_isSome.mp (Option.isSome_of_eq_some found), ?_⟩
    obtain ⟨file, opened, -⟩ := (Option.any_eq_true _ _).mp kept
    exact ⟨file, opened⟩
  · cases kept

theorem SamePair.keptEntry (same : SamePair key before after) :
    DiskStorage.keptEntry key after = DiskStorage.keptEntry key before := by
  unfold DiskStorage.keptEntry
  rw [same.keepsPair, same.file]

/-- What looking at one sidecar does. -/
structure Judged (path : Key) (before : Disk) (entry : Option (Key × Nat))
    (after : Disk) : Prop where
  entry_eq : entry = keptEntry path before
  index : after.index = before.index
  swept : Swept path before after
  others : ∀ other, other ≠ path → SamePair other before after

theorem keepsPair_of_foreign {path : Key}
    (found : disk.sidecars.lookup path = some (.metadata metadata))
    (foreign : metadata.key ≠ some path) :
    keepsPair path disk = false := by
  simp only [keepsPair, found]
  cases disk.files.lookup path with
  | none => rfl
  | some file =>
    rw [Option.any_some, ← Bool.not_eq_true]
    exact fun valid => foreign (key_eq_of_metadataIsValid valid)

section Enumeration

variable {env : Environment} (calm : env.Calm)
include calm

theorem ignore_fsCall_calm (done broken : Disk → Disk) (disk : Disk) :
    ignore (fsCall env done broken) disk =
      (.ok (), done { disk with clock := disk.clock + 1 }) := by
  unfold ignore
  rw [bind_of_ok (attempt_of_ok (fsCall_calm calm done broken disk))]
  rfl

theorem removeCachePair_calm (path : Key) (disk : Disk) :
    ∃ clock, removeCachePair env path disk = (.ok (), { disk with
      sidecars := disk.sidecars.erase path
      files := disk.files.erase path
      clock := clock }) := by
  unfold removeCachePair removeSidecar removeData
  rw [bind_of_ok (ignore_fsCall_calm calm _ _ _), ignore_fsCall_calm calm]
  exact ⟨_, rfl⟩

theorem removeCachePair_judged {path : Key} {ticked : Disk}
    (dropped : keepsPair path disk = false) (same : Unchanged disk ticked) :
    ∃ after, removeCachePair env path ticked = (.ok (), after) ∧ Judged path disk none after := by
  obtain ⟨clock, removed⟩ := removeCachePair_calm calm path ticked
  refine ⟨_, removed, ?_, same.index, ⟨fun kept => ?_, fun _ =>
    ⟨AList.lookup_erase _ _, AList.lookup_erase _ _⟩⟩, fun other ne => ⟨?_, ?_⟩⟩
  · rw [keptEntry, dropped]
    rfl
  · cases kept.symm.trans dropped
  · exact (AList.lookup_erase_ne ne).trans (by rw [same.sidecars])
  · exact (AList.lookup_erase_ne ne).trans (by rw [same.files])

/-- The sidecar of the key itself is kept if it passes the check; otherwise the
data file is removed twice. -/
theorem enumerateOwn_calm {path : Key}
    (found : disk.sidecars.lookup path = some (.metadata metadata)) :
    ∃ entry after, (if ((disk.files.lookup path).map SparseFile.length).any (fun size =>
            decide (path = path) && metadataIsValid metadata path (some size)) then
          pure (some (path, ((disk.files.lookup path).map SparseFile.length).getD 0))
        else do
          removeCachePair env path
          if path = path then ignore (removeData env path)
          pure none : DiskM (Option (Key × Nat)))
        { disk with clock := disk.clock + 1 + 1 } = (.ok entry, after) ∧
      Judged path disk entry after := by
  have valid_eq : (((disk.files.lookup path).map SparseFile.length).any
      fun size => metadataIsValid metadata path (some size)) =
      keepsPair path disk := by
    simp only [keepsPair, found]
    cases disk.files.lookup path <;> rfl
  simp only [decide_true, Bool.true_and, if_true, valid_eq]
  cases kept : keepsPair path disk with
  | true =>
    refine ⟨_, _, rfl, ?_, rfl, ⟨fun _ => ⟨rfl, rfl⟩, fun dropped => ?_⟩, fun _ _ => ⟨rfl, rfl⟩⟩
    · cases opened : disk.files.lookup path with
      | none => simp [keepsPair, found, opened] at kept
      | some file =>
        rw [keptEntry, kept, opened]
        rfl
    · cases kept.symm.trans dropped
  | false =>
    obtain ⟨after, removes, judged⟩ := removeCachePair_judged calm kept
      (show Unchanged disk { disk with clock := disk.clock + 1 + 1 } from ⟨rfl, rfl, rfl⟩)
    simp only [Bool.false_eq_true, if_false]
    unfold removeData
    rw [bind_of_ok removes, bind_of_ok (ignore_fsCall_calm calm _ _ _)]
    obtain ⟨sidecar, _⟩ := judged.swept.removed kept
    refine ⟨_, _, rfl, judged.entry_eq, judged.index, ⟨fun absurdly => ?_, fun _ =>
      ⟨sidecar, AList.lookup_erase _ _⟩⟩, fun other ne => ⟨?_, ?_⟩⟩
    · cases kept.symm.trans absurdly
    · exact (judged.others other ne).sidecar
    · exact (AList.lookup_erase_ne ne).trans (judged.others other ne).file

/-- One sidecar is kept with its file, or removed with it. -/
theorem enumerateSidecar_calm (path : Key) (disk : Disk) :
    ∃ entry after, enumerateSidecar env path disk = (.ok entry, after) ∧
      Judged path disk entry after := by
  unfold enumerateSidecar
  rw [bind_of_ok (fsQuery_calm calm _ disk)]
  have dropping (dropped : keepsPair path disk = false) :
      ∃ entry after, (do removeCachePair env path; pure none : DiskM (Option (Key × Nat)))
          { disk with clock := disk.clock + 1 } = (.ok entry, after) ∧
        Judged path disk entry after := by
    obtain ⟨after, removes, judged⟩ := removeCachePair_judged calm dropped
      (show Unchanged disk { disk with clock := disk.clock + 1 } from ⟨rfl, rfl, rfl⟩)
    exact ⟨none, after, bind_of_ok removes _, judged⟩
  cases found : disk.sidecars.lookup path with
  | none => exact dropping (by simp only [keepsPair, found])
  | some document =>
    cases document with
    | malformed => exact dropping (by simp only [keepsPair, found])
    | metadata metadata =>
      cases owner : metadata.key with
      | none =>
        simp only [owner]
        exact dropping (keepsPair_of_foreign found (by rw [owner]; exact nofun))
      | some key =>
        simp only [owner]
        rw [bind_of_ok (dataFileSize_calm calm key _)]
        by_cases own : path = key
        · subst own
          exact enumerateOwn_calm calm found
        · have foreign : metadata.key ≠ some path := by
            rw [owner]
            exact fun same => own (Option.some.inj same).symm
          obtain ⟨after, removes, judged⟩ := removeCachePair_judged calm
            (keepsPair_of_foreign found foreign)
            (show Unchanged disk { disk with clock := disk.clock + 1 + 1 } from ⟨rfl, rfl, rfl⟩)
          refine ⟨none, after, ?_, judged⟩
          have invalid (size : Option Nat) : (size.any fun size =>
              decide (path = key) && metadataIsValid metadata key (some size)) = false := by
            simp [own]
          rw [invalid]
          simp only [Bool.false_eq_true, if_false, own]
          exact bind_of_ok removes _

/-- Every listed sidecar is kept with its file or removed with it, and nothing
else changes. -/
theorem enumerateSidecars_calm {paths : List Key} (nodup : paths.Nodup) (disk : Disk) :
    ∃ after, enumerateSidecars env paths disk = (.ok (paths.filterMap (keptEntry · disk)), after) ∧
      after.index = disk.index ∧
      (∀ key ∈ paths, Swept key disk after) ∧
      ∀ key, key ∉ paths → SamePair key disk after := by
  induction paths generalizing disk with
  | nil =>
    refine ⟨disk, rfl, rfl, fun _ absurdly => ?_, fun _ _ => ⟨rfl, rfl⟩⟩
    cases absurdly
  | cons path paths inductionHypothesis =>
    obtain ⟨fresh, nodupRest⟩ := List.nodup_cons.mp nodup
    have ticked (key : Key) :
        SamePair key disk { disk with clock := disk.clock + 1 } := ⟨rfl, rfl⟩
    obtain ⟨entry, middle, enumerates, judged⟩ :=
      enumerateSidecar_calm calm path { disk with clock := disk.clock + 1 }
    obtain ⟨after, rest, indexRest, sweptRest, sameRest⟩ :=
      inductionHypothesis nodupRest middle
    -- the other sidecars are still what they were
    have entries_eq : paths.filterMap (keptEntry · middle) = paths.filterMap (keptEntry · disk) :=
      List.filterMap_congr fun other member =>
        ((ticked other).trans (judged.others other fun equal => fresh (equal ▸ member))).keptEntry
    unfold enumerateSidecars
    rw [bind_of_ok (fsCall_calm calm _ _ _)]
    simp only [id_eq]
    rw [bind_of_ok enumerates, bind_of_ok rest, entries_eq, judged.entry_eq]
    refine ⟨after, ?_, indexRest.trans judged.index, fun key member => ?_, fun key absent => ?_⟩
    · rw [List.filterMap_eq_flatMap_toList, List.filterMap_eq_flatMap_toList, List.flatMap_cons]
      rfl
    · by_cases equal : key = path
      · subst equal
        exact (ticked key).trans_swept (judged.swept.trans_same (sameRest key fresh))
      · exact ((ticked key).trans (judged.others key equal)).trans_swept
          (sweptRest key ((List.mem_cons.mp member).resolve_left equal))
    · rw [List.mem_cons, not_or] at absent
      exact ((ticked key).trans (judged.others key absent.1)).trans (sameRest key absent.2)

theorem dropTemporaries_calm (paths : List Key) (disk : Disk) :
    ∃ after, dropTemporaries env paths disk = (.ok (), after) ∧ Unchanged disk after := by
  induction paths generalizing disk with
  | nil => exact ⟨disk, rfl, refl_of Unchanged disk⟩
  | cons path paths inductionHypothesis =>
    unfold dropTemporaries dropTemporary
    rw [bind_of_ok (fsCall_calm calm _ _ _), bind_of_ok (ignore_fsCall_calm calm _ _ _)]
    obtain ⟨after, rest, unchanged⟩ := inductionHypothesis _
    exact ⟨after, rest, unchanged.files, unchanged.sidecars, unchanged.index⟩

/-- A new process over the directory and its enumeration. -/
theorem restart_calm (disk : Disk) :
    ∃ after, enumerate env disk.reopen =
        (.ok (disk.sidecars.keys.filterMap (keptEntry · disk)), after) ∧
      after.index = ∅ ∧
      (∀ key ∈ disk.sidecars, Swept key disk after) ∧
      ∀ key, key ∉ disk.sidecars → SamePair key disk after := by
  unfold enumerate
  rw [bind_of_ok (fsCall_calm calm _ _ _), bind_of_ok (gets_apply _ _)]
  obtain ⟨middle, drops, unchanged⟩ := dropTemporaries_calm calm _ _
  rw [bind_of_ok drops, bind_of_ok (gets_apply _ middle)]
  have sidecars : middle.sidecars = disk.sidecars := unchanged.sidecars
  have files : middle.files = disk.files := unchanged.files
  have same (key : Key) : SamePair key disk middle := by
    refine ⟨?_, ?_⟩
    · rw [sidecars]
    · rw [files]
  obtain ⟨after, enumerates, index, swept, rest⟩ :=
    enumerateSidecars_calm calm middle.sidecars.keys_nodup middle
  have entries_eq : middle.sidecars.keys.filterMap (keptEntry · middle) =
      disk.sidecars.keys.filterMap (keptEntry · disk) := by
    rw [sidecars]
    exact List.filterMap_congr fun key _ => (same key).keptEntry
  rw [entries_eq] at enumerates
  refine ⟨after, enumerates, index.trans unchanged.index, fun key member => ?_,
    fun key absent => ?_⟩
  · rw [← sidecars, AList.mem_keys] at member
    exact (same key).trans_swept (swept key member)
  · rw [← sidecars, AList.mem_keys] at absent
    exact (same key).trans (rest key absent)

end Enumeration

/-! ## What survives -/

/-- The state that a new process over the directory has after its
enumeration. -/
def restart (env : Environment) (disk : Disk) : Disk :=
  (enumerate env disk.reopen).2

/-- Checks of closed ranges and the upstream metadata of the key have the same
answers. -/
structure SameAnswers (env : Environment) (key : Key) (before after : Disk) : Prop where
  checkRange : ∀ first last, first ≤ last → last ≠ openEnded →
    (checkRange env key (first, last) after).1 = (checkRange env key (first, last) before).1
  upstreamMeta : (upstreamMeta env key after).1 = (upstreamMeta env key before).1

/-- A sidecar has a data file next to it that is not longer than its total; a
sidecar that has dropped out of the index may have a longer one. -/
def Survives (key : Key) (disk : Disk) : Prop :=
  ∀ metadata, disk.sidecars.lookup key = some (.metadata metadata) →
    ∃ file, disk.files.lookup key = some file ∧ (disk.index.lookup key = none ∨
        ∀ total, metadata.totalSize = some total → file.length ≤ total)

variable {env : Environment}

theorem upstreamMeta_answer (calm : env.Calm) (disk : Disk) :
    (upstreamMeta env key disk).1 = .ok (disk.current key).upstream := by
  obtain ⟨_, viewed, _⟩ := upstreamMeta_current calm key disk
  rw [viewed]

theorem sameAnswers_of_current (calm : env.Calm)
    (documents : after.current key = before.current key)
    (files : (before.current key).completed = [] ∨
      after.files.lookup key = before.files.lookup key) :
    SameAnswers env key before after := by
  refine ⟨fun first last _ closed => ?_, ?_⟩
  · obtain ⟨_, afterwards, _⟩ := checkRange_completed calm key after first closed
    obtain ⟨_, earlier, _⟩ := checkRange_completed calm key before first closed
    rw [afterwards, earlier, documents]
    rcases files with empty | same
    · rw [empty]
      rfl
    · rw [same]
  · rw [upstreamMeta_answer calm, upstreamMeta_answer calm, documents]

/-- The committed document of a key passes the check next to a file exactly if
the file is not longer than the total. -/
theorem Consistent.valid_iff (consistent : Consistent key disk)
    (found : disk.sidecars.lookup key = some (.metadata metadata))
    {file : SparseFile} (opened : disk.files.lookup key = some file) :
    metadataIsValid metadata key (some file.length) = true ↔
      ∀ total, metadata.totalSize = some total → file.length ≤ total := by
  have supported := consistent.documented metadata found
  obtain ⟨other, other_eq, committed⟩ := consistent.committed _ found
  cases other_eq
  have word : file.length ≤ u64Max :=
    (consistent.bounded file opened).trans (by decide)
  rw [metadataIsValid_some_iff word]
  constructor
  · exact fun valid => valid.2.2.1
  · intro short
    refine ⟨Nat.le_of_eq committed.version, committed.owner, short,
      supported.coalesced, fun range member => ?_⟩
    obtain ⟨other, other_eq, stored⟩ := supported.stored range.2
      (supported.coalesced.covers_last member)
    cases opened.symm.trans other_eq
    exact SparseFile.lt_length_of_isSome stored

theorem Consistent.completed_eq_nil (consistent : Consistent key disk)
    (found : disk.sidecars.lookup key = some (.metadata metadata))
    (missing : disk.files.lookup key = none) :
    metadata.completed = [] := by
  have supported := consistent.documented metadata found
  refine supported.coalesced.eq_nil fun offset covered => ?_
  obtain ⟨file, opened, _⟩ := supported.stored offset covered
  cases missing.symm.trans opened

theorem current_of_missing (index : disk.index.lookup key = none)
    (sidecar : disk.sidecars.lookup key = none) :
    disk.current key = {} := by
  rw [Disk.current, Disk.loaded, index, sidecar]
  rfl

theorem Settled.current_eq (settled : Settled key disk)
    (found : disk.sidecars.lookup key = some (.metadata metadata))
    (valid : disk.index.lookup key = none → metadataIsValid metadata key
        ((disk.files.lookup key).map SparseFile.length) = true) :
    disk.current key = metadata := by
  unfold Disk.current Disk.loaded
  cases index : disk.index.lookup key with
  | some indexed =>
    have synced := settled.synced indexed index
    rw [found] at synced
    cases synced
    rfl
  | none =>
    rw [found]
    simp only [valid index, if_true]
    rfl

section Swept

variable {env : Environment} {key : Key} {before after : Disk}
  {metadata : RangeMetadata} (calm : env.Calm)
  (consistent : Consistent key before)
  (found : before.sidecars.lookup key = some (.metadata metadata))
  (unindexed : after.index.lookup key = none)
  (swept : Swept key before after)

theorem current_of_removed (unindexed : after.index.lookup key = none)
    (swept : Swept key before after) (removed : keepsPair key before = false) :
    after.current key = {} :=
  current_of_missing unindexed (swept.removed removed).1

include calm in
theorem not_sameAnswers_of_removed (known : (before.current key).totalSize ≠ none ∨
      (before.current key).contentType ≠ none)
    (removed : after.current key = {}) :
    ¬SameAnswers env key before after := by
  intro same
  have upstream := same.upstreamMeta
  rw [upstreamMeta_answer calm, upstreamMeta_answer calm, removed] at upstream
  injection upstream with upstream
  injection upstream with totalSize contentType
  rcases known with known | known
  · exact known totalSize.symm
  · exact known contentType.symm

include calm consistent found unindexed swept

theorem sameAnswers_iff_of_missing (missing : before.files.lookup key = none) :
    SameAnswers env key before after ↔ Survives key before := by
  obtain ⟨_, same, committed⟩ := consistent.committed _ found
  cases same
  have removed : keepsPair key before = false := by
    simp only [keepsPair, found, missing, Option.any_none]
  have current_eq : before.current key = metadata := by
    refine consistent.current_eq found fun _ => ?_
    rw [missing]
    exact metadataIsValid_none_iff.mpr ⟨Nat.le_of_eq committed.version,
      committed.owner, consistent.completed_eq_nil found missing⟩
  refine iff_of_false (not_sameAnswers_of_removed calm ?_
    (current_of_removed unindexed swept removed)) fun survives => ?_
  · rw [current_eq]
    refine committed.informative.resolve_left ?_
    rintro ⟨file, opened⟩
    cases missing.symm.trans opened
  · obtain ⟨file, opened, _⟩ := survives metadata found
    cases missing.symm.trans opened

/-- A document next to a file is kept if it passes the check; otherwise it is
lost, unless it was not in use any more. -/
theorem sameAnswers_iff_of_opened {file : SparseFile}
    (opened : before.files.lookup key = some file) :
    SameAnswers env key before after ↔ Survives key before := by
  have valid_iff := consistent.valid_iff found opened
  have keeps_eq : keepsPair key before = metadataIsValid metadata key (some file.length) := by
    simp only [keepsPair, found, opened, Option.any_some]
  cases valid : metadataIsValid metadata key (some file.length) with
  | true =>
    have same := swept.kept (keeps_eq.trans valid)
    have before_eq : before.current key = metadata := by
      refine consistent.current_eq found fun _ => ?_
      rw [opened]
      exact valid
    have after_eq : after.current key = metadata := by
      simp only [Disk.current, Disk.loaded, unindexed, same.sidecar, found, same.file, opened,
        Option.map_some, valid, if_true]
      rfl
    refine iff_of_true (sameAnswers_of_current calm
      (after_eq.trans before_eq.symm) (Or.inr same.file)) ?_
    intro other other_eq
    cases found.symm.trans other_eq
    exact ⟨file, opened, Or.inr (valid_iff.mp valid)⟩
  | false =>
    have removed := current_of_removed unindexed swept (keeps_eq.trans valid)
    have long : ¬∀ total, metadata.totalSize = some total → file.length ≤ total := by
      rw [← valid_iff, valid]
      exact Bool.false_ne_true
    cases cached : before.index.lookup key with
    | none =>
      have before_eq : before.current key = {} := by
        simp only [Disk.current, Disk.loaded, cached, found, opened, Option.map_some, valid,
          Bool.false_eq_true, if_false]
        rfl
      refine iff_of_true (sameAnswers_of_current calm
        (removed.trans before_eq.symm) (Or.inl (by rw [before_eq]))) ?_
      exact fun _ _ => ⟨file, opened, Or.inl cached⟩
    | some indexed =>
      have before_eq : before.current key = metadata := by
        refine consistent.current_eq found fun absurdly => ?_
        cases cached.symm.trans absurdly
      refine iff_of_false (not_sameAnswers_of_removed calm (Or.inl ?_) removed) fun survives => ?_
      · rw [before_eq]
        intro unknown
        refine long fun total declared => ?_
        cases unknown.symm.trans declared
      · obtain ⟨other, other_eq, unused | short⟩ := survives metadata found
        · cases cached.symm.trans unused
        · cases opened.symm.trans other_eq
          exact long short

end Swept

/-- A new process keeps the answers of a key exactly if the key survives. -/
theorem sameAnswers_iff (calm : env.Calm)
    (consistent : ∀ key, Consistent key disk) (key : Key) :
    SameAnswers env key disk (restart env disk) ↔ Survives key disk := by
  obtain ⟨after, restarted, index, swept, same⟩ := restart_calm calm disk
  have after_eq : restart env disk = after := congrArg Prod.snd restarted
  have unindexed : after.index.lookup key = none := by
    rw [index]
    exact AList.lookup_empty key
  rw [after_eq]
  cases sidecar : disk.sidecars.lookup key with
  | none =>
    have untouched := same key (AList.lookup_eq_none.mp sidecar)
    have notIndexed : disk.index.lookup key = none := by
      cases cached : disk.index.lookup key with
      | none => rfl
      | some metadata =>
        cases sidecar.symm.trans ((consistent key).synced metadata cached)
    have before := current_of_missing notIndexed sidecar
    refine iff_of_true (sameAnswers_of_current calm ?_ (Or.inl ?_)) ?_
    · rw [before, current_of_missing unindexed (untouched.sidecar.trans sidecar)]
    · rw [before]
    · intro metadata found
      cases sidecar.symm.trans found
  | some found =>
    obtain ⟨metadata, rfl, committed⟩ :=
      (consistent key).committed found sidecar
    have sweeps := swept key (AList.lookup_isSome.mp (by rw [sidecar]; rfl))
    cases opened : disk.files.lookup key with
    | none =>
      exact sameAnswers_iff_of_missing calm (consistent key) sidecar unindexed sweeps opened
    | some file =>
      exact sameAnswers_iff_of_opened calm (consistent key) sidecar unindexed sweeps opened

/-- In every run of successful operations, a restart keeps all answers exactly if
every key survives. -/
theorem restart_answers_iff
    {env : Environment}
    (calm : env.Calm)
    {disk : Disk}
    (reached : Reaches Mutation.step (fun _ _ => True) Disk.empty disk) :
    (∀ key, SameAnswers env key disk (restart env disk)) ↔ ∀ key, Survives key disk :=
  forall_congr' fun key =>
    sameAnswers_iff calm (reaches_consistent reached) key

/-- Four bytes are written, and then the total is recorded. -/
def dataFirst : List Mutation :=
  [.write .calmHost "asset" [.ok [1, 2, 3, 4]] (0, 3),
    .recordUpstreamMeta .calmHost "asset" { totalSize := some 10 }]

theorem restart_answers_iff_dataFirst :
    ∃ disk, Reaches Mutation.step (fun _ _ => True) Disk.empty disk ∧
      ((checkRange .calmHost "asset" (1, 3) (restart .calmHost disk)).1,
        (upstreamMeta .calmHost "asset" (restart .calmHost disk)).1) =
        (.ok true, .ok { totalSize := some 10 }) ∧
      ((∀ key, SameAnswers .calmHost key disk (restart .calmHost disk)) ↔
        ∀ key, Survives key disk) := by
  obtain ⟨disk, reached, answers⟩ := exists_reaches_of_runActions
    (admitsAll_true dataFirst Disk.empty)
    (show (runActions Mutation.step dataFirst Disk.empty).map (fun disk =>
        ((checkRange .calmHost "asset" (1, 3) (restart .calmHost disk)).1,
          (upstreamMeta .calmHost "asset" (restart .calmHost disk)).1)) =
        some (.ok true, .ok { totalSize := some 10 }) by decide +kernel)
  exact ⟨disk, reached, answers, restart_answers_iff Environment.calmHost_calm reached⟩

/-- What was recorded before the first byte is gone after a restart, and so are
the bytes of a resource that is now declared to be shorter. -/
theorem restart_loses_answers :
    (∃ disk, Reaches Mutation.step (fun _ _ => True) Disk.empty disk ∧
      ((upstreamMeta .calmHost "asset" disk).1,
        (upstreamMeta .calmHost "asset" (restart .calmHost disk)).1) =
        (.ok { totalSize := some 10 }, .ok {})) ∧
    ∃ disk, Reaches Mutation.step (fun _ _ => True) Disk.empty disk ∧
      ((checkRange .calmHost "asset" (0, 3) disk).1,
        (checkRange .calmHost "asset" (0, 3) (restart .calmHost disk)).1) =
        (.ok true, .ok false) := by
  constructor
  · exact exists_reaches_of_runActions (admitsAll_true [.recordUpstreamMeta .calmHost "asset"
        { totalSize := some 10 }] _)
      (by decide +kernel)
  · exact exists_reaches_of_runActions
      (admitsAll_true [.write .calmHost "asset" [.ok [1, 2, 3, 4]] (0, 3),
        .recordUpstreamMeta .calmHost "asset" { totalSize := some 3 }] _)
      (by decide +kernel)

end DiskStorage
end VideoProxy
