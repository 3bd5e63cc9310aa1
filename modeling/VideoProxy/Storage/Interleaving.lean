import VideoProxy.Lib.Transition
import VideoProxy.Storage.Disk

/-!
# Concurrent tasks on one key

The engine is shared by many tasks, which give way to each other at every await.
This module splits the operations on one key at the awaits that touch shared
state: the index, the two files of the sidecar, the data file and the two locks.
Awaits without a visible effect (creating directories, seeking, syncing) are left
out, and the data of a write lands byte by byte.

The data path names an inode.  Unlinking it leaves the inode to the tasks that
have it open.

Four fields only keep the history of a run: how often the sidecar was replaced
or removed, the sidecar that was there at first, the updates committed since, both
up to the last removal, and the bytes that readers were served.
-/

namespace VideoProxy
namespace Interleaving

/-- Tasks are numbered. -/
abbrev TaskId := Nat

/-- What `with_metadata` is asked for: the upstream metadata, the total that
bounds an open range, or whether a range is covered.  The flag tells that the
end of the range came from an open one. -/
inductive View
  | upstream
  | total (start : Nat)
  | cover (start last : Nat) (unbounded : Bool)
  deriving DecidableEq

/-- The updates of the metadata. -/
inductive Update
  | completed (start finish : Nat)
  | upstream (declared : UpstreamMeta)
  deriving DecidableEq

/-- The edit that an update makes. -/
def Update.edit : Update → RangeMetadata → RangeMetadata × Bool
  | .completed start finish => completedEdit start finish
  | .upstream declared => upstreamEdit declared

/-- Where a task is: each place is named by what the task does next. -/
inductive Pc
  | idle
  | looking (view : View)
  | loading (view : View)
  | validating (view : View) (metadata : RangeMetadata) (readAt : Nat)
  | inserting (view : View) (metadata : RangeMetadata) (readAt : Nat)
  | sizing (start : Nat)
  | confirming (start last : Nat) (unbounded : Bool)
  | opening (start last : Nat) (unbounded : Bool)
  | measuring (inode start last : Nat) (unbounded : Bool)
  | reading (inode position last : Nat)
  | writeLocking (start : Nat) (bytes : Bytes)
  | writeOpening (start : Nat) (bytes : Bytes)
  | writing (inode start : Nat) (landed pending : Bytes)
  | updateLocking (update : Update) (writer : Bool)
  | updateLooking (update : Update) (writer : Bool)
  | updateLoading (update : Update) (writer : Bool)
  | updateValidating
      (update : Update) (writer : Bool) (metadata : RangeMetadata)
  | updateWriting
      (update : Update) (writer : Bool) (metadata : RangeMetadata)
  | updateRenaming
      (update : Update) (writer : Bool) (metadata : RangeMetadata)
  | updateInserting
      (update : Update) (writer : Bool) (metadata : RangeMetadata)
  | deleteLocking
  | deleteLockingMetadata
  | deleteForgetting
  | deleteUnlinkingData
  | deleteUnlinkingSidecar
  | sweepUnlinkingTemporary
  | sweepReading
  | sweepMeasuring (metadata : RangeMetadata)
  | sweepUnlinkingSidecar (again : Bool)
  | sweepUnlinkingData (again : Bool)
  deriving DecidableEq

/-- The state that the tasks share, and the tasks. -/
structure World where
  index : Option RangeMetadata
  sidecar : Option Document
  temporary : Option Document
  inodes : Nat → SparseFile
  nextInode : Nat
  path : Option Nat
  writeLock : Option TaskId
  metadataLock : Option TaskId
  tasks : TaskId → Pc
  /-- How often the sidecar was replaced or removed. -/
  commits : Nat
  /-- The sidecar of the start, unless it was removed since. -/
  origin : Option Document
  /-- The updates committed since the sidecar was last removed, newest first. -/
  history : List Update
  /-- Offsets that readers were served, with the byte stored there, if any. -/
  served : List (Nat × Option UInt8)

namespace World

/-- An empty directory and no operation in progress. -/
def empty : World where
  index := none
  sidecar := none
  temporary := none
  inodes := fun _ => .empty
  nextInode := 0
  path := none
  writeLock := none
  metadataLock := none
  tasks := fun _ => .idle
  commits := 0
  origin := none
  history := []
  served := []

/-- The task continues at another place. -/
def resume (world : World) (task : TaskId) (pc : Pc) : World :=
  { world with tasks := Function.update world.tasks task pc }

/-- `data_file_size`. -/
def fileSize (world : World) : Option Nat :=
  world.path.map fun inode => (world.inodes inode).length

/-- An update ends: its metadata lock is released, and the write lock with it if
the update belongs to a write. -/
def finishUpdate (world : World) (task : TaskId) (writer : Bool) : World :=
  { world.resume task .idle with
    metadataLock := none
    writeLock := if writer then none else world.writeLock }

/-- The edit of an update, made on the document that was found. -/
def applyUpdate (world : World) (key : Key) (task : TaskId) (update : Update) (writer : Bool)
    (metadata : RangeMetadata) : World :=
  let edited := update.edit metadata
  if edited.2 then
    world.resume task (.updateWriting update writer (stamp key edited.1))
  else world.finishUpdate task writer

/-- The sidecar is removed. -/
def unlinkSidecar (world : World) : World :=
  { world with
    sidecar := none
    commits := world.commits + 1
    origin := none
    history := [] }

end World

/-- Where a task continues once `with_metadata` has a document. -/
def View.finish (metadata : RangeMetadata) : View → Pc
  | .upstream => .idle
  | .total start =>
    match metadata.totalSize with
    | some size =>
      match checkedSub size 1 with
      | some last => .looking (.cover start last true)
      | none => .idle
    | none => .sizing start
  | .cover start last unbounded =>
    if metadata.completed.any fun completed =>
        completed.1 ≤ start && last ≤ completed.2 then
      .confirming start last unbounded
    else .idle

/-- The operations that a task can start, its next step, and the insert of another
key into the index, which is full and loses the entry of this one. -/
inductive Action
  | upstreamMeta (task : TaskId)
  | read (task : TaskId) (start finish : Nat)
  | write (task : TaskId) (start : Nat) (bytes : Bytes)
  | recordUpstreamMeta (task : TaskId) (declared : UpstreamMeta)
  | delete (task : TaskId)
  | sweepTemporary (task : TaskId)
  | sweep (task : TaskId)
  | evict
  | advance (task : TaskId)
  deriving DecidableEq

/-- The next steps of one task. -/
def advances (task : TaskId) (steps : Nat) : List Action :=
  List.replicate steps (.advance task)

/-- The next step of a reader: `with_metadata`, `check_range` and `read`. -/
def advanceReader (key : Key) (task : TaskId) (world : World) : Pc → Option World
  | .looking view =>
    match world.index with
    | some metadata => some (world.resume task (view.finish metadata))
    | none => some (world.resume task (.loading view))
  | .loading view =>
    match world.sidecar with
    | some (.metadata metadata) =>
      some (world.resume task (.validating view metadata world.commits))
    | _ => some (world.resume task (view.finish {}))
  | .validating view metadata readAt =>
    if metadataIsValid metadata key world.fileSize then
      some (world.resume task (.inserting view metadata readAt))
    else some (world.resume task (view.finish {}))
  | .inserting view metadata _ =>
    some { world.resume task (view.finish metadata) with
      index := some metadata }
  | .sizing start =>
    match world.fileSize.bind fun size => checkedSub size 1 with
    | some last =>
      some (world.resume task (.looking (.cover start last true)))
    | none => some (world.resume task .idle)
  | .confirming start last unbounded =>
    match world.path with
    | some _ => some (world.resume task (.opening start last unbounded))
    | none => some (world.resume task .idle)
  | .opening start last unbounded =>
    match world.path with
    | some inode =>
      some (world.resume task (.measuring inode start last unbounded))
    | none => some (world.resume task .idle)
  | .measuring inode start last unbounded =>
    let length := (world.inodes inode).length
    if start ≥ length then some (world.resume task .idle)
    else
      let finish :=
        if unbounded then length - 1 else min last (length - 1)
      some (world.resume task (.reading inode start finish))
  | .reading inode position last =>
    if position ≤ last then
      some { world.resume task (.reading inode (position + 1) last) with
        served :=
          (position, (world.inodes inode).cell position) :: world.served }
    else some (world.resume task .idle)
  | _ => none

/-- The next step of a write up to its update of the metadata. -/
def advanceWriter (task : TaskId) (world : World) : Pc → Option World
  | .writeLocking start bytes =>
    if world.writeLock.isNone then
      some { world.resume task (.writeOpening start bytes) with
        writeLock := some task }
    else none
  | .writeOpening start bytes =>
    match world.path with
    | some inode =>
      some (world.resume task (.writing inode start [] bytes))
    | none =>
      let inode := world.nextInode
      some { world.resume task (.writing inode start [] bytes) with
        inodes := Function.update world.inodes inode .empty
        nextInode := inode + 1
        path := some inode }
  | .writing inode start landed (byte :: pending) =>
    let file := (world.inodes inode).write (start + landed.length) [byte]
    some { world.resume task (.writing inode start (landed ++ [byte]) pending) with
      inodes := Function.update world.inodes inode file }
  | .writing _ start landed [] =>
    if landed.isEmpty then
      some { world.resume task .idle with writeLock := none }
    else
      some (world.resume task (.updateLocking
        (.completed start (start + (landed.length - 1))) true))
  | _ => none

/-- The next step of `update_metadata`. -/
def advanceUpdate (key : Key) (task : TaskId) (world : World) : Pc → Option World
  | .updateLocking update writer =>
    if world.metadataLock.isNone then
      some { world.resume task (.updateLooking update writer) with
        metadataLock := some task }
    else none
  | .updateLooking update writer =>
    match world.index with
    | some metadata =>
      some (world.applyUpdate key task update writer metadata)
    | none => some (world.resume task (.updateLoading update writer))
  | .updateLoading update writer =>
    match world.sidecar with
    | some (.metadata metadata) =>
      some (world.resume task (.updateValidating update writer metadata))
    | _ => some (world.applyUpdate key task update writer {})
  | .updateValidating update writer metadata =>
    if metadataIsValid metadata key world.fileSize then
      some (world.applyUpdate key task update writer metadata)
    else some (world.applyUpdate key task update writer {})
  | .updateWriting update writer metadata =>
    some { world.resume task (.updateRenaming update writer metadata) with
      temporary := some (.metadata metadata) }
  | .updateRenaming update writer metadata =>
    match world.temporary with
    | some document =>
      some { world.resume task (.updateInserting update writer metadata) with
        sidecar := some document
        temporary := none
        commits := world.commits + 1
        history := update :: world.history }
    | none => some (world.finishUpdate task writer)
  | .updateInserting _ writer metadata =>
    some { world.finishUpdate task writer with index := some metadata }
  | _ => none

/-- The next step of `delete`. -/
def advanceDelete (task : TaskId) (world : World) : Pc → Option World
  | .deleteLocking =>
    if world.writeLock.isNone then
      some { world.resume task .deleteLockingMetadata with
        writeLock := some task }
    else none
  | .deleteLockingMetadata =>
    if world.metadataLock.isNone then
      some { world.resume task .deleteForgetting with
        metadataLock := some task }
    else none
  | .deleteForgetting =>
    some { world.resume task .deleteUnlinkingData with index := none }
  | .deleteUnlinkingData =>
    some { world.resume task .deleteUnlinkingSidecar with path := none }
  | .deleteUnlinkingSidecar =>
    some { (world.resume task .idle).unlinkSidecar with
      writeLock := none
      metadataLock := none }
  | _ => none

/-- The next step of `enumerate` at the files of the key; it takes no lock. -/
def advanceSweep (key : Key) (task : TaskId) (world : World) : Pc → Option World
  | .sweepUnlinkingTemporary =>
    some { world.resume task .idle with temporary := none }
  | .sweepReading =>
    match world.sidecar with
    | some (.metadata metadata) =>
      if metadata.key = some key then
        some (world.resume task (.sweepMeasuring metadata))
      else some (world.resume task (.sweepUnlinkingSidecar false))
    | _ => some (world.resume task (.sweepUnlinkingSidecar false))
  | .sweepMeasuring metadata =>
    if world.fileSize.isSome ∧ metadataIsValid metadata key world.fileSize then
      some (world.resume task .idle)
    else some (world.resume task (.sweepUnlinkingSidecar true))
  | .sweepUnlinkingSidecar again =>
    some (world.resume task (.sweepUnlinkingData again)).unlinkSidecar
  | .sweepUnlinkingData again =>
    some { world.resume task (if again then .sweepUnlinkingData false else .idle) with
      path := none }
  | _ => none

/-- The next step of a task. -/
def advance (key : Key) (task : TaskId) (world : World) : Option World :=
  let pc := world.tasks task
  (advanceReader key task world pc).or <| (advanceWriter task world pc).or <|
      (advanceUpdate key task world pc).or <| (advanceDelete task world pc).or <|
          advanceSweep key task world pc

/-- An idle task starts an operation. -/
def begin (task : TaskId) (pc : Pc) (world : World) : Option World :=
  if world.tasks task = .idle then some (world.resume task pc) else none

/-- One step of the system. -/
def act (key : Key) : Action → World → Option World
  | .upstreamMeta task, world => begin task (.looking .upstream) world
  | .read task start finish, world =>
    if finish = openEnded then begin task (.looking (.total start)) world
    else begin task (.looking (.cover start finish false)) world
  | .write task start bytes, world =>
    if start + bytes.length ≤ maxFileOffset then
      begin task (.writeLocking start bytes) world
    else none
  | .recordUpstreamMeta task declared, world =>
    begin task (.updateLocking (.upstream declared) false) world
  | .delete task, world => begin task .deleteLocking world
  | .sweepTemporary task, world =>
    begin task .sweepUnlinkingTemporary world
  | .sweep task, world => begin task .sweepReading world
  | .evict, world => some { world with index := none }
  | .advance task, world => advance key task world

/-! ## Files and documents -/

/-- No data file is longer than a file can be. -/
def Bounded (inodes : Nat → SparseFile) : Prop :=
  ∀ inode, (inodes inode).length ≤ maxFileOffset

/-- A new file is empty. -/
theorem Bounded.create
    {inodes : Nat → SparseFile}
    (bounded : Bounded inodes)
    (inode : Nat) :
    Bounded (Function.update inodes inode .empty) :=
  (Function.forall_update_iff _ fun _ (file : SparseFile) =>
    file.length ≤ maxFileOffset).mpr ⟨Nat.zero_le _, fun other _ => bounded other⟩

/-- A byte lands before the greatest offset. -/
theorem Bounded.land
    {inodes : Nat → SparseFile}
    (bounded : Bounded inodes)
    (inode : Nat)
    {offset : Nat}
    (below : offset + 1 ≤ maxFileOffset)
    (byte : UInt8) :
    Bounded (Function.update inodes inode ((inodes inode).write offset [byte])) :=
  (Function.forall_update_iff _ fun _ (file : SparseFile) =>
    file.length ≤ maxFileOffset).mpr
      ⟨SparseFile.write_length_le (bounded inode) fun _ => below, fun other _ => bounded other⟩

/-- A table that ranges can be merged into. -/
structure Mergeable (table : List (Nat × Nat)) : Prop where
  coalesced : IntervalTable.Coalesced table
  words : ∀ range ∈ table, range.2 ≤ u64Max

theorem Mergeable.nil : Mergeable [] :=
  ⟨.nil, fun _ absurdly => nomatch absurdly⟩

/-- The check of a document that is loaded makes sure of its table. -/
theorem mergeable_of_valid
    {key : Key}
    {world : World}
    {metadata : RangeMetadata}
    (bounded : Bounded world.inodes)
    (valid : metadataIsValid metadata key world.fileSize = true) :
    Mergeable metadata.completed := by
  cases found : world.path with
  | none =>
    rw [World.fileSize, found, Option.map_none, metadataIsValid_none_iff] at valid
    rw [valid.2.2]
    exact .nil
  | some inode =>
    have word : (world.inodes inode).length ≤ u64Max :=
      (bounded inode).trans (by decide)
    rw [World.fileSize, found, Option.map_some, metadataIsValid_some_iff word] at valid
    obtain ⟨-, -, -, coalesced, inside⟩ := valid
    exact ⟨coalesced, fun range member => (inside range member).le.trans word⟩

/-- A directory as a process finds it when it starts: the index is empty and
nothing is in progress. -/
structure World.AtRest (world : World) : Prop where
  index : world.index = none
  idle : ∀ task, world.tasks task = .idle
  metadataLock : world.metadataLock = none
  writeLock : world.writeLock = none
  bounded : Bounded world.inodes

end Interleaving
end VideoProxy
