import VideoProxy.Storage.Locks

/-!
# The index and the sidecar under concurrency

An updater works under the metadata lock, and between its commit and its insert
into the index no other updater runs.  A reader takes no lock: what it read from
the sidecar may be out of date by the time it inserts it into the index.  An
updater that does not find an index entry loads the sidecar, and starts from
nothing if the sidecar does not pass its check.

This module shows a run with a late insert, and shows that there is no third way
to lose an update: in every run from any directory in which no reader inserts what
it read before a later commit, and no updater loads a sidecar that fails its check,
the index and the sidecar agree whenever the metadata lock is free, and the sidecar
lists exactly what it listed at first and the ranges committed since, up to the
last deletion.
-/

namespace VideoProxy
namespace Interleaving

open IntervalTable

/-! ## Tables and the updates behind them -/

/-- The ranges that a sidecar lists.  One that cannot be read lists none. -/
def tableOf : Option Document → List (Nat × Nat)
  | some (.metadata metadata) => metadata.completed
  | _ => []

/-- The table lists exactly what the sidecar of the start did and the ranges
recorded since. -/
def Lists
    (table : List (Nat × Nat))
    (origin : Option Document)
    (history : List Update) : Prop :=
  ∀ offset, Covers table offset ↔ Covers (tableOf origin) offset ∨
    ∃ start finish, Update.completed start finish ∈ history ∧ start ≤ offset ∧ offset ≤ finish

/-- A recorded range lies in order and within the file offsets. -/
def Update.Proper : Update → Prop
  | .completed start finish => start ≤ finish ∧ finish ≤ maxFileOffset
  | .upstream _ => True

/-- The table of a document that an update commits. -/
structure Follows
    (origin : Option Document)
    (history : List Update)
    (update : Update)
    (metadata : RangeMetadata) : Prop where
  mergeable : Mergeable metadata.completed
  lists : Lists metadata.completed origin (update :: history)

/-- An update of a document that lists what was recorded lists its own range,
too. -/
theorem follows_edit
    {origin : Option Document}
    {history : List Update}
    {metadata : RangeMetadata}
    (key : Key)
    (mergeable : Mergeable metadata.completed)
    (lists : Lists metadata.completed origin history)
    {update : Update}
    (proper : update.Proper) :
    Follows origin history update (stamp key (update.edit metadata).1) := by
  cases update with
  | upstream declared =>
    refine ⟨?_, fun offset => ?_⟩
    all_goals rw [stamp_completed, Update.edit, upstreamEdit_completed]
    · exact mergeable
    · rw [lists offset]
      simp
  | completed start finish =>
    obtain ⟨ordered, below⟩ := proper
    obtain ⟨coalesced, words⟩ := mergeable
    have word : finish ≤ u64Max := below.trans (by decide)
    refine ⟨⟨?_, ?_⟩, fun offset => ?_⟩
    all_goals rw [stamp_completed, Update.edit, completedEdit]
    · exact mergeRange_coalesced coalesced words ordered word
    · exact mergeRange_bounded coalesced words ordered word words word
    · rw [covers_mergeRange coalesced words ordered word, lists offset, or_assoc]
      refine or_congr_right ?_
      constructor
      · rintro (⟨first, last, recorded, bounds⟩ | bounds)
        · exact ⟨first, last, List.mem_cons_of_mem _ recorded, bounds⟩
        · exact ⟨start, finish, List.mem_cons_self, bounds⟩
      · rintro ⟨first, last, recorded, bounds⟩
        rcases List.mem_cons.mp recorded with same | earlier
        · cases same
          exact Or.inr bounds
        · exact Or.inl ⟨first, last, earlier, bounds⟩

/-! ## What holds at each place -/

/-- The places of `enumerate`. -/
def Pc.sweeps : Pc → Bool
  | .sweepUnlinkingTemporary | .sweepReading | .sweepMeasuring _
  | .sweepUnlinkingSidecar _ | .sweepUnlinkingData _ => true
  | _ => false

/-- The operations in progress only record ranges that lie in order and within
the file offsets. -/
def Pc.Proper : Pc → Prop
  | .writeLocking start bytes | .writeOpening start bytes =>
    start + bytes.length ≤ maxFileOffset
  | .writing _ start landed pending =>
    start + (landed.length + pending.length) ≤ maxFileOffset
  | .updateLocking update _ | .updateLooking update _
  | .updateLoading update _ | .updateValidating update _ _
  | .updateWriting update _ _ | .updateRenaming update _ _
  | .updateInserting update _ _ => update.Proper
  | _ => True

/-- An index entry is a copy of the sidecar. -/
def World.Synced (world : World) : Prop :=
  ∀ metadata, world.index = some metadata → world.sidecar = some (.metadata metadata)

/-- What the holder of the metadata lock can rely on at each place. -/
def Phase (world : World) : Pc → Prop
  | .updateValidating _ _ metadata =>
    world.Synced ∧ world.sidecar = some (.metadata metadata)
  | .updateWriting update _ metadata =>
    world.Synced ∧ Follows world.origin world.history update metadata
  | .updateRenaming update _ metadata =>
    world.Synced ∧ Follows world.origin world.history update metadata ∧
      world.temporary = some (.metadata metadata)
  | .updateInserting _ _ metadata =>
    world.sidecar = some (.metadata metadata) ∧ Mergeable metadata.completed
  | .deleteUnlinkingData | .deleteUnlinkingSidecar => world.index = none
  | _ => world.Synced

/-- What a reader took from the sidecar is still there unless there was a commit
since. -/
def Snapshot (world : World) : Pc → Prop
  | .validating _ metadata readAt =>
    readAt ≤ world.commits ∧
      (readAt = world.commits → world.sidecar = some (.metadata metadata))
  | .inserting _ metadata readAt =>
    Mergeable metadata.completed ∧ readAt ≤ world.commits ∧
      (readAt = world.commits → world.sidecar = some (.metadata metadata))
  | _ => True

/-- A task at its place fits into the world. -/
structure TaskCoherent (world : World) (pc : Pc) : Prop where
  phase : pc.holdsMetadata = true → Phase world pc
  snapshot : Snapshot world pc
  proper : pc.Proper
  noSweep : pc.sweeps = false

/-- The index, the sidecar and the history of commits fit together. -/
structure Coherent (world : World) : Prop where
  free : world.metadataLock = none → world.Synced
  mergeable : ∀ metadata, world.index = some metadata → Mergeable metadata.completed
  lists : Lists (tableOf world.sidecar) world.origin world.history
  bounded : Bounded world.inodes
  tasks : ∀ task, TaskCoherent world (world.tasks task)

/-! ## The condition -/

/-- The place of the task that has the metadata lock. -/
def World.holder (world : World) : Pc :=
  world.metadataLock.elim .idle world.tasks

/-- The updater has committed and is about to insert its document. -/
def Pc.committed : Pc → Bool
  | .updateInserting .. => true
  | _ => false

/-- The deletion has removed the index entry and is not over. -/
def Pc.forgotten : Pc → Bool
  | .deleteUnlinkingData | .deleteUnlinkingSidecar => true
  | _ => false

/-- The condition at a place: a reader inserts what it read only if the sidecar was
not committed to since, or the updater that committed to it has yet to insert its
own document, and never while a deletion is past the index; and a sidecar that an
updater loads passes its check. -/
def Pc.timely (key : Key) (world : World) : Pc → Bool
  | .inserting _ _ readAt =>
    (world.holder.committed || readAt == world.commits) && !world.holder.forgotten
  | .updateValidating _ _ metadata => metadataIsValid metadata key world.fileSize
  | _ => true

/-- The condition on a step: the operations are those of the metadata, and each is
continued in time. -/
def Timely (key : Key) : Action → World → Prop
  | .sweep _, _ | .sweepTemporary _, _ => False
  | .advance task, world => (world.tasks task).timely key world = true
  | _, _ => True

instance Timely.decidable (key : Key) :
    ∀ action world, Decidable (Timely key action world)
  | .sweep _, _ | .sweepTemporary _, _ => .isFalse id
  | .advance _, _ => instDecidableEqBool _ _
  | .upstreamMeta _, _ | .read .., _ | .write .., _ | .recordUpstreamMeta .., _
  | .delete _, _ | .evict, _ => .isTrue trivial

/-! ## The steps of the operations -/

section Steps

variable {key : Key} {world after : World} {task : TaskId} {pc : Pc}
  {metadata : RangeMetadata}

theorem taskCoherent_of_step
    (moved : after.tasks = Function.update world.tasks task pc)
    (own : TaskCoherent after pc)
    (others : ∀ other, other ≠ task → TaskCoherent after (world.tasks other)) :
    ∀ other, TaskCoherent after (after.tasks other) := by
  rw [moved]
  exact (Function.forall_update_iff _ fun _ => TaskCoherent after).mpr ⟨own, others⟩

/-- The documents and their history stay as they are. -/
structure SameDocuments (world after : World) : Prop where
  index : after.index = world.index
  sidecar : after.sidecar = world.sidecar
  temporary : after.temporary = world.temporary
  commits : after.commits = world.commits
  origin : after.origin = world.origin
  history : after.history = world.history

theorem SameDocuments.synced_iff (same : SameDocuments world after) :
    after.Synced ↔ world.Synced := by
  rw [World.Synced, same.index, same.sidecar]
  rfl

theorem SameDocuments.phase
    (same : SameDocuments world after)
    (phase : Phase world pc) :
    Phase after pc := by
  have unchanged : Phase after = Phase world := by
    funext place
    simp only [Phase, World.Synced, same.index, same.sidecar, same.temporary, same.origin,
      same.history]
  rw [unchanged]
  exact phase

/-- A snapshot stays good while the sidecar does, and lapses with a commit. -/
theorem Snapshot.commit
    (snapshot : Snapshot world pc)
    (commits : (after.commits = world.commits ∧ after.sidecar = world.sidecar) ∨
      after.commits = world.commits + 1) :
    Snapshot after pc := by
  have current {readAt : Nat} {metadata : RangeMetadata}
      (taken : readAt ≤ world.commits ∧
        (readAt = world.commits → world.sidecar = some (.metadata metadata))) :
      readAt ≤ after.commits ∧
        (readAt = after.commits → after.sidecar = some (.metadata metadata)) := by
    rcases commits with ⟨sameCommits, sameSidecar⟩ | next
    · rw [sameCommits, sameSidecar]
      exact taken
    · exact ⟨by omega, fun equal => by omega⟩
  cases pc with
  | validating view metadata readAt => exact current snapshot
  | inserting view metadata readAt => exact ⟨snapshot.1, current snapshot.2⟩
  | _ => trivial

/-- A task moves on without the metadata lock, and at most the data changes. -/
theorem Coherent.bystander
    (coherent : Coherent world)
    (moved : after.tasks = Function.update world.tasks task pc)
    (same : SameDocuments world after)
    (lock : after.metadataLock = world.metadataLock)
    (bounded : Bounded after.inodes)
    (stays : pc.holdsMetadata = false)
    (snapshot : Snapshot world pc)
    (proper : pc.Proper)
    (noSweep : pc.sweeps = false) :
    Coherent after := by
  have unchanged {place : Pc} (snapshot : Snapshot world place) : Snapshot after place :=
    snapshot.commit (Or.inl ⟨same.commits, same.sidecar⟩)
  refine ⟨fun unlocked => ?_, ?_, ?_, bounded, taskCoherent_of_step moved ?_ fun other _ => ?_⟩
  · exact same.synced_iff.mpr (coherent.free (lock ▸ unlocked))
  · rw [same.index]
    exact coherent.mergeable
  · rw [same.sidecar, same.origin, same.history]
    exact coherent.lists
  · refine ⟨fun holds => ?_, unchanged snapshot, proper, noSweep⟩
    rw [stays] at holds
    cases holds
  · obtain ⟨phase, snapshot, proper, noSweep⟩ := coherent.tasks other
    exact ⟨fun holds => same.phase (phase holds), unchanged snapshot, proper, noSweep⟩

theorem Coherent.own
    (coherent : Coherent world)
    (place : world.tasks task = pc) :
    TaskCoherent world pc :=
  place ▸ coherent.tasks task

/-- The holder of the metadata lock moves on or releases it. -/
theorem Coherent.holder
    {old : Pc}
    (coherent : Coherent world)
    (locked : Locked world)
    (lockedAfter : Locked after)
    (moved : after.tasks = Function.update world.tasks task pc)
    (place : world.tasks task = old)
    (holds : old.holdsMetadata = true)
    (phase : pc.holdsMetadata = true → Phase after pc)
    (free : pc.holdsMetadata = false → after.Synced)
    (mergeable : ∀ metadata, after.index = some metadata → Mergeable metadata.completed)
    (lists : Lists (tableOf after.sidecar) after.origin after.history)
    (commits : (after.commits = world.commits ∧ after.sidecar = world.sidecar) ∨
      after.commits = world.commits + 1)
    (inodes : after.inodes = world.inodes)
    (snapshot : Snapshot after pc)
    (proper : pc.Proper)
    (noSweep : pc.sweeps = false) :
    Coherent after := by
  refine ⟨fun unlocked => free ?_, mergeable, lists, inodes ▸ coherent.bounded,
    taskCoherent_of_step moved ⟨phase, snapshot, proper, noSweep⟩ fun other ne => ?_⟩
  · have released := lockedAfter.metadata.not_holds_of_free unlocked task
    rwa [moved, Function.update_self] at released
  · obtain ⟨_, snapshot, proper, noSweep⟩ := coherent.tasks other
    refine ⟨fun absurdly => ?_, snapshot.commit commits, proper, noSweep⟩
    rw [locked.metadata.not_holds_of_ne (place ▸ holds) ne] at absurdly
    cases absurdly

/-- A task takes the free metadata lock. -/
theorem Coherent.acquire
    (coherent : Coherent world)
    (locked : Locked world)
    (moved : after.tasks = Function.update world.tasks task pc)
    (same : SameDocuments world after)
    (inodes : after.inodes = world.inodes)
    (unlocked : world.metadataLock = none)
    (lock : after.metadataLock = some task)
    (phase : after.Synced → Phase after pc)
    (snapshot : Snapshot after pc)
    (proper : pc.Proper)
    (noSweep : pc.sweeps = false) :
    Coherent after := by
  refine ⟨fun absurdly => ?_, ?_, ?_, inodes ▸ coherent.bounded,
    taskCoherent_of_step moved ?_ fun other _ => ?_⟩
  · rw [lock] at absurdly
    cases absurdly
  · rw [same.index]
    exact coherent.mergeable
  · rw [same.sidecar, same.origin, same.history]
    exact coherent.lists
  · exact ⟨fun _ => phase (same.synced_iff.mpr (coherent.free unlocked)), snapshot, proper,
      noSweep⟩
  · obtain ⟨_, snapshot, proper, noSweep⟩ := coherent.tasks other
    refine ⟨fun absurdly => ?_, snapshot.commit (Or.inl ⟨same.commits, same.sidecar⟩), proper,
      noSweep⟩
    rw [locked.metadata.not_holds_of_free unlocked other] at absurdly
    cases absurdly

/-- The index entry changes: it must be the sidecar's unless the holder of the
metadata lock is about to replace it, and there must be none once a deletion has
removed it. -/
theorem Phase.setIndex
    {index : Option RangeMetadata}
    (phase : Phase world pc)
    (synced : pc.committed = false → ({ world with index := index } : World).Synced)
    (gone : pc.forgotten = true → index = none) :
    Phase { world with index := index } pc := by
  cases pc with
  | updateValidating update writer metadata => exact ⟨synced rfl, phase.2⟩
  | updateWriting update writer metadata => exact ⟨synced rfl, phase.2⟩
  | updateRenaming update writer metadata => exact ⟨synced rfl, phase.2⟩
  | updateInserting update writer metadata => exact phase
  | deleteUnlinkingData => exact gone rfl
  | deleteUnlinkingSidecar => exact gone rfl
  | _ => exact synced rfl

theorem Coherent.setIndex
    (coherent : Coherent world)
    (locked : Locked world)
    {index : Option RangeMetadata}
    (mergeable : ∀ metadata, index = some metadata → Mergeable metadata.completed)
    (synced : world.holder.committed = false → ({ world with index := index } : World).Synced)
    (gone : world.holder.forgotten = true → index = none) :
    Coherent { world with index := index } := by
  refine ⟨fun unlocked => synced ?_, mergeable, coherent.lists, coherent.bounded,
    fun other => ?_⟩
  · have free : world.metadataLock = none := unlocked
    rw [World.holder, free]
    rfl
  · obtain ⟨phase, snapshot, proper, noSweep⟩ := coherent.tasks other
    refine ⟨fun holds => ?_, snapshot, proper, noSweep⟩
    have here : world.holder = world.tasks other := by
      rw [World.holder, (locked.metadata other).mp holds]
      rfl
    rw [here] at synced gone
    exact (phase holds).setIndex synced gone

/-- Places without a lock, a snapshot or a range to record. -/
def Pc.Plain (pc : Pc) : Prop :=
  pc.holdsMetadata = false ∧ (∀ world, Snapshot world pc) ∧ pc.Proper ∧ pc.sweeps = false

theorem finish_plain (view : View) (metadata : RangeMetadata) :
    (view.finish metadata).Plain := by
  unfold View.finish
  repeat' split
  all_goals exact ⟨rfl, fun _ => trivial, trivial, rfl⟩

theorem Coherent.resume_plain
    (coherent : Coherent world)
    (plain : pc.Plain) :
    Coherent (world.resume task pc) :=
  coherent.bystander rfl ⟨rfl, rfl, rfl, rfl, rfl, rfl⟩ rfl coherent.bounded plain.1
    (plain.2.1 world) plain.2.2.1 plain.2.2.2

/-- A reader inserts what it read. -/
theorem Coherent.insert
    (coherent : Coherent world)
    (locked : Locked world)
    {view : View}
    {readAt : Nat}
    (place : world.tasks task = .inserting view metadata readAt)
    (timely : (world.tasks task).timely key world = true) :
    Coherent { world.resume task (view.finish metadata) with index := some metadata } := by
  have snapshot := (coherent.tasks task).snapshot
  rw [place] at snapshot timely
  simp only [Pc.timely, Bool.and_eq_true, Bool.or_eq_true, beq_iff_eq,
    Bool.not_eq_true'] at timely
  have inserted : Coherent { world with index := some metadata } := by
    refine coherent.setIndex locked ?_ (fun uncommitted => ?_) fun forgotten => ?_
    · intro other found
      cases found
      exact snapshot.1
    · intro other found
      cases found
      refine snapshot.2.2 (timely.1.resolve_left ?_)
      rw [uncommitted]
      exact Bool.false_ne_true
    · rw [timely.2] at forgotten
      cases forgotten
  exact inserted.resume_plain (finish_plain view metadata)

theorem advanceReader_coherent (coherent : Coherent world) (locked : Locked world)
    (timely : (world.tasks task).timely key world = true)
    (moves : advanceReader key task world (world.tasks task) = some after) :
    Coherent after := by
  unfold advanceReader at moves
  split at moves
  · rename_i view place
    split at moves
    · cases moves
      exact coherent.resume_plain (finish_plain view _)
    · cases moves
      exact coherent.resume_plain ⟨rfl, fun _ => trivial, trivial, rfl⟩
  · rename_i view place
    split at moves
    · rename_i metadata found
      cases moves
      exact coherent.bystander rfl ⟨rfl, rfl, rfl, rfl, rfl, rfl⟩ rfl coherent.bounded rfl
        ⟨Nat.le_refl _, fun _ => found⟩ trivial rfl
    · cases moves
      exact coherent.resume_plain (finish_plain view _)
  · rename_i view metadata readAt place
    split at moves
    · rename_i valid
      cases moves
      have snapshot := (coherent.tasks task).snapshot
      rw [place] at snapshot
      exact coherent.bystander rfl ⟨rfl, rfl, rfl, rfl, rfl, rfl⟩ rfl coherent.bounded rfl
        ⟨mergeable_of_valid coherent.bounded valid, snapshot⟩ trivial rfl
    · cases moves
      exact coherent.resume_plain (finish_plain view _)
  · rename_i view metadata readAt place
    cases moves
    exact coherent.insert locked place timely
  · rename_i start place
    split at moves
    all_goals
      cases moves
      exact coherent.resume_plain ⟨rfl, fun _ => trivial, trivial, rfl⟩
  · rename_i start last unbounded place
    split at moves
    all_goals
      cases moves
      exact coherent.resume_plain ⟨rfl, fun _ => trivial, trivial, rfl⟩
  · rename_i start last unbounded place
    split at moves
    all_goals
      cases moves
      exact coherent.resume_plain ⟨rfl, fun _ => trivial, trivial, rfl⟩
  · rename_i inode start last unbounded place
    simp only at moves
    split at moves
    all_goals
      cases moves
      exact coherent.resume_plain ⟨rfl, fun _ => trivial, trivial, rfl⟩
  · rename_i inode position last place
    split at moves
    all_goals
      cases moves
      exact coherent.bystander rfl ⟨rfl, rfl, rfl, rfl, rfl, rfl⟩ rfl coherent.bounded rfl
        trivial trivial rfl
  · cases moves

theorem advanceWriter_coherent (coherent : Coherent world)
    (moves : advanceWriter task world (world.tasks task) = some after) :
    Coherent after := by
  unfold advanceWriter at moves
  split at moves
  · rename_i start bytes place
    have own := coherent.own place
    split at moves
    · cases moves
      exact coherent.bystander rfl ⟨rfl, rfl, rfl, rfl, rfl, rfl⟩ rfl coherent.bounded rfl
        trivial own.proper rfl
    · cases moves
  · rename_i start bytes place
    have fits : start + bytes.length ≤ maxFileOffset := (coherent.own place).proper
    have proper (inode : Nat) : (Pc.writing inode start [] bytes).Proper := by
      simpa only [Pc.Proper, List.length_nil, Nat.zero_add] using fits
    split at moves
    · cases moves
      exact coherent.bystander rfl ⟨rfl, rfl, rfl, rfl, rfl, rfl⟩ rfl coherent.bounded rfl
        trivial (proper _) rfl
    · cases moves
      exact coherent.bystander rfl ⟨rfl, rfl, rfl, rfl, rfl, rfl⟩ rfl
        (coherent.bounded.create _) rfl trivial (proper _) rfl
  · rename_i inode start landed byte pending place
    have fits : start + (landed.length + (byte :: pending).length) ≤ maxFileOffset :=
      (coherent.own place).proper
    have proper :
        (Pc.writing inode start (landed ++ [byte]) pending).Proper := by
      simp only [Pc.Proper, List.length_append, List.length_cons, List.length_nil] at fits ⊢
      omega
    have below : start + landed.length + 1 ≤ maxFileOffset := by
      rw [List.length_cons] at fits
      omega
    cases moves
    exact coherent.bystander rfl ⟨rfl, rfl, rfl, rfl, rfl, rfl⟩ rfl
      (coherent.bounded.land inode below byte) rfl trivial proper rfl
  · rename_i inode start landed place
    have fits : start + (landed.length + 0) ≤ maxFileOffset := (coherent.own place).proper
    split at moves
    · cases moves
      exact coherent.bystander rfl ⟨rfl, rfl, rfl, rfl, rfl, rfl⟩ rfl coherent.bounded rfl
        trivial trivial rfl
    · cases moves
      refine coherent.bystander rfl ⟨rfl, rfl, rfl, rfl, rfl, rfl⟩ rfl coherent.bounded rfl
        trivial ⟨?_, ?_⟩ rfl
      · omega
      · omega
  · cases moves

/-- An updater edits a document that lists what was recorded. -/
theorem Coherent.applyUpdate
    (coherent : Coherent world)
    {old : Pc}
    {update : Update}
    {writer : Bool}
    (locked : Locked world)
    (lockedAfter : Locked (world.applyUpdate key task update writer metadata))
    (place : world.tasks task = old)
    (holds : old.holdsMetadata = true)
    (proper : update.Proper)
    (synced : world.Synced)
    (mergeable : Mergeable metadata.completed)
    (lists : Lists metadata.completed world.origin world.history) :
    Coherent (world.applyUpdate key task update writer metadata) := by
  revert lockedAfter
  unfold World.applyUpdate
  simp only
  split
  all_goals intro lockedAfter
  · have follows := follows_edit key mergeable lists proper
    exact coherent.holder locked lockedAfter rfl place holds
      (fun _ => ⟨synced, follows⟩)
      (absurd ·.symm Bool.false_ne_true) coherent.mergeable coherent.lists
      (Or.inl ⟨rfl, rfl⟩) rfl trivial proper rfl
  · exact coherent.holder locked lockedAfter rfl place holds (absurd · Bool.false_ne_true)
      (fun _ => synced) coherent.mergeable coherent.lists (Or.inl ⟨rfl, rfl⟩) rfl
      trivial trivial rfl

theorem advanceUpdate_coherent
    (coherent : Coherent world)
    (locked : Locked world)
    (timely : (world.tasks task).timely key world = true)
    (moves : advanceUpdate key task world (world.tasks task) = some after) :
    Coherent after := by
  have lists := coherent.lists
  have lockedAfter := locked.step (advanceUpdate_orderly moves)
  unfold advanceUpdate at moves
  split at moves
  · rename_i update writer place
    have own := coherent.own place
    split at moves
    · rename_i unlocked
      cases moves
      exact coherent.acquire locked rfl ⟨rfl, rfl, rfl, rfl, rfl, rfl⟩ rfl
        (Option.isNone_iff_eq_none.mp unlocked) rfl id trivial own.proper rfl
    · cases moves
  · rename_i update writer place
    have own := coherent.own place
    have synced : world.Synced := own.phase rfl
    split at moves
    · rename_i metadata found
      cases moves
      rw [synced metadata found] at lists
      exact coherent.applyUpdate locked lockedAfter place rfl own.proper synced
        (coherent.mergeable metadata found) lists
    · cases moves
      exact coherent.holder locked lockedAfter rfl place rfl (fun _ => synced)
        (absurd ·.symm Bool.false_ne_true) coherent.mergeable coherent.lists
        (Or.inl ⟨rfl, rfl⟩) rfl trivial own.proper rfl
  · rename_i update writer place
    have own := coherent.own place
    have synced : world.Synced := own.phase rfl
    split at moves
    · rename_i metadata found
      cases moves
      exact coherent.holder locked lockedAfter rfl place rfl (fun _ => ⟨synced, found⟩)
        (absurd ·.symm Bool.false_ne_true) coherent.mergeable coherent.lists
        (Or.inl ⟨rfl, rfl⟩) rfl trivial own.proper rfl
    · rename_i unreadable
      have nothing : tableOf world.sidecar = [] := by
        unfold tableOf
        split
        · rename_i metadata found
          exact absurd found (unreadable metadata)
        · rfl
      cases moves
      rw [nothing] at lists
      exact coherent.applyUpdate locked lockedAfter place rfl own.proper synced .nil lists
  · rename_i update writer metadata place
    have own := coherent.own place
    rw [place] at timely
    obtain ⟨synced, found⟩ := own.phase rfl
    have valid : metadataIsValid metadata key world.fileSize = true := timely
    rw [if_pos valid] at moves
    cases moves
    rw [found] at lists
    exact coherent.applyUpdate locked lockedAfter place rfl own.proper synced
      (mergeable_of_valid coherent.bounded valid) lists
  · rename_i update writer metadata place
    have own := coherent.own place
    obtain ⟨synced, follows⟩ := own.phase rfl
    cases moves
    exact coherent.holder locked lockedAfter rfl place rfl
      (fun _ => ⟨synced, follows, rfl⟩)
      (absurd ·.symm Bool.false_ne_true) coherent.mergeable coherent.lists
      (Or.inl ⟨rfl, rfl⟩) rfl trivial own.proper rfl
  · rename_i update writer metadata place
    have own := coherent.own place
    obtain ⟨_, follows, written⟩ := own.phase rfl
    rw [written] at moves
    cases moves
    exact coherent.holder locked lockedAfter rfl place rfl (fun _ => ⟨rfl, follows.mergeable⟩)
      (absurd ·.symm Bool.false_ne_true) coherent.mergeable follows.lists (Or.inr rfl) rfl
      trivial own.proper rfl
  · rename_i update writer metadata place
    have own := coherent.own place
    obtain ⟨found, mergeable⟩ := own.phase rfl
    cases moves
    refine coherent.holder locked lockedAfter rfl place rfl (absurd · Bool.false_ne_true)
      (fun _ other inserted => ?_) (fun other inserted => ?_) coherent.lists
      (Or.inl ⟨rfl, rfl⟩) rfl trivial trivial rfl
    · cases inserted
      exact found
    · cases inserted
      exact mergeable
  · cases moves

theorem advanceDelete_coherent
    (coherent : Coherent world)
    (locked : Locked world)
    (moves : advanceDelete task world (world.tasks task) = some after) :
    Coherent after := by
  have lockedAfter := locked.step (advanceDelete_orderly moves)
  unfold advanceDelete at moves
  split at moves
  · rename_i place
    split at moves
    · cases moves
      exact coherent.bystander rfl ⟨rfl, rfl, rfl, rfl, rfl, rfl⟩ rfl coherent.bounded rfl
        trivial trivial rfl
    · cases moves
  · rename_i place
    split at moves
    · rename_i unlocked
      cases moves
      exact coherent.acquire locked rfl ⟨rfl, rfl, rfl, rfl, rfl, rfl⟩ rfl
        (Option.isNone_iff_eq_none.mp unlocked) rfl id trivial trivial rfl
    · cases moves
  · rename_i place
    cases moves
    exact coherent.holder locked lockedAfter rfl place rfl (fun _ => rfl)
      (absurd ·.symm Bool.false_ne_true)
      (fun _ found => absurd found.symm (Option.some_ne_none _)) coherent.lists
      (Or.inl ⟨rfl, rfl⟩) rfl trivial trivial rfl
  · rename_i place
    have forgotten : world.index = none := (coherent.own place).phase rfl
    cases moves
    exact coherent.holder locked lockedAfter rfl place rfl (fun _ => forgotten)
      (absurd ·.symm Bool.false_ne_true) coherent.mergeable coherent.lists
      (Or.inl ⟨rfl, rfl⟩) rfl trivial trivial rfl
  · rename_i place
    have forgotten : world.index = none := (coherent.own place).phase rfl
    cases moves
    refine coherent.holder locked lockedAfter rfl place rfl (absurd · Bool.false_ne_true)
      (fun _ other indexed => ?_) coherent.mergeable (fun offset => ?_) (Or.inr rfl) rfl
      trivial trivial rfl
    · cases forgotten.symm.trans indexed
    · simp [tableOf, World.unlinkSidecar]
  · cases moves

theorem advanceSweep_eq_none (noSweep : pc.sweeps = false) :
    advanceSweep key task world pc = none := by
  cases pc <;> first | rfl | cases noSweep

/-- Every timely step keeps the world coherent. -/
theorem act_coherent
    {action : Action}
    (coherent : Coherent world)
    (locked : Locked world)
    (timely : Timely key action world)
    (moves : act key action world = some after) :
    Coherent after := by
  have begins {task : TaskId} {pc : Pc} (started : begin task pc world = some after)
      (stays : pc.holdsMetadata = false)
      (snapshot : Snapshot world pc)
      (proper : pc.Proper)
      (noSweep : pc.sweeps = false) :
      Coherent after := by
    obtain ⟨_, rfl⟩ := begin_eq_some started
    exact coherent.bystander rfl ⟨rfl, rfl, rfl, rfl, rfl, rfl⟩ rfl coherent.bounded stays
      snapshot proper noSweep
  cases action with
  | upstreamMeta task => exact begins moves rfl trivial trivial rfl
  | read task start finish =>
    simp only [act] at moves
    split at moves
    · exact begins moves rfl trivial trivial rfl
    · exact begins moves rfl trivial trivial rfl
  | write task start bytes =>
    simp only [act] at moves
    split at moves
    · rename_i fits
      exact begins moves rfl trivial fits rfl
    · cases moves
  | recordUpstreamMeta task declared =>
    exact begins moves rfl trivial trivial rfl
  | delete task => exact begins moves rfl trivial trivial rfl
  | sweepTemporary task => exact timely.elim
  | sweep task => exact timely.elim
  | evict =>
    cases moves
    have gone (metadata : RangeMetadata) : none ≠ some metadata := (Option.some_ne_none _).symm
    exact coherent.setIndex locked (fun _ found => absurd found (gone _))
      (fun _ _ found => absurd found (gone _)) fun _ => rfl
  | advance task =>
    refine advance_cases moves (advanceReader_coherent coherent locked timely)
      (advanceWriter_coherent coherent)
      (advanceUpdate_coherent coherent locked timely)
      (advanceDelete_coherent coherent locked) fun sweep => ?_
    rw [advanceSweep_eq_none (coherent.tasks task).noSweep] at sweep
    cases sweep

end Steps

/-! ## Runs -/

/-- A directory as a process finds it when it starts, with any sidecar.  Nothing was
recorded since. -/
structure World.Started (world : World) : Prop extends world.AtRest where
  origin : world.origin = world.sidecar
  history : world.history = []

theorem World.Started.coherent
    {world : World}
    (started : world.Started) :
    Coherent world where
  free := by
    intro _ metadata indexed
    rw [started.index] at indexed
    cases indexed
  mergeable := by
    intro metadata indexed
    rw [started.index] at indexed
    cases indexed
  lists := by
    intro offset
    simp [started.origin, started.history]
  bounded := started.bounded
  tasks := by
    intro task
    rw [started.idle]
    exact ⟨(absurd · Bool.false_ne_true), trivial, trivial, rfl⟩

/-- In every run of timely steps from any directory, an index entry is a copy of
the sidecar whenever the metadata lock is free, and at any time the sidecar lists
exactly what it listed at the start and the ranges committed since, both up to the
last deletion. -/
theorem index_eq_sidecar_of_timely
    {key : Key}
    {start world : World}
    (started : start.Started)
    (reached : Reaches (act key) (Timely key) start world) :
    (world.metadataLock = none → ∀ metadata, world.index = some metadata →
      world.sidecar = some (.metadata metadata)) ∧
    Lists (tableOf world.sidecar) world.origin world.history := by
  have both : Locked world ∧ Coherent world := by
    refine reached.invariant (fun world => Locked world ∧ Coherent world)
      ⟨started.locked, started.coherent⟩ ?_
    intro action before after holds timely moves
    exact ⟨act_locked holds.1 moves, act_coherent holds.2 holds.1 timely moves⟩
  exact ⟨both.2.free, both.2.lists⟩

/-- The tables of the index and of the sidecar, with the holder of the metadata
lock. -/
def World.tables (world : World) :
    Option TaskId × Option (List (Nat × Nat)) × List (Nat × Nat) :=
  (world.metadataLock, world.index.map RangeMetadata.completed, tableOf world.sidecar)

/-- A directory with a data file of one byte that its sidecar lists. -/
def World.oneByte : World :=
  { World.empty with
    sidecar := some (.metadata (stamp "asset" { completed := [(0, 0)] }))
    inodes := fun _ => SparseFile.empty.write 0 [7]
    nextInode := 1
    path := some 0
    origin := some (.metadata (stamp "asset" { completed := [(0, 0)] })) }

theorem World.oneByte_started : World.oneByte.Started where
  index := rfl
  idle := fun _ => rfl
  metadataLock := rfl
  writeLock := rfl
  bounded := fun _ => show (SparseFile.empty.write 0 [7]).length ≤ maxFileOffset by decide
  origin := rfl
  history := rfl

/-- A writer loads the sidecar that a reader has read, too.  The reader inserts it
after the commit of the writer and before its insert.  Then the entry is evicted,
and a second writer loads the sidecar while a third task waits to delete. -/
def crossing : List Action :=
  .upstreamMeta 0 :: advances 0 3 ++ .write 1 1 [8] :: advances 1 10 ++
    advances 0 1 ++ advances 1 1 ++ .evict :: .write 2 3 [9] :: advances 2 5 ++
    .delete 0 :: advances 2 6

theorem index_eq_sidecar_of_timely_crossing :
    ∃ world : World, world.tables = (none, some [(0, 1), (3, 3)], [(0, 1), (3, 3)]) ∧
      (∀ metadata, world.index = some metadata → world.sidecar = some (.metadata metadata)) ∧
      Lists (tableOf world.sidecar) world.origin world.history := by
  have admits : AdmitsAll (act "asset") (Timely "asset") crossing World.oneByte := by
    decide +kernel
  have runs : (runActions (act "asset") crossing World.oneByte).map World.tables =
      some (none, some [(0, 1), (3, 3)], [(0, 1), (3, 3)]) := by
    decide +kernel
  obtain ⟨world, reached, observed⟩ := exists_reaches_of_runActions admits runs
  obtain ⟨synced, lists⟩ := index_eq_sidecar_of_timely World.oneByte_started reached
  exact ⟨world, observed, synced (congrArg Prod.fst observed), lists⟩

/-- A reader reads the sidecar while the first writer has committed and not yet
inserted, and inserts it after the second writer is done. -/
def lateInsert : List Action :=
  .upstreamMeta 0 :: advances 0 1 ++ .write 1 0 [7] :: advances 1 9 ++
    advances 0 2 ++ advances 1 1 ++ .write 2 1 [8] :: advances 2 9 ++
    advances 0 1

/-- The late insert leaves the first document in the index, with no lock held,
while the sidecar also lists the range of the second writer. -/
theorem lateInsert_stale :
    ∃ world, Reaches (act "asset") (fun _ _ => True) World.empty world ∧
      world.tables = (none, some [(0, 0)], [(0, 1)]) :=
  exists_reaches_of_runActions (admitsAll_true lateInsert _) (by decide +kernel)

end Interleaving
end VideoProxy
