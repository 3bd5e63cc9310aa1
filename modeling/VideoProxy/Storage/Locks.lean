import VideoProxy.Lib.Mutex
import VideoProxy.Storage.Interleaving

/-!
# Lock discipline

A write holds the write lock from before it opens the data file until its update
of the metadata is over, and a deletion holds both locks.  An update holds the
metadata lock.  Readers and `enumerate` hold neither.
-/

namespace VideoProxy
namespace Interleaving

/-- The places at which a task holds the metadata lock. -/
def Pc.holdsMetadata : Pc → Bool
  | .updateLooking .. | .updateLoading .. | .updateValidating ..
  | .updateWriting .. | .updateRenaming .. | .updateInserting ..
  | .deleteForgetting | .deleteUnlinkingData | .deleteUnlinkingSidecar => true
  | _ => false

/-- The places at which a task holds the write lock. -/
def Pc.holdsWrite : Pc → Bool
  | .writeOpening .. | .writing .. | .deleteLockingMetadata
  | .deleteForgetting | .deleteUnlinkingData | .deleteUnlinkingSidecar => true
  | .updateLocking _ writer | .updateLooking _ writer
  | .updateLoading _ writer | .updateValidating _ writer _
  | .updateWriting _ writer _ | .updateRenaming _ writer _
  | .updateInserting _ writer _ => writer
  | _ => false

/-- Both locks name exactly the tasks that hold them. -/
structure Locked (world : World) : Prop where
  metadata : Mutex.Fits Pc.holdsMetadata world.metadataLock world.tasks
  write : Mutex.Fits Pc.holdsWrite world.writeLock world.tasks

/-- A task leaves its place for another one, and takes and returns the locks in
order. -/
def Orderly (task : TaskId) (place : Pc) (world after : World) : Prop :=
  ∃ pc, after.tasks = Function.update world.tasks task pc ∧
    Mutex.Handover task world.metadataLock after.metadataLock place.holdsMetadata pc.holdsMetadata ∧
    Mutex.Handover task world.writeLock after.writeLock place.holdsWrite pc.holdsWrite

section Steps

variable {key : Key} {world after : World} {task : TaskId} {place pc : Pc}

/-- An orderly step keeps the locks with their holders. -/
theorem Locked.step (locked : Locked world)
    (orderly : Orderly task (world.tasks task) world after) :
    Locked after := by
  obtain ⟨pc, moved, metadata, write⟩ := orderly
  constructor
  · rw [moved]
    exact locked.metadata.move metadata
  · rw [moved]
    exact locked.write.move write

@[simp] theorem finish_holdsMetadata (view : View) (metadata : RangeMetadata) :
    (view.finish metadata).holdsMetadata = false := by
  unfold View.finish
  repeat' split
  all_goals rfl

@[simp] theorem finish_holdsWrite (view : View) (metadata : RangeMetadata) :
    (view.finish metadata).holdsWrite = false := by
  unfold View.finish
  repeat' split
  all_goals rfl

/-- A task that neither holds a lock nor takes one is orderly. -/
theorem orderly_of_unlocked (moved : after.tasks = Function.update world.tasks task pc)
    (metadataLock : after.metadataLock = world.metadataLock)
    (writeLock : after.writeLock = world.writeLock)
    (leaves : place.holdsMetadata = false ∧ place.holdsWrite = false)
    (enters : pc.holdsMetadata = false ∧ pc.holdsWrite = false) :
    Orderly task place world after := by
  refine ⟨pc, moved, ?_, ?_⟩
  · rw [leaves.1, enters.1]
    exact metadataLock
  · rw [leaves.2, enters.2]
    exact writeLock

theorem advanceReader_orderly (moves : advanceReader key task world place = some after) :
    Orderly task place world after := by
  unfold advanceReader at moves
  simp only at moves
  split at moves
  all_goals repeat' split at moves
  all_goals
    cases moves
    try exact orderly_of_unlocked rfl rfl rfl ⟨rfl, rfl⟩ ⟨rfl, rfl⟩
  all_goals
    exact orderly_of_unlocked rfl rfl rfl ⟨rfl, rfl⟩
      ⟨finish_holdsMetadata _ _, finish_holdsWrite _ _⟩

theorem advanceWriter_orderly (moves : advanceWriter task world place = some after) :
    Orderly task place world after := by
  unfold advanceWriter at moves
  simp only at moves
  split at moves
  · split at moves
    · rename_i free
      cases moves
      exact ⟨_, rfl, rfl, Option.isNone_iff_eq_none.mp free, rfl⟩
    · cases moves
  · split at moves
    all_goals
      cases moves
      exact ⟨_, rfl, rfl, rfl⟩
  · cases moves
    exact ⟨_, rfl, rfl, rfl⟩
  · split at moves
    all_goals
      cases moves
      exact ⟨_, rfl, rfl, rfl⟩
  · cases moves

theorem applyUpdate_orderly (update : Update) (writer : Bool) (metadata : RangeMetadata)
    (holdsMetadata : place.holdsMetadata = true) (holdsWrite : place.holdsWrite = writer) :
    Orderly task place world (world.applyUpdate key task update writer metadata) := by
  unfold World.applyUpdate
  simp only
  split
  · refine ⟨_, rfl, ?_, ?_⟩
    · rw [holdsMetadata]
      rfl
    · rw [holdsWrite]
      exact Mutex.Handover.keep writer
  · refine ⟨_, rfl, ?_, ?_⟩
    · rw [holdsMetadata]
      rfl
    · rw [holdsWrite]
      exact Mutex.Handover.release writer

theorem advanceUpdate_orderly (moves : advanceUpdate key task world place = some after) :
    Orderly task place world after := by
  unfold advanceUpdate at moves
  split at moves
  · split at moves
    · rename_i free
      cases moves
      exact ⟨_, rfl, ⟨Option.isNone_iff_eq_none.mp free, rfl⟩, Mutex.Handover.keep _⟩
    · cases moves
  · split at moves
    · cases moves
      exact applyUpdate_orderly _ _ _ rfl rfl
    · cases moves
      exact ⟨_, rfl, rfl, Mutex.Handover.keep _⟩
  · split at moves
    · cases moves
      exact ⟨_, rfl, rfl, Mutex.Handover.keep _⟩
    · cases moves
      exact applyUpdate_orderly _ _ _ rfl rfl
  · split at moves
    all_goals
      cases moves
      exact applyUpdate_orderly _ _ _ rfl rfl
  · cases moves
    exact ⟨_, rfl, rfl, Mutex.Handover.keep _⟩
  · split at moves
    · cases moves
      exact ⟨_, rfl, rfl, Mutex.Handover.keep _⟩
    · cases moves
      exact ⟨_, rfl, rfl, Mutex.Handover.release _⟩
  · cases moves
    exact ⟨_, rfl, rfl, Mutex.Handover.release _⟩
  · cases moves

theorem advanceDelete_orderly (moves : advanceDelete task world place = some after) :
    Orderly task place world after := by
  unfold advanceDelete at moves
  split at moves
  · split at moves
    · rename_i free
      cases moves
      exact ⟨_, rfl, rfl, Option.isNone_iff_eq_none.mp free, rfl⟩
    · cases moves
  · split at moves
    · rename_i free
      cases moves
      exact ⟨_, rfl, ⟨Option.isNone_iff_eq_none.mp free, rfl⟩, rfl⟩
    · cases moves
  · cases moves
    exact ⟨_, rfl, rfl, rfl⟩
  · cases moves
    exact ⟨_, rfl, rfl, rfl⟩
  · cases moves
    exact ⟨_, rfl, rfl, rfl⟩
  · cases moves

theorem advanceSweep_orderly (moves : advanceSweep key task world place = some after) :
    Orderly task place world after := by
  unfold advanceSweep at moves
  split at moves
  · cases moves
    exact ⟨_, rfl, rfl, rfl⟩
  · repeat' split at moves
    all_goals
      cases moves
      exact ⟨_, rfl, rfl, rfl⟩
  · split at moves
    all_goals
      cases moves
      exact ⟨_, rfl, rfl, rfl⟩
  · cases moves
    exact ⟨_, rfl, rfl, rfl⟩
  · rename_i again
    cases moves
    cases again
    all_goals exact ⟨_, rfl, rfl, rfl⟩
  · cases moves

/-- An operation begins with an idle task. -/
theorem begin_eq_some (begins : begin task pc world = some after) :
    world.tasks task = .idle ∧ after = world.resume task pc := by
  unfold begin at begins
  split at begins
  · rename_i idle
    cases begins
    exact ⟨idle, rfl⟩
  · cases begins

theorem begin_orderly (begins : begin task pc world = some after)
    (enters : pc.holdsMetadata = false ∧ pc.holdsWrite = false) :
    Orderly task (world.tasks task) world after := by
  obtain ⟨idle, rfl⟩ := begin_eq_some begins
  rw [idle]
  exact orderly_of_unlocked rfl rfl rfl ⟨rfl, rfl⟩ enters

/-- A step belongs to one of the five operations. -/
theorem advance_cases {motive : Prop} (moves : advance key task world = some after)
    (reader : advanceReader key task world (world.tasks task) = some after → motive)
    (writer : advanceWriter task world (world.tasks task) = some after → motive)
    (update : advanceUpdate key task world (world.tasks task) = some after → motive)
    (deletion : advanceDelete task world (world.tasks task) = some after → motive)
    (sweep : advanceSweep key task world (world.tasks task) = some after → motive) :
    motive := by
  simp only [advance, Option.or_eq_some_iff] at moves
  obtain found | ⟨_, found | ⟨_, found | ⟨_, found | ⟨_, found⟩⟩⟩⟩ := moves
  · exact reader found
  · exact writer found
  · exact update found
  · exact deletion found
  · exact sweep found

/-- Every step keeps the locks with their holders. -/
theorem act_locked {action : Action} (locked : Locked world)
    (moves : act key action world = some after) :
    Locked after := by
  cases action with
  | upstreamMeta task => exact locked.step (begin_orderly moves ⟨rfl, rfl⟩)
  | read task start finish =>
    simp only [act] at moves
    split at moves
    · exact locked.step (begin_orderly moves ⟨rfl, rfl⟩)
    · exact locked.step (begin_orderly moves ⟨rfl, rfl⟩)
  | write task start bytes =>
    simp only [act] at moves
    split at moves
    · exact locked.step (begin_orderly moves ⟨rfl, rfl⟩)
    · cases moves
  | recordUpstreamMeta task declared =>
    exact locked.step (begin_orderly moves ⟨rfl, rfl⟩)
  | delete task => exact locked.step (begin_orderly moves ⟨rfl, rfl⟩)
  | sweepTemporary task => exact locked.step (begin_orderly moves ⟨rfl, rfl⟩)
  | sweep task => exact locked.step (begin_orderly moves ⟨rfl, rfl⟩)
  | evict =>
    cases moves
    exact ⟨locked.metadata, locked.write⟩
  | advance task =>
    exact advance_cases moves (fun moves => locked.step (advanceReader_orderly moves))
      (fun moves => locked.step (advanceWriter_orderly moves))
      (fun moves => locked.step (advanceUpdate_orderly moves))
      (fun moves => locked.step (advanceDelete_orderly moves))
      (fun moves => locked.step (advanceSweep_orderly moves))

theorem World.AtRest.locked (rest : world.AtRest) : Locked world := by
  constructor
  · intro task
    simp [rest.idle, rest.metadataLock, Pc.holdsMetadata]
  · intro task
    simp [rest.idle, rest.writeLock, Pc.holdsWrite]

end Steps

end Interleaving
end VideoProxy
