import VideoProxy.Storage.Locks

/-!
# Holes under concurrency

A read checks the table and then opens the data file, with no lock in between.
If the file is unlinked and written anew in the meantime, the read is served
from a file that never had the bytes of the table.  The same happens when a
table outlives the file it was about in the index, in the hands of a reader or,
as `enumerate` takes no lock, in those of a writer.

This module shows such runs, and shows that they all go through an unlink that
some record in use does not survive, or through an open-ended read of a file
that is longer than what was checked: in every run without these two, each byte
served was stored in the file at hand.
-/

namespace VideoProxy
namespace Interleaving

open IntervalTable

/-! ## Records and the bytes they are about -/

/-- The data file at the path has a byte at the offset. -/
def World.Stores (world : World) (offset : Nat) : Prop :=
  ∃ inode, world.path = some inode ∧ ((world.inodes inode).cell offset).isSome

/-- A deletion has unlinked the data file and has yet to unlink the sidecar. -/
def World.Torn (world : World) : Prop :=
  world.path = none ∧ ∃ task, world.tasks task = .deleteUnlinkingSidecar

/-- Whatever the document lists is stored. -/
def Listed (world : World) (metadata : RangeMetadata) : Prop :=
  ∀ offset, Covers metadata.completed offset → world.Stores offset

/-- A document that passed its check and lists only what is stored. -/
structure Held (world : World) (metadata : RangeMetadata) : Prop where
  coalesced : Coalesced metadata.completed
  listed : Listed world metadata

/-- A range about to be recorded is stored. -/
def Update.Stored (world : World) : Update → Prop
  | .completed start finish => start ≤ finish ∧
      ∀ offset, start ≤ offset → offset ≤ finish → world.Stores offset
  | .upstream _ => True

/-- What a task relies on at each place. -/
def Founded (world : World) : Pc → Prop
  | .validating _ metadata _ => Listed world metadata ∨ world.Torn
  | .inserting _ metadata _ => Held world metadata
  | .confirming start last _ | .opening start last _ =>
    ∀ offset, start ≤ offset → offset ≤ last → world.Stores offset
  | .measuring inode start last _ | .reading inode start last =>
    inode < world.nextInode ∧ ∀ offset, start ≤ offset → offset ≤ last →
      ((world.inodes inode).cell offset).isSome
  | .writeLocking start bytes | .writeOpening start bytes =>
    start + bytes.length ≤ maxFileOffset
  | .writing inode start landed pending =>
    world.path = some inode ∧ start + (landed.length + pending.length) ≤ maxFileOffset ∧
      ∀ offset, start ≤ offset → offset < start + landed.length → world.Stores offset
  | .updateLocking update _ | .updateLooking update _
  | .updateLoading update _ => update.Stored world
  | .updateValidating update _ metadata =>
    update.Stored world ∧ Listed world metadata
  | .updateWriting _ _ metadata | .updateInserting _ _ metadata =>
    Held world metadata
  | .updateRenaming _ _ metadata => Held world metadata ∧
      ∀ document, world.temporary = some document → document = .metadata metadata
  | _ => True

/-- Every record of stored bytes is about the file at the path, and every open
file has the bytes it was opened for. -/
structure Guarded (world : World) : Prop where
  bounded : Bounded world.inodes
  fresh : ∀ inode, world.path = some inode → inode < world.nextInode
  index : ∀ metadata, world.index = some metadata → Held world metadata
  sidecar : ∀ metadata, world.sidecar = some (.metadata metadata) →
    Listed world metadata ∨ world.Torn
  tasks : ∀ task, Founded world (world.tasks task)
  served : ∀ entry ∈ world.served, entry.2.isSome

/-- The places at which a task relies on bytes of the file at the path. -/
def Pc.relies : Pc → Bool
  | .confirming .. | .opening .. | .writing ..
  | .updateLocking (.completed ..) _ | .updateLooking (.completed ..) _
  | .updateLoading (.completed ..) _
  | .updateValidating (.completed ..) _ _ => true
  | .validating _ metadata _ | .inserting _ metadata _
  | .updateValidating (.upstream _) _ metadata
  | .updateWriting _ _ metadata | .updateRenaming _ _ metadata
  | .updateInserting _ _ metadata => !metadata.completed.isEmpty
  | _ => false

/-- No task relies on bytes of the file at the path, and the index does not list
any. -/
structure World.Unused (world : World) : Prop where
  index : ∀ metadata, world.index = some metadata → metadata.completed = []
  tasks : ∀ task, (world.tasks task).relies = false

/-- The condition on a step: a file is unlinked only when nothing relies on its
bytes, where the sidecar counts unless the same deletion unlinks it next, and an
open-ended read meets a file that has not grown past the end that was
checked. -/
def Undisturbed : Action → World → Prop
  | .advance task, world =>
    match world.tasks task with
    | .deleteUnlinkingData => world.path.isSome → world.Unused
    | .deleteUnlinkingSidecar => world.Unused
    | .sweepUnlinkingData _ => world.path.isSome → world.Unused ∧
        ∀ metadata, world.sidecar = some (.metadata metadata) → metadata.completed = []
    | .measuring inode _ last true =>
      (world.inodes inode).length ≤ last + 1
    | _ => True
  | _, _ => True

section Steps

variable {key : Key} {world after : World} {task : TaskId} {pc : Pc}
  {metadata : RangeMetadata}

theorem listed_of_completed_eq_nil (nothing : metadata.completed = []) : Listed world metadata := by
  intro offset covered
  rw [nothing] at covered
  exact absurd covered (not_covers_nil offset)

theorem held_of_completed_eq_nil (nothing : metadata.completed = []) : Held world metadata := by
  refine ⟨?_, listed_of_completed_eq_nil nothing⟩
  rw [nothing]
  exact Coalesced.nil

theorem Guarded.word (guarded : Guarded world) {offset : Nat} (stores : world.Stores offset) :
    offset ≤ u64Max := by
  obtain ⟨inode, _, stored⟩ := stores
  have inside := SparseFile.lt_length_of_isSome stored
  have bounded := guarded.bounded inode
  unfold maxFileOffset at bounded
  unfold u64Max
  omega

/-- A document that passes its check lists only what is stored, even between the
two unlinks of a deletion. -/
theorem Guarded.held_of_valid (guarded : Guarded world)
    (listed : Listed world metadata ∨ world.Torn)
    (valid : metadataIsValid metadata key world.fileSize = true) :
    Held world metadata := by
  refine ⟨(mergeable_of_valid guarded.bounded valid).coalesced, ?_⟩
  rcases listed with listed | torn
  · exact listed
  · rw [World.fileSize, torn.1, Option.map_none, metadataIsValid_none_iff] at valid
    exact listed_of_completed_eq_nil valid.2.2

/-- The edit of an update of what is stored lists only what is stored. -/
theorem Guarded.held_edit (guarded : Guarded world) (held : Held world metadata) {update : Update}
    (stored : update.Stored world) :
    Held world (stamp key (update.edit metadata).1) := by
  cases update with
  | upstream declared =>
    refine ⟨?_, fun offset => ?_⟩
    all_goals rw [stamp_completed, Update.edit, upstreamEdit_completed]
    · exact held.coalesced
    · exact held.listed offset
  | completed start finish =>
    have words : ∀ range ∈ metadata.completed, range.2 ≤ u64Max :=
      fun range member => guarded.word (held.listed range.2 (held.coalesced.covers_last member))
    have word : finish ≤ u64Max :=
      guarded.word (stored.2 finish stored.1 (Nat.le_refl finish))
    refine ⟨?_, fun offset => ?_⟩
    all_goals rw [stamp_completed, Update.edit, completedEdit]
    · exact mergeRange_coalesced held.coalesced words stored.1 word
    · rw [covers_mergeRange held.coalesced words stored.1 word]
      rintro (covered | inside)
      · exact held.listed offset covered
      · exact stored.2 offset inside.1 inside.2

theorem founded_finish (listed : Listed world metadata) (view : View) :
    Founded world (view.finish metadata) := by
  cases view with
  | upstream => trivial
  | total start =>
    unfold View.finish
    repeat' split
    all_goals trivial
  | cover start last unbounded =>
    simp only [View.finish]
    split
    · rename_i covers
      obtain ⟨range, member, inside⟩ := List.any_eq_true.mp covers
      simp only [Bool.and_eq_true, decide_eq_true_eq] at inside
      intro offset lower upper
      exact listed offset ⟨range, member, by omega, by omega⟩
    · trivial

/-! ## Steps that lose nothing -/

/-- Stored bytes stay stored, open files keep their bytes, and a deletion that
is between its unlinks stays there. -/
structure Extends (world after : World) : Prop where
  stores : ∀ offset, world.Stores offset → after.Stores offset
  torn : world.Torn → after.Torn
  nextInode : world.nextInode ≤ after.nextInode
  cells : ∀ inode, inode < world.nextInode → ∀ offset, ((world.inodes inode).cell offset).isSome →
      ((after.inodes inode).cell offset).isSome
  path : ∀ inode, world.path = some inode → after.path = some inode

theorem Listed.mono (listed : Listed world metadata) (grows : Extends world after) :
    Listed after metadata :=
  fun offset covered => grows.stores offset (listed offset covered)

theorem Held.mono (held : Held world metadata) (grows : Extends world after) :
    Held after metadata :=
  ⟨held.coalesced, held.listed.mono grows⟩

theorem Update.Stored.mono {update : Update} (stored : update.Stored world)
    (grows : Extends world after) :
    update.Stored after := by
  cases update with
  | completed start finish =>
    exact ⟨stored.1, fun offset lower upper =>
      grows.stores offset (stored.2 offset lower upper)⟩
  | upstream declared => trivial

/-- A place stays founded while nothing is lost.  Only the holder of the metadata
lock relies on the temporary file. -/
theorem Founded.mono (founded : Founded world pc) (grows : Extends world after)
    (temporary : pc.holdsMetadata = true → ∀ document,
      after.temporary = some document → world.temporary = some document) :
    Founded after pc := by
  cases pc with
  | validating view metadata readAt =>
    exact founded.imp (fun listed => listed.mono grows) grows.torn
  | inserting _ metadata _ | updateWriting _ _ metadata | updateInserting _ _ metadata =>
    exact Held.mono founded grows
  | confirming start last unbounded | opening start last unbounded =>
    exact fun offset lower upper =>
      grows.stores offset (founded offset lower upper)
  | measuring inode _ last _ | reading inode _ last =>
    exact ⟨Nat.lt_of_lt_of_le founded.1 grows.nextInode,
      fun offset lower upper => grows.cells inode founded.1 offset (founded.2 offset lower upper)⟩
  | writeLocking start bytes | writeOpening start bytes => exact founded
  | writing inode start landed pending =>
    obtain ⟨path, fits, stored⟩ := founded
    exact ⟨grows.path inode path, fits, fun offset lower upper =>
      grows.stores offset (stored offset lower upper)⟩
  | updateLocking update writer | updateLooking update writer | updateLoading update writer =>
    exact Update.Stored.mono founded grows
  | updateValidating update writer metadata =>
    exact ⟨founded.1.mono grows, founded.2.mono grows⟩
  | updateRenaming update writer metadata =>
    exact ⟨founded.1.mono grows, fun document found =>
      founded.2 document (temporary rfl document found)⟩
  | _ => trivial

/-- A task that does not rely on the file at the path does not notice that it is
unlinked. -/
theorem Founded.unlink (founded : Founded world pc) (reliesNot : pc.relies = false)
    (inodes : after.inodes = world.inodes) (nextInode : after.nextInode = world.nextInode)
    (temporary : after.temporary = world.temporary) :
    Founded after pc := by
  have nothing {metadata : RangeMetadata} (empty : (!metadata.completed.isEmpty) = false) :
      metadata.completed = [] := by
    simpa using empty
  cases pc with
  | validating view metadata readAt =>
    exact Or.inl (listed_of_completed_eq_nil (nothing reliesNot))
  | inserting _ metadata _ | updateWriting _ _ metadata | updateInserting _ _ metadata =>
    exact held_of_completed_eq_nil (nothing reliesNot)
  | confirming start last unbounded | opening start last unbounded => cases reliesNot
  | measuring inode _ last _ | reading inode _ last =>
    simp only [Founded, inodes, nextInode]
    exact founded
  | writeLocking start bytes | writeOpening start bytes => exact founded
  | writing inode start landed pending => cases reliesNot
  | updateLocking update writer | updateLooking update writer | updateLoading update writer =>
    cases update with
    | completed start finish => cases reliesNot
    | upstream declared => trivial
  | updateValidating update writer metadata =>
    cases update with
    | completed start finish => cases reliesNot
    | upstream declared =>
      exact ⟨trivial, listed_of_completed_eq_nil (nothing reliesNot)⟩
  | updateRenaming update writer metadata =>
    refine ⟨held_of_completed_eq_nil (nothing reliesNot), ?_⟩
    rw [temporary]
    exact founded.2
  | _ => trivial

theorem Guarded.own (guarded : Guarded world) (place : world.tasks task = pc) : Founded world pc :=
  place ▸ guarded.tasks task

/-- The data file stays as it is. -/
structure SameFiles (world after : World) : Prop where
  path : after.path = world.path
  inodes : after.inodes = world.inodes
  nextInode : after.nextInode = world.nextInode

theorem SameFiles.extends (files : SameFiles world after)
    (moved : after.tasks = Function.update world.tasks task pc)
    (stays : world.tasks task ≠ .deleteUnlinkingSidecar) :
    Extends world after := by
  refine ⟨fun offset => ?_, fun torn => ?_, ?_, fun inode _ offset => ?_, fun inode => ?_⟩
  · simp only [World.Stores, files.path, files.inodes]
    exact id
  · obtain ⟨unlinked, deleter, place⟩ := torn
    refine ⟨files.path.trans unlinked, deleter, ?_⟩
    rw [moved, Function.update_of_ne, place]
    rintro rfl
    exact stays place
  · rw [files.nextInode]
  · rw [files.inodes]
    exact id
  · rw [files.path]
    exact id

section Step

variable (guarded : Guarded world) (moved : after.tasks = Function.update world.tasks task pc)
  (temporary : ∀ other, other ≠ task → (world.tasks other).holdsMetadata = true → ∀ document,
    after.temporary = some document → world.temporary = some document)
  (own : Founded after pc)
  (index : ∀ metadata, after.index = some metadata → Held world metadata)
  (sidecar : ∀ metadata, after.sidecar = some (.metadata metadata) →
    Listed world metadata ∨ world.Torn)
  (served : ∀ entry ∈ after.served, entry.2.isSome)
include guarded moved temporary own index sidecar served

/-- A step that loses nothing keeps the records of the tasks that do not take
it. -/
theorem Guarded.step (grows : Extends world after) (bounded : Bounded after.inodes)
    (fresh : ∀ inode, after.path = some inode → inode < after.nextInode) :
    Guarded after := by
  refine ⟨bounded, fresh, fun metadata found => (index metadata found).mono grows,
    fun metadata found => (sidecar metadata found).imp (fun listed => listed.mono grows) grows.torn,
    ?_, served⟩
  rw [moved]
  exact (Function.forall_update_iff _ fun _ => Founded after).mpr
    ⟨own, fun other ne => (guarded.tasks other).mono grows (temporary other ne)⟩

/-- A step that touches no data. -/
theorem Guarded.move (files : SameFiles world after)
    (stays : world.tasks task ≠ .deleteUnlinkingSidecar) :
    Guarded after := by
  refine guarded.step moved temporary own index sidecar served (files.extends moved stays) ?_ ?_
  · rw [files.inodes]
    exact guarded.bounded
  · rw [files.path, files.nextInode]
    exact guarded.fresh

end Step

theorem Guarded.resume (guarded : Guarded world)
    (moved : after.tasks = Function.update world.tasks task pc) (files : SameFiles world after)
    (same : after.index = world.index ∧ after.sidecar = world.sidecar ∧
      after.temporary = world.temporary ∧ after.served = world.served)
    (stays : world.tasks task ≠ .deleteUnlinkingSidecar) (own : Founded world pc) :
    Guarded after := by
  obtain ⟨index, sidecar, temporary, served⟩ := same
  refine guarded.move moved ?_ ?_ ?_ ?_ ?_ files stays
  · rw [temporary]
    exact fun _ _ _ _ => id
  · refine own.mono (files.extends moved stays) ?_
    rw [temporary]
    exact fun _ _ => id
  · rw [index]
    exact guarded.index
  · rw [sidecar]
    exact guarded.sidecar
  · rw [served]
    exact guarded.served

/-- A step that at most takes or releases a lock. -/
theorem Guarded.go {old : Pc} {metadataLock writeLock : Option TaskId} (guarded : Guarded world)
    (place : world.tasks task = old) (stays : old ≠ .deleteUnlinkingSidecar)
    (own : Founded world pc) :
    Guarded { world.resume task pc with metadataLock, writeLock } :=
  guarded.resume rfl ⟨rfl, rfl, rfl⟩ ⟨rfl, rfl, rfl, rfl⟩ (place ▸ stays) own

/-- A file is unlinked while nothing relies on its bytes. -/
theorem Guarded.unlink (guarded : Guarded world) (unused : world.Unused)
    (moved : after.tasks = Function.update world.tasks task pc)
    (path : ∀ inode, after.path = some inode → world.path = some inode)
    (inodes : after.inodes = world.inodes) (nextInode : after.nextInode = world.nextInode)
    (temporary : after.temporary = world.temporary) (index : after.index = world.index)
    (served : after.served = world.served) (own : Founded after pc)
    (sidecar : ∀ metadata, after.sidecar = some (.metadata metadata) →
      Listed after metadata ∨ after.Torn) :
    Guarded after := by
  refine ⟨?_, ?_, fun metadata found => ?_, sidecar, ?_, ?_⟩
  · rw [inodes]
    exact guarded.bounded
  · intro inode found
    rw [nextInode]
    exact guarded.fresh inode (path inode found)
  · rw [index] at found
    exact held_of_completed_eq_nil (unused.index metadata found)
  · rw [moved]
    exact (Function.forall_update_iff _ fun _ => Founded after).mpr
      ⟨own, fun other _ => (guarded.tasks other).unlink (unused.tasks other)
        inodes nextInode temporary⟩
  · rw [served]
    exact guarded.served

/-! ## The steps of the operations -/

theorem advanceReader_guarded (guarded : Guarded world)
    (undisturbed : Undisturbed (.advance task) world)
    (moves : advanceReader key task world (world.tasks task) = some after) :
    Guarded after := by
  have default (view : View) : Founded world (view.finish {}) :=
    founded_finish (listed_of_completed_eq_nil rfl) view
  unfold advanceReader at moves
  split at moves
  · rename_i view place
    split at moves
    · rename_i metadata found
      cases moves
      exact guarded.go place nofun (founded_finish (guarded.index metadata found).listed view)
    · cases moves
      exact guarded.go place nofun trivial
  · rename_i view place
    split at moves
    · rename_i metadata found
      cases moves
      exact guarded.go place nofun (guarded.sidecar metadata found)
    · cases moves
      exact guarded.go place nofun (default view)
  · rename_i view metadata readAt place
    have own := guarded.own place
    split at moves
    · rename_i valid
      cases moves
      exact guarded.go place nofun (guarded.held_of_valid own valid)
    · cases moves
      exact guarded.go place nofun (default view)
  · rename_i view metadata readAt place
    have held : Held world metadata := guarded.own place
    have stays : world.tasks task ≠ .deleteUnlinkingSidecar := by
      simp [place]
    cases moves
    refine guarded.move rfl (fun _ _ _ _ => id) (founded_finish ?_ view)
      (fun document found => ?_) guarded.sidecar guarded.served ⟨rfl, rfl, rfl⟩ stays
    · exact held.listed
    · cases found
      exact held
  · rename_i start place
    split at moves
    all_goals
      cases moves
      exact guarded.go place nofun trivial
  · rename_i start last unbounded place
    have own := guarded.own place
    split at moves
    · cases moves
      exact guarded.go place nofun own
    · cases moves
      exact guarded.go place nofun trivial
  · rename_i start last unbounded place
    have own := guarded.own place
    split at moves
    · rename_i inode found
      cases moves
      refine guarded.go place nofun ⟨guarded.fresh inode found, ?_⟩
      intro offset lower upper
      obtain ⟨current, path, stored⟩ := own offset lower upper
      rw [found] at path
      cases path
      exact stored
    · cases moves
      exact guarded.go place nofun trivial
  · rename_i inode start last unbounded place
    have own := guarded.own place
    simp only at moves
    split at moves
    · cases moves
      exact guarded.go place nofun trivial
    · rename_i inside
      cases moves
      refine guarded.go place nofun ⟨own.1, fun offset lower upper =>
        own.2 offset lower ?_⟩
      cases unbounded with
      | true =>
        have ends : (world.inodes inode).length ≤ last + 1 := by
          simpa only [Undisturbed, place] using undisturbed
        simp only [if_true] at upper
        omega
      | false =>
        simp only [Bool.false_eq_true, if_false] at upper
        omega
  · rename_i inode position last place
    have own := guarded.own place
    have stays : world.tasks task ≠ .deleteUnlinkingSidecar := by
      simp [place]
    split at moves
    · rename_i inside
      cases moves
      refine guarded.move rfl (fun _ _ _ _ => id)
        ⟨own.1, fun offset lower upper => own.2 offset (Nat.le_of_succ_le lower) upper⟩
        guarded.index guarded.sidecar ?_ ⟨rfl, rfl, rfl⟩ stays
      exact List.forall_mem_cons.mpr ⟨own.2 position (Nat.le_refl position) inside, guarded.served⟩
    · cases moves
      exact guarded.go place nofun trivial
  · cases moves

/-- A writer creates the data file.  Nothing was stored before, and no deletion
is between its unlinks, as the writer has the write lock. -/
theorem Guarded.create (guarded : Guarded world) (locked : Locked world) {start : Nat}
    {bytes : Bytes} (place : world.tasks task = .writeOpening start bytes)
    (missing : world.path = none) :
    Guarded { world.resume task (.writing world.nextInode start [] bytes) with
      inodes := Function.update world.inodes world.nextInode .empty
      nextInode := world.nextInode + 1
      path := some world.nextInode } := by
  have own := guarded.own place
  have nowhere (offset : Nat) : ¬world.Stores offset := by
    rintro ⟨inode, path, _⟩
    rw [missing] at path
    cases path
  have whole : ¬world.Torn := by
    rintro ⟨_, deleter, deleting⟩
    have same : deleter = task := locked.write.eq_of_holds
      (by rw [place]; rfl) (by rw [deleting]; rfl)
    rw [same, place] at deleting
    cases deleting
  have grows : Extends world
      { world.resume task (.writing world.nextInode start [] bytes) with
        inodes := Function.update world.inodes world.nextInode .empty
        nextInode := world.nextInode + 1
        path := some world.nextInode } := by
    refine ⟨fun offset stored => absurd stored (nowhere offset),
      fun torn => absurd torn whole, Nat.le_succ _, ?_, ?_⟩
    · intro inode below offset stored
      simp only
      rw [Function.update_of_ne (Nat.ne_of_lt below)]
      exact stored
    · intro inode path
      rw [missing] at path
      cases path
  refine guarded.step rfl (fun _ _ _ _ => id) ⟨rfl, ?_, ?_⟩ guarded.index guarded.sidecar
    guarded.served grows ?_ ?_
  · have fits : start + bytes.length ≤ maxFileOffset := own
    simpa only [List.length_nil, Nat.zero_add] using fits
  · intro offset lower upper
    simp only [List.length_nil] at upper
    omega
  · exact guarded.bounded.create world.nextInode
  · intro inode path
    cases path
    exact Nat.lt_succ_self _

/-- A byte lands in the data file. -/
theorem Guarded.land (guarded : Guarded world) {inode start : Nat} {landed pending : Bytes}
    {byte : UInt8} (place : world.tasks task = .writing inode start landed (byte :: pending)) :
    Guarded { world.resume task (.writing inode start (landed ++ [byte]) pending) with
      inodes := Function.update world.inodes inode
        ((world.inodes inode).write (start + landed.length) [byte]) } := by
  obtain ⟨path, fits, stored⟩ := guarded.own place
  simp only [List.length_cons] at fits
  have grown (other offset : Nat) (found : ((world.inodes other).cell offset).isSome) :
      ((Function.update world.inodes inode ((world.inodes inode).write
        (start + landed.length) [byte]) other).cell offset).isSome := by
    by_cases same : other = inode
    · subst other
      rw [Function.update_self]
      exact SparseFile.cell_write_isSome found _ _
    · rw [Function.update_of_ne same]
      exact found
  have grows : Extends world
      { world.resume task (.writing inode start (landed ++ [byte]) pending)
        with
        inodes := Function.update world.inodes inode
          ((world.inodes inode).write (start + landed.length) [byte]) } := by
    refine ⟨?_, fun torn => ?_, Nat.le_refl _,
      fun other _ offset => grown other offset, fun _ => id⟩
    · rintro offset ⟨current, found, inside⟩
      exact ⟨current, found, grown current offset inside⟩
    · rw [torn.1] at path
      cases path
  refine guarded.step rfl (fun _ _ _ _ => id) ⟨path, ?_, ?_⟩ guarded.index guarded.sidecar
    guarded.served grows ?_ guarded.fresh
  · simp only [List.length_append, List.length_cons, List.length_nil]
    omega
  · intro offset lower upper
    simp only [List.length_append, List.length_cons, List.length_nil] at upper
    by_cases earlier : offset < start + landed.length
    · exact grows.stores offset (stored offset lower earlier)
    · refine ⟨inode, path, ?_⟩
      simp only [Function.update_self]
      exact SparseFile.cell_write_inside_isSome _ (by omega)
        (by simp only [List.length_cons, List.length_nil]; omega)
  · exact guarded.bounded.land inode (by omega) byte

theorem advanceWriter_guarded (guarded : Guarded world) (locked : Locked world)
    (moves : advanceWriter task world (world.tasks task) = some after) :
    Guarded after := by
  unfold advanceWriter at moves
  split at moves
  · rename_i start bytes place
    have own := guarded.own place
    split at moves
    · cases moves
      exact guarded.go place nofun own
    · cases moves
  · rename_i start bytes place
    have own := guarded.own place
    split at moves
    · rename_i inode found
      cases moves
      refine guarded.go place nofun ⟨found, ?_, ?_⟩
      · have fits : start + bytes.length ≤ maxFileOffset := own
        simpa only [List.length_nil, Nat.zero_add] using fits
      · intro offset lower upper
        simp only [List.length_nil] at upper
        omega
    · rename_i missing
      cases moves
      exact guarded.create locked place missing
  · rename_i inode start landed byte pending place
    cases moves
    exact guarded.land place
  · rename_i inode start landed place
    obtain ⟨_, _, stored⟩ := guarded.own place
    split at moves
    · cases moves
      exact guarded.go place nofun trivial
    · rename_i nonempty
      have positive : 0 < landed.length := by
        rw [List.length_pos_iff]
        simpa using nonempty
      cases moves
      exact guarded.go place nofun ⟨Nat.le_add_right _ _,
          fun offset lower upper => stored offset lower (by omega)⟩
  · cases moves

theorem Guarded.applyUpdate {old : Pc} (guarded : Guarded world)
    (place : world.tasks task = old) (stays : old ≠ .deleteUnlinkingSidecar)
    (held : Held world metadata)
    {update : Update} (stored : update.Stored world) (writer : Bool) :
    Guarded (world.applyUpdate key task update writer metadata) := by
  unfold World.applyUpdate
  simp only
  split
  · exact guarded.go place stays (guarded.held_edit held stored)
  · exact guarded.go place stays trivial

theorem advanceUpdate_guarded (guarded : Guarded world) (locked : Locked world)
    (moves : advanceUpdate key task world (world.tasks task) = some after) :
    Guarded after := by
  have default : Held world {} := held_of_completed_eq_nil rfl
  unfold advanceUpdate at moves
  split at moves
  · rename_i update writer place
    have own := guarded.own place
    split at moves
    · cases moves
      exact guarded.go place nofun own
    · cases moves
  · rename_i update writer place
    have own := guarded.own place
    split at moves
    · rename_i metadata found
      cases moves
      exact guarded.applyUpdate place nofun (guarded.index metadata found) own writer
    · cases moves
      exact guarded.go place nofun own
  · rename_i update writer place
    have whole : ¬world.Torn := by
      rintro ⟨_, deleter, deleting⟩
      have same : deleter = task := locked.metadata.eq_of_holds
        (by rw [place]; rfl) (by rw [deleting]; rfl)
      rw [same, place] at deleting
      cases deleting
    have own := guarded.own place
    split at moves
    · rename_i metadata found
      cases moves
      exact guarded.go place nofun
        ⟨own, (guarded.sidecar metadata found).resolve_right whole⟩
    · cases moves
      exact guarded.applyUpdate place nofun default own writer
  · rename_i update writer metadata place
    obtain ⟨stored, listed⟩ := guarded.own place
    split at moves
    · rename_i valid
      cases moves
      exact guarded.applyUpdate place nofun
        (guarded.held_of_valid (Or.inl listed) valid) stored writer
    · cases moves
      exact guarded.applyUpdate place nofun default stored writer
  · rename_i update writer metadata place
    have holds : (world.tasks task).holdsMetadata = true := by
      rw [place]
      rfl
    have stays : world.tasks task ≠ .deleteUnlinkingSidecar := by
      simp [place]
    have held : Held world metadata := guarded.own place
    cases moves
    refine guarded.move rfl ?_ ⟨?_, ?_⟩ guarded.index guarded.sidecar guarded.served
      ⟨rfl, rfl, rfl⟩ stays
    · intro other ne others
      rw [locked.metadata.not_holds_of_ne holds ne] at others
      cases others
    · exact ⟨held.coalesced, held.listed⟩
    · intro document found
      cases found
      rfl
  · rename_i update writer metadata place
    have stays : world.tasks task ≠ .deleteUnlinkingSidecar := by
      simp [place]
    obtain ⟨held, written⟩ := guarded.own place
    split at moves
    · rename_i document found
      have same : document = .metadata metadata := written document found
      cases moves
      refine guarded.move rfl (fun _ _ _ _ absurdly => by cases absurdly)
        ⟨held.coalesced, held.listed⟩ guarded.index (fun other committed => ?_)
        guarded.served ⟨rfl, rfl, rfl⟩ stays
      rw [same] at committed
      cases committed
      exact Or.inl held.listed
    · cases moves
      exact guarded.go place nofun trivial
  · rename_i update writer metadata place
    have stays : world.tasks task ≠ .deleteUnlinkingSidecar := by
      simp [place]
    have held : Held world metadata := guarded.own place
    cases moves
    refine guarded.move rfl (fun _ _ _ _ => id) trivial (fun other inserted => ?_)
      guarded.sidecar guarded.served ⟨rfl, rfl, rfl⟩ stays
    cases inserted
    exact held
  · cases moves

theorem advanceDelete_guarded (guarded : Guarded world)
    (undisturbed : Undisturbed (.advance task) world)
    (moves : advanceDelete task world (world.tasks task) = some after) :
    Guarded after := by
  unfold advanceDelete at moves
  split at moves
  · rename_i place
    split at moves
    · cases moves
      exact guarded.go place nofun trivial
    · cases moves
  · rename_i place
    split at moves
    · cases moves
      exact guarded.go place nofun trivial
    · cases moves
  · rename_i place
    cases moves
    exact guarded.move rfl (fun _ _ _ _ => id) trivial (fun _ absurdly => by cases absurdly)
      guarded.sidecar guarded.served ⟨rfl, rfl, rfl⟩ (by simp [place])
  · rename_i place
    simp only [Undisturbed, place] at undisturbed
    cases moves
    cases found : world.path with
    | none =>
      exact guarded.resume rfl ⟨found.symm, rfl, rfl⟩ ⟨rfl, rfl, rfl, rfl⟩ (by simp [place]) trivial
    | some inode =>
      have unused : world.Unused := undisturbed (by rw [found]; rfl)
      exact guarded.unlink unused rfl (fun _ absurdly => by cases absurdly)
        rfl rfl rfl rfl rfl trivial fun _ _ =>
          Or.inr ⟨rfl, task, Function.update_self ..⟩
  · rename_i place
    simp only [Undisturbed, place] at undisturbed
    cases moves
    exact guarded.unlink undisturbed rfl (fun _ => id) rfl rfl rfl rfl rfl
      trivial (fun _ absurdly => by cases absurdly)
  · cases moves

theorem advanceSweep_guarded (guarded : Guarded world)
    (undisturbed : Undisturbed (.advance task) world)
    (moves : advanceSweep key task world (world.tasks task) = some after) :
    Guarded after := by
  unfold advanceSweep at moves
  split at moves
  · rename_i place
    cases moves
    exact guarded.move rfl (fun _ _ _ _ absurdly => by cases absurdly) trivial guarded.index
      guarded.sidecar guarded.served ⟨rfl, rfl, rfl⟩ (by simp [place])
  · rename_i place
    repeat' split at moves
    all_goals
      cases moves
      exact guarded.go place nofun trivial
  · rename_i metadata place
    split at moves
    all_goals
      cases moves
      exact guarded.go place nofun trivial
  · rename_i again place
    cases moves
    exact guarded.move rfl (fun _ _ _ _ => id) trivial guarded.index
      (fun _ absurdly => by cases absurdly) guarded.served ⟨rfl, rfl, rfl⟩ (by simp [place])
  · rename_i again place
    simp only [Undisturbed, place] at undisturbed
    have next : Founded { world.resume task
        (if again then .sweepUnlinkingData false else .idle) with
        path := none } (if again then .sweepUnlinkingData false else .idle) := by
      cases again <;> trivial
    cases moves
    cases found : world.path with
    | none =>
      exact guarded.resume rfl ⟨found.symm, rfl, rfl⟩ ⟨rfl, rfl, rfl, rfl⟩
        (by simp [place]) (by cases again <;> trivial)
    | some inode =>
      obtain ⟨unused, nothing⟩ := undisturbed (by rw [found]; rfl)
      exact guarded.unlink unused rfl (fun _ absurdly => by cases absurdly)
        rfl rfl rfl rfl rfl next fun metadata listed =>
          Or.inl (listed_of_completed_eq_nil (nothing metadata listed))
  · cases moves

/-- Every undisturbed step keeps the records about the file at the path. -/
theorem act_guarded {action : Action} (guarded : Guarded world) (locked : Locked world)
    (undisturbed : Undisturbed action world) (moves : act key action world = some after) :
    Guarded after := by
  have begins {task : TaskId} {pc : Pc} (started : begin task pc world = some after)
      (founded : Founded world pc) :
      Guarded after := by
    obtain ⟨idle, rfl⟩ := begin_eq_some started
    exact guarded.go idle nofun founded
  cases action with
  | upstreamMeta task => exact begins moves trivial
  | read task start finish =>
    simp only [act] at moves
    split at moves
    · exact begins moves trivial
    · exact begins moves trivial
  | write task start bytes =>
    simp only [act] at moves
    split at moves
    · rename_i fits
      exact begins moves fits
    · cases moves
  | recordUpstreamMeta task declared => exact begins moves trivial
  | delete task => exact begins moves trivial
  | sweepTemporary task => exact begins moves trivial
  | sweep task => exact begins moves trivial
  | evict =>
    cases moves
    have grows : Extends world { world with index := none } :=
      ⟨fun _ => id, id, Nat.le_refl _, fun _ _ _ => id, fun _ => id⟩
    exact ⟨guarded.bounded, guarded.fresh,
      (fun _ found => absurd found.symm (Option.some_ne_none _)),
      guarded.sidecar, fun task => (guarded.tasks task).mono grows fun _ _ => id,
      guarded.served⟩
  | advance task =>
    exact advance_cases moves (advanceReader_guarded guarded undisturbed)
      (advanceWriter_guarded guarded locked)
      (advanceUpdate_guarded guarded locked)
      (advanceDelete_guarded guarded undisturbed)
      (advanceSweep_guarded guarded undisturbed)

end Steps

/-! ## Runs -/

/-- A directory as a process finds it when it starts, whose sidecar, if it is
readable, lists only what is stored in the data file. -/
structure World.Restarted (world : World) : Prop extends world.AtRest where
  fresh : ∀ inode, world.path = some inode → inode < world.nextInode
  sidecar : ∀ metadata, world.sidecar = some (.metadata metadata) → Listed world metadata
  served : world.served = []

theorem World.Restarted.guarded {world : World} (restarted : world.Restarted) :
    Guarded world where
  bounded := restarted.bounded
  fresh := restarted.fresh
  index := by
    rw [restarted.index]
    exact fun _ absurdly => by cases absurdly
  sidecar := fun metadata found => Or.inl (restarted.sidecar metadata found)
  tasks := by
    intro task
    rw [restarted.idle]
    trivial
  served := by
    rw [restarted.served]
    exact fun _ member => by cases member

/-- In every undisturbed run of reads, writes, updates, deletions and
`enumerate`, each byte that a reader was served was stored in the file it had
open. -/
theorem served_isSome_of_undisturbed {key : Key} {start world : World} (restarted : start.Restarted)
    (reached : Reaches (act key) Undisturbed start world) :
    ∀ entry ∈ world.served, entry.2.isSome := by
  have both : Locked world ∧ Guarded world := by
    refine reached.invariant (fun world => Locked world ∧ Guarded world)
      ⟨restarted.locked, restarted.guarded⟩ ?_
    intro action before after holds undisturbed moves
    exact ⟨act_locked holds.1 moves, act_guarded holds.2 holds.1 undisturbed moves⟩
  exact both.2.served

theorem restarted_empty : World.empty.Restarted where
  index := rfl
  idle := fun _ => rfl
  metadataLock := rfl
  writeLock := rfl
  bounded := fun _ => Nat.zero_le _
  fresh := fun _ absurdly => by cases absurdly
  sidecar := fun _ absurdly => by cases absurdly
  served := rfl

/-- A write of two bytes, and a read of them while another read of the same
range is still open. -/
def readBack : List Action :=
  .write 1 0 [7, 8] :: advances 1 11 ++ .read 0 0 1 :: advances 0 5 ++ .read 2 0 1 :: advances 2 7

theorem served_isSome_of_undisturbed_readBack :
    ∃ world : World, world.served = [(1, some 8), (0, some 7), (0, some 7)] ∧
      ∀ entry ∈ world.served, entry.2.isSome := by
  have admits : AdmitsAll (act "asset") Undisturbed readBack World.empty :=
    ⟨trivial, trivial, trivial, trivial, trivial, trivial, trivial, trivial,
      trivial, trivial, trivial, trivial, trivial, trivial, trivial, trivial,
      trivial, trivial, trivial, trivial, trivial, trivial, trivial, trivial,
      trivial, trivial, trivial⟩
  have runs : (runActions (act "asset") readBack World.empty).map
      World.served = some [(1, some 8), (0, some 7), (0, some 7)] := by
    decide +kernel
  obtain ⟨world, reached, served⟩ := exists_reaches_of_runActions admits runs
  exact ⟨world, served, served_isSome_of_undisturbed restarted_empty reached⟩

/-- Between the check of a read and its opening of the file, the key is deleted
and another range is written. -/
def staleOpen : List Action :=
  .write 1 0 [7] :: advances 1 10 ++ .read 0 0 0 :: advances 0 2 ++
    .delete 2 :: advances 2 5 ++ .write 3 5 [9] :: advances 3 3 ++
    advances 0 3

/-- The read is served a hole of the new file. -/
theorem staleOpen_serves_hole :
    ∃ world, Reaches (act "asset") (fun _ _ => True) World.empty world ∧
      world.served = [(0, none)] :=
  exists_reaches_of_runActions (admitsAll_true staleOpen _) (by decide +kernel)

end Interleaving
end VideoProxy
