import VideoProxy.Lib.Tally
import VideoProxy.Lib.Transition
import VideoProxy.Storage.Faults
import VideoProxy.Storage.Lengths
import VideoProxy.Storage.Manager

/-!
# The bookkeeping of the storage manager

The table of cache entries is to cover the disk: every data file has an entry
that is at least as large, and the running total is the sum over the entries.
The engine stores the part of a stream that came before its error, but the
manager enters a write into the table only if it succeeds.
-/

namespace VideoProxy

/-- The length of the data file of a key, or nothing if there is none. -/
def Disk.fileLength (disk : Disk) (key : Key) : Nat :=
  (disk.files.lookup key).elim 0 SparseFile.length

theorem Disk.fileLength_le_iff {disk : Disk} {key : Key} {bound : Nat} :
    disk.fileLength key ≤ bound ↔ DiskStorage.LengthLe key bound disk := by
  unfold Disk.fileLength DiskStorage.LengthLe
  cases disk.files.lookup key with
  | none =>
    refine iff_of_true (Nat.zero_le _) fun _ absurdly => ?_
    cases absurdly
  | some file => simp

namespace Manager

/-- The sum of the disk usage over the entries. -/
def usage (manager : Manager σ) : Nat :=
  tally CacheEntry.diskUsage manager.cacheEntries

/-- The table has an entry for a key that is at least as large as a length. -/
def Covers (manager : Manager σ) (key : Key) (length : Nat) : Prop :=
  ∃ entry, manager.cacheEntries.lookup key = some entry ∧ length ≤ entry.diskUsage

instance (manager : Manager σ) (key : Key) (length : Nat) : Decidable (manager.Covers key length) :=
  decidable_of_iff ((manager.cacheEntries.lookup key).any fun entry => length ≤ entry.diskUsage) (by
      unfold Covers
      cases manager.cacheEntries.lookup key <;> simp)

/-- Every data file is covered by an entry, and the total is the sum over the
entries as long as that is a machine word. -/
structure Accounted (manager : Manager Disk) : Prop where
  covered : ∀ key, 0 < manager.engine.fileLength key →
    manager.Covers key (manager.engine.fileLength key)
  total : manager.usage ≤ u64Max → manager.totalSize = manager.usage

variable {key : Key} {manager : Manager σ}

theorem tallyAt_le_usage (manager : Manager σ) (key : Key) :
    tallyAt CacheEntry.diskUsage manager.cacheEntries key ≤ manager.usage := by
  have erased := tally_erase CacheEntry.diskUsage manager.cacheEntries key
  unfold usage
  omega

theorem Covers.mono {length longer : Nat}
    (covers : manager.Covers key longer) (shorter : length ≤ longer) :
    manager.Covers key length := by
  obtain ⟨entry, found, large⟩ := covers
  exact ⟨entry, found, shorter.trans large⟩

theorem covers_max {left right : Nat} (coversLeft : 0 < left → manager.Covers key left)
    (coversRight : right = 0 ∨ manager.Covers key right) (positive : 0 < max left right) :
    manager.Covers key (max left right) := by
  rcases Nat.le_total left right with shorter | longer
  · rw [Nat.max_eq_right shorter] at positive ⊢
    rcases coversRight with zero | covers
    · omega
    · exact covers
  · rw [Nat.max_eq_left longer] at positive ⊢
    exact coversLeft positive

section RecordWrite

variable (key : Key) (endPos now : Nat) (manager : Manager σ)

/-- The entry of the key gets the larger of its size and the end of the write, and
the total goes up with it. -/
theorem recordWrite_eq :
    ∃ entry total, manager.recordWrite key endPos now = { manager with
        cacheEntries := manager.cacheEntries.insert key entry, totalSize := total } ∧
      entry.lastAccess = now ∧
      entry.diskUsage = max endPos (tallyAt CacheEntry.diskUsage manager.cacheEntries key) ∧
      (tallyAt CacheEntry.diskUsage manager.cacheEntries key ≤ endPos ∧
          total = saturatingAdd (manager.totalSize -
            tallyAt CacheEntry.diskUsage manager.cacheEntries key) endPos ∨
        endPos ≤ tallyAt CacheEntry.diskUsage manager.cacheEntries key ∧
          total = manager.totalSize) := by
  unfold recordWrite
  cases found : manager.cacheEntries.lookup key with
  | none =>
    rw [tallyAt_of_none CacheEntry.diskUsage found]
    exact ⟨_, _, rfl, rfl, (Nat.max_zero _).symm, .inl ⟨Nat.zero_le _, rfl⟩⟩
  | some entry =>
    rw [tallyAt_of_lookup CacheEntry.diskUsage found]
    simp only
    split
    · rename_i longer
      have longer := Nat.le_of_lt longer
      exact ⟨_, _, rfl, rfl, (Nat.max_eq_left longer).symm, .inl ⟨longer, rfl⟩⟩
    · rename_i shorter
      rw [Nat.not_lt] at shorter
      exact ⟨_, _, rfl, rfl, (Nat.max_eq_right shorter).symm, .inr ⟨shorter, rfl⟩⟩

theorem recordWrite_lookup_ne {other : Key} (ne : other ≠ key) :
    (manager.recordWrite key endPos now).cacheEntries.lookup other =
      manager.cacheEntries.lookup other := by
  obtain ⟨entry, total, after_eq, -⟩ := recordWrite_eq key endPos now manager
  rw [after_eq]
  exact AList.lookup_insert_ne ne

/-- The entry of the key has the larger of the old size and the end of the
write. -/
theorem recordWrite_lookup :
    ∃ entry, (manager.recordWrite key endPos now).cacheEntries.lookup key = some entry ∧
      entry.diskUsage = max endPos (tallyAt CacheEntry.diskUsage manager.cacheEntries key) := by
  obtain ⟨entry, total, after_eq, -, usage_eq, -⟩ := recordWrite_eq key endPos now manager
  rw [after_eq]
  exact ⟨entry, AList.lookup_insert _, usage_eq⟩

/-- The sum grows by what the entry grows. -/
theorem recordWrite_usage :
    (manager.recordWrite key endPos now).usage +
        tallyAt CacheEntry.diskUsage manager.cacheEntries key =
      manager.usage + max endPos (tallyAt CacheEntry.diskUsage manager.cacheEntries key) := by
  obtain ⟨entry, total, after_eq, -, usage_eq, -⟩ := recordWrite_eq key endPos now manager
  rw [after_eq, ← usage_eq]
  exact tally_insert CacheEntry.diskUsage manager.cacheEntries key entry

/-- The total is the sum of the entries, up to the largest machine word. -/
def Saturated (manager : Manager σ) : Prop :=
  manager.totalSize = min manager.usage u64Max

variable {key endPos now manager}

/-- The end of a write is a machine word, so a total at the largest machine word
stays there. -/
theorem recordWrite_saturated (saturated : manager.Saturated) (word : endPos ≤ u64Max) :
    (manager.recordWrite key endPos now).Saturated := by
  have grown := recordWrite_usage key endPos now manager
  have bounded := tallyAt_le_usage manager key
  obtain ⟨entry, total, after_eq, -, -, totals⟩ := recordWrite_eq key endPos now manager
  unfold Saturated at saturated ⊢
  generalize (manager.recordWrite key endPos now).usage = after at grown ⊢
  rw [after_eq]
  rcases totals with ⟨longer, rfl⟩ | ⟨shorter, rfl⟩
  · simp only [saturatingAdd]
    omega
  · simp only
    omega

/-- A total that is exact stays so while the sum is a machine word. -/
theorem recordWrite_total (exact_before : manager.totalSize = manager.usage)
    (word : (manager.recordWrite key endPos now).usage ≤ u64Max) :
    (manager.recordWrite key endPos now).totalSize =
      (manager.recordWrite key endPos now).usage := by
  have grown := recordWrite_usage key endPos now manager
  have bounded := tallyAt_le_usage manager key
  have before : manager.Saturated := by
    unfold Saturated
    omega
  have after : (manager.recordWrite key endPos now).Saturated :=
    recordWrite_saturated before (by omega)
  rw [after, Nat.min_eq_left word]

end RecordWrite

theorem forget_total (key : Key) (exact_before : manager.totalSize = manager.usage) :
    (manager.forget key).totalSize = (manager.forget key).usage := by
  unfold forget
  cases found : manager.cacheEntries.lookup key with
  | none => exact exact_before
  | some entry =>
    have erased := tally_erase CacheEntry.diskUsage manager.cacheEntries key
    rw [tallyAt_of_lookup CacheEntry.diskUsage found] at erased
    unfold usage at exact_before ⊢
    simp only
    omega

theorem touch_total (key : Key) (now : Nat) (exact_before : manager.totalSize = manager.usage) :
    (manager.touch key now).totalSize = (manager.touch key now).usage := by
  unfold touch
  cases found : manager.cacheEntries.lookup key with
  | none => exact exact_before
  | some entry =>
    have inserted := tally_insert CacheEntry.diskUsage manager.cacheEntries key
      { entry with lastAccess := now }
    rw [tallyAt_of_lookup CacheEntry.diskUsage found] at inserted
    unfold usage at exact_before ⊢
    simp only at inserted ⊢
    omega

theorem forget_lookup_ne {other : Key} (ne : other ≠ key) (manager : Manager σ) :
    (manager.forget key).cacheEntries.lookup other = manager.cacheEntries.lookup other := by
  unfold forget
  split
  · exact AList.lookup_erase_ne ne
  · rfl

theorem Accounted.of_engine {manager : Manager Disk} (accounted : manager.Accounted) {disk : Disk}
    (covered : ∀ key, 0 < disk.fileLength key → manager.Covers key (disk.fileLength key)) :
    Accounted { manager with engine := disk } :=
  ⟨covered, accounted.total⟩

end Manager

namespace StorageManager

open Faulty DiskStorage

/-! ## Runs -/

/-- A write with the host it runs on, or the deletion of an entry that a cleanup
has chosen. -/
inductive Action
  | write
      (env : Environment)
      (now : Nat)
      (key : Key)
      (stream : ByteStream)
      (range : Nat × Nat)
  | evict (env : Environment) (entry : CacheEntry)

/-- The state that an operation leaves, unless the process is stopped. -/
def proceed : Exit ProxyError α × Manager Disk → Option (Manager Disk)
  | (.stopped, _) => none
  | (_, manager) => some manager

/-- The state after an action. -/
def Action.step (config : StorageConfig) :
    Action → Manager Disk → Option (Manager Disk)
  | .write env now key stream range, manager =>
    proceed (StorageManager.write (engine env config) now key stream range manager)
  | .evict env entry, manager =>
    proceed (StorageManager.evict (engine env config) entry manager)

/-- The writes in question: the file system is calm, and what is written
consists of machine words.  A deletion may fail. -/
def Action.Regular : Action → Prop
  | .write env _ _ stream range =>
    env.Calm ∧ range.2 ≤ openEnded ∧ ∀ chunk, .ok chunk ∈ stream → chunk.length ≤ maxFileOffset
  | .evict _ _ => True

/-- The write accepts its stream to the end and inside the file offsets, or
accepts nothing, or the table covers already what it accepts. -/
def Action.Accountable : Action → Manager Disk → Prop
  | .write _ _ key stream range, manager =>
    (abortFrom range [] stream = none ∧ range.1 + (accepted range stream).length ≤ maxFileOffset) ∨
    accepted range stream = [] ∨
    manager.Covers key (range.1 + (accepted range stream).length)
  | .evict _ _, _ => True

instance (action : Action) (manager : Manager Disk) : Decidable (action.Accountable manager) :=
  match action with
  | .write _ _ _ _ _ => inferInstanceAs (Decidable ((_ ∧ _) ∨ _ ∨ _))
  | .evict _ _ => .isTrue trivial

/-- What the bookkeeping needs of an action in a state. -/
def Action.Admitted (action : Action) (manager : Manager Disk) : Prop :=
  action.Regular ∧ action.Accountable manager ∧ manager.usage ≤ u64Max

variable (config : StorageConfig)

/-- The end of what a write accepts, if it accepts something. -/
def acceptedEnd (range : Nat × Nat) (stream : ByteStream) : Nat :=
  if accepted range stream = [] then 0
  else range.1 + (accepted range stream).length

theorem write_fileLength_le (env : Environment) (key : Key) (stream : ByteStream)
    (range : Nat × Nat) (disk : Disk) :
    (DiskStorage.write env key stream range disk).2.fileLength key ≤
      max (disk.fileLength key) (acceptedEnd range stream) := by
  rw [Disk.fileLength_le_iff]
  have fits : accepted range stream ≠ [] → range.1 + (accepted range stream).length ≤
        max (disk.fileLength key) (acceptedEnd range stream) := by
    intro nonempty
    rw [acceptedEnd, if_neg nonempty]
    exact Nat.le_max_right _ _
  exact (DiskStorage.write_length env fits disk (Disk.fileLength_le_iff.mp (Nat.le_max_left _ _))).1

variable {after : Disk} {key : Key} {env : Environment} {manager : Manager Disk} {now : Nat}
  {range : Nat × Nat} {stream : ByteStream} {entry : CacheEntry}

theorem fileLength_of_frame {other : Key} {before : Disk}
    (frame : DiskStorage.Frame key before after) (ne : other ≠ key) :
    after.fileLength other = before.fileLength other := by
  rw [Disk.fileLength, frame.files other ne, Disk.fileLength]

/-- A write that is not accounted for succeeds or stores nothing new. -/
theorem covers_of_accountable (regular : (Action.write env now key stream range).Regular)
    (accountable : (Action.write env now key stream range).Accountable manager)
    {reason : ProxyError}
    (failed : (DiskStorage.write env key stream range manager.engine).1 = .error reason) :
    acceptedEnd range stream = 0 ∨ manager.Covers key (acceptedEnd range stream) := by
  obtain ⟨calm, word, chunks⟩ := regular
  rcases accountable with ⟨complete, offsets⟩ | nothing | covered
  · cases declared : declaredLength range with
    | error reason =>
      obtain ⟨closed, reversed⟩ := declaredLength_error declared word
      exact Or.inl (if_pos (acceptedFrom_reversed reversed closed stream))
    | ok maximum =>
      obtain ⟨after, succeeded⟩ := write_succeeds calm key
        ⟨word, chunks, offsets⟩ declared complete manager.engine
      rw [succeeded] at failed
      cases failed
  · exact Or.inl (if_pos nothing)
  · by_cases nothing : accepted range stream = []
    · exact Or.inl (if_pos nothing)
    · rw [acceptedEnd, if_neg nothing]
      exact Or.inr covered

theorem write_eq (engine : StorageEngine σ) (now : Nat) (key : Key) (stream : ByteStream)
    (range : Nat × Nat) (manager : Manager σ) :
    StorageManager.write engine now key stream range manager =
      match engine.write key stream range manager.engine with
      | (.ok written, after) =>
        (.ok written, Manager.recordWrite key (saturatingAdd range.1 written)
          now { manager with engine := after })
      | (.error reason, after) =>
        (.error reason, { manager with engine := after })
      | (.stopped, after) => (.stopped, { manager with engine := after }) := by
  unfold StorageManager.write
  rw [bind_apply, onEngine]
  cases ended : engine.write key stream range manager.engine with
  | mk exit after => cases exit <;> rfl

theorem evict_eq (engine : StorageEngine σ) {manager : Manager σ}
    (unused : (manager.cacheEntries.lookup entry.key).any fun current =>
      current.lastAccess = entry.lastAccess) :
    StorageManager.evict engine entry manager =
      match engine.delete entry.key manager.engine with
      | (.ok (), after) =>
        (.ok (), Manager.forget entry.key { manager with engine := after })
      | (.error _, after) => (.ok (), { manager with engine := after })
      | (.stopped, after) => (.stopped, { manager with engine := after }) := by
  unfold StorageManager.evict
  rw [bind_of_ok (gets_apply _ manager), if_pos unused, bind_apply, attempt, onEngine]
  cases ended : engine.delete entry.key manager.engine with
  | mk exit after => cases exit <;> rfl

theorem evict_of_used (engine : StorageEngine σ) {manager : Manager σ}
    (used : ¬(manager.cacheEntries.lookup entry.key).any fun current =>
      current.lastAccess = entry.lastAccess) :
    StorageManager.evict engine entry manager = (.ok (), manager) := by
  unfold StorageManager.evict
  rw [bind_of_ok (gets_apply _ manager), if_neg used]
  rfl

/-- A write that succeeded is entered with the end of what it stored. -/
theorem accounted_recordWrite (accounted : manager.Accounted)
    (word : manager.usage ≤ u64Max) {written : Nat}
    (succeeded : DiskStorage.write env key stream range manager.engine = (.ok written, after))
    (now : Nat) :
    Manager.Accounted (Manager.recordWrite key
      (saturatingAdd range.1 written) now { manager with engine := after }) := by
  have frame := write_keeps env key stream range manager.engine
  have short := write_fileLength_le env key stream range manager.engine
  have stored := (write_length env (fun _ => Nat.le_max_right (manager.engine.fileLength key) _)
    manager.engine (Disk.fileLength_le_iff.mp (Nat.le_max_left _ _))).2 written
    (congrArg Prod.fst succeeded)
  obtain ⟨written_eq, _, offset⟩ := stored
  rw [succeeded] at frame short
  rw [saturatingAdd_of_le (offset.trans (by decide))]
  refine ⟨fun other positive => ?_, Manager.recordWrite_total (accounted.total word)⟩
  rw [Manager.recordWrite_engine] at positive ⊢
  by_cases same : other = key
  · subst same
    obtain ⟨entry, found, usage⟩ := Manager.recordWrite_lookup other
      (range.1 + written) now { manager with engine := after }
    refine ⟨entry, found, short.trans ?_⟩
    rw [usage, Nat.max_comm]
    apply max_le_max
    · unfold acceptedEnd
      split
      · exact Nat.zero_le _
      · rw [written_eq]
    · rcases Nat.eq_zero_or_pos (manager.engine.fileLength other) with
        zero | positive
      · rw [zero]
        exact Nat.zero_le _
      · obtain ⟨old, foundOld, large⟩ := accounted.covered other positive
        rw [tallyAt_of_lookup CacheEntry.diskUsage foundOld]
        exact large
  · rw [fileLength_of_frame frame same] at positive ⊢
    obtain ⟨entry, found, large⟩ := accounted.covered other positive
    exact ⟨entry, (Manager.recordWrite_lookup_ne key _ now _ same).trans found, large⟩

theorem accounted_failedWrite (accounted : manager.Accounted)
    (admitted : (Action.write env now key stream range).Admitted manager) {reason : ProxyError}
    (failed : DiskStorage.write env key stream range manager.engine = (.error reason, after)) :
    Manager.Accounted { manager with engine := after } := by
  have frame := write_keeps env key stream range manager.engine
  have short := write_fileLength_le env key stream range manager.engine
  have covers := covers_of_accountable admitted.1 admitted.2.1 (congrArg Prod.fst failed)
  rw [failed] at frame short
  refine accounted.of_engine fun other positive => ?_
  by_cases same : other = key
  · subst same
    exact (Manager.covers_max (accounted.covered other) covers (positive.trans_le short)).mono short
  · rw [fileLength_of_frame frame same] at positive ⊢
    exact accounted.covered other positive

theorem write_accounted {after : Manager Disk} (accounted : manager.Accounted)
    (admitted : (Action.write env now key stream range).Admitted manager)
    (moves : proceed (StorageManager.write (engine env config) now key stream
      range manager) = some after) :
    after.Accounted := by
  rw [write_eq] at moves
  cases ended : (engine env config).write key stream range manager.engine with
  | mk exit disk =>
    rw [ended] at moves
    cases exit with
    | ok written =>
      cases moves
      exact accounted_recordWrite accounted admitted.2.2 ended now
    | error reason =>
      cases moves
      exact accounted_failedWrite accounted admitted ended
    | stopped => cases moves

theorem accounted_delete (accounted : manager.Accounted) :
    Manager.Accounted
      { manager with engine := (DiskStorage.delete env key manager.engine).2 } := by
  have frame := delete_keeps env key manager.engine
  have short := Disk.fileLength_le_iff.mpr (delete_length env manager.engine
    (Disk.fileLength_le_iff.mp (Nat.le_refl (manager.engine.fileLength key)))).1
  refine accounted.of_engine fun other positive => ?_
  by_cases same : other = key
  · subst same
    exact (accounted.covered other (positive.trans_le short)).mono short
  · rw [fileLength_of_frame frame same] at positive ⊢
    exact accounted.covered other positive

theorem accounted_forget (accounted : manager.Accounted) (word : manager.usage ≤ u64Max)
    (removed : manager.engine.files.lookup key = none) :
    (manager.forget key).Accounted := by
  refine ⟨fun other positive => ?_, fun _ =>
    Manager.forget_total key (accounted.total word)⟩
  rw [Manager.forget_engine] at positive ⊢
  have ne : other ≠ key := by
    rintro rfl
    rw [Disk.fileLength, removed] at positive
    exact Nat.lt_irrefl 0 positive
  obtain ⟨entry, found, large⟩ := accounted.covered other positive
  exact ⟨entry, (Manager.forget_lookup_ne ne manager).trans found, large⟩

theorem evict_accounted {after : Manager Disk}
    (accounted : manager.Accounted) (word : manager.usage ≤ u64Max)
    (moves : proceed (StorageManager.evict (engine env config) entry manager) = some after) :
    after.Accounted := by
  by_cases unused : (manager.cacheEntries.lookup entry.key).any fun current =>
      current.lastAccess = entry.lastAccess
  · rw [evict_eq (engine env config) unused] at moves
    have deleted : Manager.Accounted { manager with
        engine := (DiskStorage.delete env entry.key manager.engine).2 } :=
      accounted_delete accounted
    have removes := @delete_removes env entry.key manager.engine
    cases ended : (engine env config).delete entry.key manager.engine with
    | mk exit disk =>
      have ended_delete : DiskStorage.delete env entry.key manager.engine = (exit, disk) := ended
      rw [ended] at moves
      rw [ended_delete] at deleted removes
      cases exit with
      | ok _ =>
        cases moves
        exact accounted_forget deleted word (removes rfl)
      | error reason =>
        cases moves
        exact deleted
      | stopped => cases moves
  · rw [evict_of_used (engine env config) unused] at moves
    cases moves
    exact accounted

theorem Action.step_accounted {action : Action} {after : Manager Disk}
    (accounted : manager.Accounted) (admitted : action.Admitted manager)
    (moves : action.step config manager = some after) :
    after.Accounted := by
  cases action with
  | write env now key stream range =>
    exact write_accounted config accounted admitted moves
  | evict env entry => exact evict_accounted config accounted admitted.2.2 moves

theorem new_accounted : (Manager.new Disk.empty).Accounted := by
  refine ⟨fun key positive => ?_, fun _ => rfl⟩
  exact absurd positive (Nat.lt_irrefl 0)

/-- In every run whose writes are accountable, the table covers the disk and the
total is the sum of its entries. -/
theorem covers_disk_of_accountable {manager : Manager Disk}
    (reached : Reaches (Action.step config) Action.Admitted (Manager.new Disk.empty) manager) :
    manager.Accounted :=
  reached.invariant Manager.Accounted new_accounted fun _ _ _ accounted admitted moves =>
      Action.step_accounted config accounted admitted moves

/-- A write of three bytes, one that is refused after the first of its bytes,
which are covered by then, and the deletion of the entry of another key that
fails. -/
def countedRun : List Action :=
  [.write .calmHost 7 "asset" [.ok [1, 2, 3]] (0, 2),
    .write .calmHost 8 "asset" [.ok [1], .error (.network "connection reset")] (0, openEnded),
    .write .calmHost 9 "other" [.ok [4]] (5, 5),
    .evict (hostFailingAt 29) ⟨"other", 6, 9⟩]

theorem covers_disk_of_accountable_countedRun :
    ∃ manager, Reaches (Action.step ⟨4⟩) Action.Admitted (Manager.new Disk.empty) manager ∧
      (manager.engine.fileLength "asset", manager.engine.fileLength "other",
        manager.usage) = (3, 6, 9) ∧
      manager.Accounted := by
  have regular : ∀ action ∈ countedRun, action.Regular := by
    simp only [countedRun, List.forall_mem_cons]
    refine ⟨⟨Environment.calmHost_calm, by decide, ?_⟩, ⟨Environment.calmHost_calm, by decide, ?_⟩,
      ⟨Environment.calmHost_calm, by decide, ?_⟩, trivial, by simp⟩
    all_goals
      intro chunk arrived
      simp only [List.mem_cons, List.not_mem_nil, or_false, reduceCtorEq] at arrived
      cases arrived
      decide
  have admits : AdmitsAll (Action.step ⟨4⟩) Action.Admitted countedRun (Manager.new Disk.empty) :=
    AdmitsAll.and (admitsAll_of_forall (fun action mem _ => regular action mem)
      _) (by decide +kernel)
  obtain ⟨manager, reached, seen⟩ := exists_reaches_of_runActions admits
    (show (runActions (Action.step ⟨4⟩) countedRun _).map
      (fun manager => (manager.engine.fileLength "asset",
        manager.engine.fileLength "other", manager.usage)) = some (3, 6, 9) by
      decide +kernel)
  exact ⟨manager, reached, seen, covers_disk_of_accountable ⟨4⟩ reached⟩

/-- A stream that fails after its first byte leaves a file that no entry
covers. -/
theorem failed_write_uncounted :
    let action := Action.write .calmHost 7 "asset"
      [.ok [1], .error (.network "connection reset")] (0, openEnded)
    action.Regular ∧ ∃ manager, action.step ⟨4⟩ (Manager.new Disk.empty) = some manager ∧
        manager.engine.fileLength "asset" = 1 ∧
        manager.cacheEntries.lookup "asset" = none ∧
        ¬manager.Accounted := by
  intro action
  have regular : action.Regular := by
    refine ⟨Environment.calmHost_calm, Nat.le_refl _, fun chunk arrived => ?_⟩
    simp only [List.mem_cons, List.not_mem_nil, or_false, reduceCtorEq] at arrived
    cases arrived
    decide
  have observed : (action.step ⟨4⟩ (Manager.new Disk.empty)).map
      (fun manager => (manager.engine.fileLength "asset",
        manager.cacheEntries.lookup "asset")) = some (1, none) := by
    decide +kernel
  obtain ⟨manager, moves, seen⟩ := Option.map_eq_some_iff.mp observed
  obtain ⟨length, uncounted⟩ := Prod.mk.inj seen
  refine ⟨regular, manager, moves, length, uncounted, fun accounted => ?_⟩
  obtain ⟨entry, found, _⟩ := accounted.covered "asset" (by omega)
  rw [uncounted] at found
  cases found

end StorageManager
end VideoProxy
