import Mathlib.Data.List.Dedup
import VideoProxy.Storage.Accounting

/-!
# Startup next to early writes

The task that `start_index_warm_up` spawns takes the enumerated entries at one
moment and merges them into the table at a later one.  Writes go on before,
between and after.  The merge leaves a key alone that is in the table already,
although its entry may come from a write that ended before the end of the file
that was found.
-/

namespace VideoProxy

namespace Manager

/-- The disk usage in the table for a key. -/
def diskUsage (manager : Manager σ) (key : Key) : Option Nat :=
  (manager.cacheEntries.lookup key).map CacheEntry.diskUsage

theorem tallyAt_eq_diskUsage (manager : Manager σ) (key : Key) :
    tallyAt CacheEntry.diskUsage manager.cacheEntries key = (manager.diskUsage key).getD 0 := by
  unfold tallyAt diskUsage
  cases manager.cacheEntries.lookup key <;> rfl

theorem recordWrite_diskUsage (key : Key) (endPos now : Nat) (manager : Manager σ) :
    (manager.recordWrite key endPos now).diskUsage key =
      max (some endPos) (manager.diskUsage key) := by
  obtain ⟨entry, found, usage⟩ := recordWrite_lookup key endPos now manager
  rw [diskUsage, found, Option.map_some, usage, tallyAt_eq_diskUsage]
  cases manager.diskUsage key with
  | none => exact congrArg some (Nat.max_zero endPos)
  | some old => rfl

theorem recordWrite_diskUsage_ne {key other : Key} (ne : other ≠ key) (endPos now : Nat)
    (manager : Manager σ) :
    (manager.recordWrite key endPos now).diskUsage other = manager.diskUsage other := by
  rw [diskUsage, recordWrite_lookup_ne key endPos now manager ne, diskUsage]

/-! ## The merge -/

/-- The merge adds the entries of the keys that are not in the table. -/
theorem mergeEntries_lookup (entries : List (Key × Nat)) (table : AList fun _ : Key => CacheEntry)
    (recovered : Nat) (key : Key) :
    ((mergeEntries entries (table, recovered)).1.lookup key).map CacheEntry.diskUsage =
      ((table.lookup key).map CacheEntry.diskUsage).or (entries.lookup key) := by
  induction entries generalizing table recovered with
  | nil => exact Option.or_none.symm
  | cons entry entries inductionHypothesis =>
    obtain ⟨other, size⟩ := entry
    unfold mergeEntries
    rw [List.lookup_cons]
    split
    case isTrue present =>
      rw [inductionHypothesis]
      by_cases same : key = other
      · subst same
        obtain ⟨value, found⟩ := Option.isSome_iff_exists.mp (AList.lookup_isSome.mpr present)
        rw [found]
        rfl
      · rw [beq_false_of_ne same]
    case isFalse absent =>
      rw [inductionHypothesis]
      by_cases same : key = other
      · subst same
        rw [AList.lookup_insert, AList.lookup_eq_none.mpr absent, BEq.refl]
        rfl
      · rw [AList.lookup_insert_ne same, beq_false_of_ne same]

/-- The merge counts what it adds, up to the largest machine word. -/
theorem mergeEntries_tally (entries : List (Key × Nat)) (table : AList fun _ : Key => CacheEntry)
    {recovered : Nat} (word : recovered ≤ u64Max) :
    ∃ added, tally CacheEntry.diskUsage (mergeEntries entries (table, recovered)).1 =
        tally CacheEntry.diskUsage table + added ∧
      (mergeEntries entries (table, recovered)).2 = saturatingAdd recovered added := by
  induction entries generalizing table recovered with
  | nil =>
    refine ⟨0, rfl, ?_⟩
    rw [saturatingAdd_of_le word]
    rfl
  | cons entry entries inductionHypothesis =>
    obtain ⟨key, size⟩ := entry
    unfold mergeEntries
    split
    case isTrue present => exact inductionHypothesis table word
    case isFalse absent =>
      obtain ⟨added, total, count⟩ := inductionHypothesis
        (table.insert key ⟨key, size, 0⟩) (saturatingAdd_le recovered size)
      have inserted := tally_insert CacheEntry.diskUsage table key ⟨key, size, 0⟩
      rw [tallyAt_of_none CacheEntry.diskUsage (AList.lookup_eq_none.mpr absent)] at inserted
      refine ⟨size + added, ?_, ?_⟩
      · rw [total]
        simp only at inserted
        omega
      · rw [count]
        unfold saturatingAdd
        omega

theorem warmUp_diskUsage (entries : List (Key × Nat)) (manager : Manager σ) (key : Key) :
    (manager.warmUp entries).diskUsage key = (manager.diskUsage key).or (entries.lookup key) :=
  mergeEntries_lookup entries manager.cacheEntries 0 key

theorem warmUp_saturated (entries : List (Key × Nat)) {manager : Manager σ}
    (saturated : manager.Saturated) :
    (manager.warmUp entries).Saturated := by
  obtain ⟨added, total, count⟩ := mergeEntries_tally entries
    manager.cacheEntries (Nat.zero_le u64Max)
  unfold Saturated warmUp usage at *
  simp only [total, count, saturated, saturatingAdd]
  omega

end Manager

open Faulty DiskStorage

/-- The largest end that a log of writes has for a key. -/
def largestEnd (key : Key) : List (Key × Nat) → Option Nat
  | [] => none
  | (other, endPos) :: log =>
    if other = key then max (some endPos) (largestEnd key log)
    else largestEnd key log

/-- The manager next to its warm-up: the entries once they are enumerated,
whether the task has ended, and the ends of the writes before and after that, the
last one first. -/
structure WarmUp where
  manager : Manager Disk
  found : Option (List (Key × Nat))
  finished : Bool
  early : List (Key × Nat)
  late : List (Key × Nat)

namespace WarmUp

/-- A manager over a directory, before the task runs. -/
def start (disk : Disk) : WarmUp where
  manager := Manager.new disk
  found := none
  finished := false
  early := []
  late := []

/-- A write, or one of the two moments of the task. -/
inductive Action
  | write
      (env : Environment)
      (now : Nat)
      (key : Key)
      (stream : ByteStream)
      (range : Nat × Nat)
  | enumerate (env : Environment)
  | merge

/-- Log the end of a write. -/
def logged (state : WarmUp) (key : Key) (endPos : Nat) : WarmUp :=
  if state.finished then { state with late := (key, endPos) :: state.late }
  else { state with early := (key, endPos) :: state.early }

/-- The state after an action: writes succeed, and the task enumerates once and
then merges, unless it found nothing. -/
def Action.step (config : StorageConfig) : Action → WarmUp → Option WarmUp
  | .write env now key stream range, state =>
    match StorageManager.write (engine env config) now key stream range state.manager with
    | (.ok written, manager) =>
      some { state.logged key (range.1 + written) with manager := manager }
    | _ => none
  | .enumerate env, state =>
    match state.found, StorageManager.onEngine (engine env config).enumerate state.manager with
    | none, (.ok entries, manager) =>
      some { state with
        manager := manager
        found := some entries
        finished := entries.isEmpty }
    | none, (.error _, manager) =>
      some { state with
        manager := manager
        found := some []
        finished := true }
    | _, _ => none
  | .merge, state =>
    match state.found, state.finished with
    | some entries, false =>
      some { state with
        manager := state.manager.warmUp entries
        finished := true }
    | _, _ => none

/-- The size that the enumeration found for a key. -/
def sizeFound (state : WarmUp) (key : Key) : Option Nat :=
  state.found.bind fun entries => entries.lookup key

/-- The end of the file that was found and of all writes. -/
def expected (state : WarmUp) (key : Key) : Option Nat :=
  max (state.sizeFound key) (largestEnd key (state.late ++ state.early))

/-- The keys that were found or written. -/
def keys (state : WarmUp) : List Key :=
  ((state.found.getD [] ++ state.late ++ state.early).map Prod.fst).dedup

/-- The sum of the expected disk usage. -/
def expectedTotal (state : WarmUp) : Nat :=
  (state.keys.map fun key => (state.expected key).getD 0).sum

/-- The bookkeeping of a warm-up before all writes. -/
structure Bookkept (state : WarmUp) : Prop where
  entries : ∀ key, state.manager.diskUsage key = state.expected key
  total : state.manager.totalSize = state.expectedTotal

/-- A key that was written before the merge has a write that ends at the end of
the file that was found, or after it. -/
def EarlyReach (state : WarmUp) : Prop :=
  ∀ key size, state.sizeFound key = some size → largestEnd key state.early ≠ none →
    ∃ endPos, largestEnd key (state.late ++ state.early) = some endPos ∧ size ≤ endPos

theorem max_option_assoc (first second third : Option Nat) :
    max (max first second) third = max first (max second third) := by
  cases first <;> cases second <;> cases third <;> simp [Nat.max_assoc]

theorem max_option_comm (first second : Option Nat) : max first second = max second first := by
  cases first <;> cases second <;> simp [Nat.max_comm]

theorem largestEnd_append (key : Key) (left right : List (Key × Nat)) :
    largestEnd key (left ++ right) = max (largestEnd key left) (largestEnd key right) := by
  induction left with
  | nil => exact Option.max_none_left.symm
  | cons entry left inductionHypothesis =>
    obtain ⟨other, endPos⟩ := entry
    rw [List.cons_append, largestEnd, largestEnd, inductionHypothesis]
    split
    · exact (max_option_assoc _ _ _).symm
    · rfl

/-- What the table of the manager has at any time. -/
structure Tracks (state : WarmUp) : Prop where
  entries : ∀ key, state.manager.diskUsage key =
    if state.finished then
      max (largestEnd key state.late) ((largestEnd key state.early).or (state.sizeFound key))
    else largestEnd key state.early
  notLate : state.finished = false → state.late = []
  enumerated : state.finished = true → state.found ≠ none
  saturated : state.manager.Saturated

variable {state after : WarmUp} {config : StorageConfig} {key : Key}

/-- The two moments of the task make up `start_index_warm_up`. -/
theorem startIndexWarmUp_eq (config : StorageConfig) (env : Environment) {enumerated : WarmUp}
    (moves : (Action.enumerate env).step config state = some enumerated) :
    (StorageManager.startIndexWarmUp (engine env config) state.manager).2 =
      (((Action.merge.step config enumerated).map WarmUp.manager).getD enumerated.manager) := by
  unfold Action.step at moves
  unfold StorageManager.startIndexWarmUp
  rw [bind_apply, attempt]
  cases found : state.found with
  | some entries =>
    simp only [found] at moves
    cases moves
  | none =>
    cases ended : StorageManager.onEngine (engine env config).enumerate state.manager with
    | mk exit manager =>
      simp only [found, ended] at moves
      cases exit with
      | ok entries =>
        cases moves
        cases entries <;> rfl
      | error reason =>
        cases moves
        rfl
      | stopped => cases moves

theorem start_tracks (disk : Disk) : (start disk).Tracks := by
  refine ⟨fun _ => rfl, fun _ => rfl, fun absurdly => ?_, rfl⟩
  cases absurdly

/-- A write that succeeds ends within the file offsets and is entered with its
end. -/
theorem write_ok {env : Environment} {now : Nat}
    {stream : ByteStream} {range : Nat × Nat} {before after : Manager Disk} {written : Nat}
    (succeeded : StorageManager.write (engine env config) now key stream range
      before = (.ok written, after)) :
    range.1 + written ≤ u64Max ∧ ∃ disk, after = Manager.recordWrite key (range.1 + written) now
        { before with engine := disk } := by
  rw [StorageManager.write_eq] at succeeded
  cases ended : (engine env config).write key stream range before.engine with
  | mk exit disk =>
    rw [ended] at succeeded
    cases exit with
    | ok stored =>
      cases succeeded
      obtain ⟨_, _, offset⟩ := (write_length env
        (fun _ => Nat.le_max_right (before.engine.fileLength key) _)
        before.engine (Disk.fileLength_le_iff.mp (Nat.le_max_left _ _))).2
        written (congrArg Prod.fst ended)
      have word : range.1 + written ≤ u64Max := offset.trans (by decide)
      rw [saturatingAdd_of_le word]
      exact ⟨word, disk, rfl⟩
    | error reason => cases succeeded
    | stopped => cases succeeded

theorem diskUsage_recordWrite (key other : Key) (endPos now : Nat) (manager : Manager Disk) :
    (manager.recordWrite key endPos now).diskUsage other =
      if key = other then max (some endPos) (manager.diskUsage other)
      else manager.diskUsage other := by
  split
  case isTrue same =>
    subst same
    exact Manager.recordWrite_diskUsage key endPos now manager
  case isFalse ne =>
    exact Manager.recordWrite_diskUsage_ne (Ne.symm ne) endPos now manager

theorem logged_tracks (tracks : state.Tracks) {endPos : Nat}
    (word : endPos ≤ u64Max) (now : Nat) (disk : Disk) :
    Tracks { state.logged key endPos with
      manager := Manager.recordWrite key endPos now
        { state.manager with engine := disk } } := by
  have saturated : Manager.Saturated (Manager.recordWrite key endPos now
      { state.manager with engine := disk }) :=
    Manager.recordWrite_saturated tracks.saturated word
  have usage (other : Key) := diskUsage_recordWrite key other endPos now
    { state.manager with engine := disk }
  obtain ⟨manager, found, finished, early, late⟩ := state
  cases finished with
  | true =>
    refine ⟨fun other => ?_, fun absurdly => ?_, tracks.enumerated, saturated⟩
    · have before : manager.diskUsage other = max (largestEnd other late)
          ((largestEnd other early).or (found.bind (List.lookup other))) :=
        tracks.entries other
      refine (usage other).trans ?_
      change (if key = other then max (some endPos) (manager.diskUsage other)
        else manager.diskUsage other) =
        max (largestEnd other ((key, endPos) :: late))
          ((largestEnd other early).or (found.bind (List.lookup other)))
      rw [before, largestEnd]
      split
      · exact (max_option_assoc _ _ _).symm
      · rfl
    · cases absurdly
  | false =>
    refine ⟨fun other => ?_, tracks.notLate, fun absurdly => ?_, saturated⟩
    · have before : manager.diskUsage other = largestEnd other early :=
        tracks.entries other
      refine (usage other).trans ?_
      change (if key = other then max (some endPos) (manager.diskUsage other)
        else manager.diskUsage other) =
        largestEnd other ((key, endPos) :: early)
      rw [before, largestEnd]
    · cases absurdly

theorem enumerate_tracks {env : Environment}
    (tracks : state.Tracks) (moves : (Action.enumerate env).step config state = some after) :
    after.Tracks := by
  obtain ⟨manager, found, finished, early, late⟩ := state
  cases found with
  | some entries => cases moves
  | none =>
    cases finished with
    | true => exact (tracks.enumerated rfl rfl).elim
    | false =>
      have before (key : Key) : manager.diskUsage key = largestEnd key early := tracks.entries key
      have late_eq : late = [] := tracks.notLate rfl
      subst late_eq
      -- an empty enumeration ends the task, with nothing to merge
      have empty (disk : Disk) : Tracks
          ⟨{ manager with engine := disk }, some [], true, early, []⟩ := by
        refine ⟨fun key => ?_, fun _ => rfl, fun _ => Option.some_ne_none _, tracks.saturated⟩
        refine (before key).trans ?_
        change _ = max none ((largestEnd key early).or none)
        rw [Option.max_none_left, Option.or_none]
      unfold Action.step StorageManager.onEngine at moves
      cases ended : (engine env config).enumerate manager.engine with
      | mk exit disk =>
        simp only [ended] at moves
        cases exit with
        | ok entries =>
          cases entries with
          | nil =>
            cases moves
            exact empty disk
          | cons entry entries =>
            cases moves
            refine ⟨before, fun _ => rfl, fun absurdly => ?_, tracks.saturated⟩
            cases absurdly
        | error reason =>
          cases moves
          exact empty disk
        | stopped => cases moves

theorem merge_tracks (tracks : state.Tracks) (moves : Action.merge.step config state = some after) :
    after.Tracks := by
  obtain ⟨manager, found, finished, early, late⟩ := state
  cases found with
  | none => cases moves
  | some entries =>
    cases finished with
    | true => cases moves
    | false =>
      cases moves
      have late_eq : late = [] := tracks.notLate rfl
      subst late_eq
      refine ⟨fun key => ?_, fun _ => rfl, fun _ => Option.some_ne_none _,
        Manager.warmUp_saturated entries tracks.saturated⟩
      have before : manager.diskUsage key = largestEnd key early :=
        tracks.entries key
      refine (Manager.warmUp_diskUsage entries manager key).trans ?_
      rw [before]
      exact Option.max_none_left.symm

theorem step_tracks {action : Action}
    (tracks : state.Tracks) (moves : action.step config state = some after) :
    after.Tracks := by
  cases action with
  | write env now key stream range =>
    unfold Action.step at moves
    cases ended : StorageManager.write (engine env config) now key stream range state.manager with
    | mk exit manager =>
      simp only [ended] at moves
      cases exit with
      | ok written =>
        cases moves
        obtain ⟨word, disk, rfl⟩ := write_ok ended
        exact logged_tracks tracks word now disk
      | error reason => cases moves
      | stopped => cases moves
  | enumerate env => exact enumerate_tracks tracks moves
  | merge => exact merge_tracks tracks moves

/-! ## The finished warm-up -/

/-- What the table has after the merge is what is expected, key by key, unless an
early write hid a longer file. -/
theorem merged_eq_iff (early late size : Option Nat) :
    max late (early.or size) = max size (max late early) ↔
      ∀ found, size = some found → early ≠ none →
        ∃ endPos, max late early = some endPos ∧ found ≤ endPos := by
  cases early with
  | none =>
    refine iff_of_true ?_ fun _ _ absurdly => (absurdly rfl).elim
    rw [Option.none_or, Option.max_none_right, max_option_comm]
  | some early =>
    rw [Option.some_or]
    cases size with
    | none =>
      refine iff_of_true ?_ fun _ absurdly => ?_
      · rw [Option.max_none_left]
      · cases absurdly
    | some size =>
      obtain ⟨endPos, endPos_eq⟩ : ∃ endPos, max late (some early) = some endPos := by
        cases late with
        | none => exact ⟨early, rfl⟩
        | some late => exact ⟨max late early, rfl⟩
      rw [endPos_eq, Option.max_some_some, Option.some.injEq]
      constructor
      · intro same found found_eq _
        cases found_eq
        exact ⟨endPos, rfl, by omega⟩
      · intro reach
        obtain ⟨other, same, le⟩ := reach size rfl (Option.some_ne_none _)
        cases same
        omega

theorem entries_iff (tracks : state.Tracks) (finished : state.finished = true) :
    (∀ key, state.manager.diskUsage key = state.expected key) ↔ state.EarlyReach := by
  refine forall_congr' fun key => ?_
  rw [tracks.entries key, if_pos finished, expected, largestEnd_append]
  exact merged_eq_iff _ _ _

theorem mem_of_largestEnd {log : List (Key × Nat)} (written : largestEnd key log ≠ none) :
    key ∈ log.map Prod.fst := by
  induction log with
  | nil => exact (written rfl).elim
  | cons entry log inductionHypothesis =>
    obtain ⟨other, endPos⟩ := entry
    rw [List.map_cons, List.mem_cons]
    by_cases same : other = key
    · exact Or.inl same.symm
    · rw [largestEnd, if_neg same] at written
      exact Or.inr (inductionHypothesis written)

theorem mem_of_lookup {size : Nat} {entries : List (Key × Nat)}
    (found : entries.lookup key = some size) :
    key ∈ entries.map Prod.fst := by
  induction entries with
  | nil => cases found
  | cons entry entries inductionHypothesis =>
    obtain ⟨other, value⟩ := entry
    rw [List.map_cons, List.mem_cons]
    by_cases same : key = other
    · exact Or.inl same
    · rw [List.lookup_cons, beq_false_of_ne same] at found
      exact Or.inr (inductionHypothesis found)

theorem mem_keys_of_expected (known : state.expected key ≠ none) : key ∈ state.keys := by
  rw [keys, List.mem_dedup, List.append_assoc, List.map_append, List.mem_append]
  cases found : state.sizeFound key with
  | none =>
    rw [expected, found, Option.max_none_left] at known
    exact Or.inr (mem_of_largestEnd known)
  | some size =>
    obtain ⟨entries, entries_eq, listed⟩ := Option.bind_eq_some_iff.mp found
    rw [entries_eq]
    exact Or.inl (mem_of_lookup listed)

theorem usage_eq_expectedTotal (entries : ∀ key, state.manager.diskUsage key = state.expected key) :
    state.manager.usage = state.expectedTotal := by
  have listed : ∀ key ∈ state.manager.cacheEntries, key ∈ state.keys := by
    intro key member
    apply mem_keys_of_expected
    rw [← entries key, Manager.diskUsage]
    intro missing
    exact AList.lookup_eq_none.mp (Option.map_eq_none_iff.mp missing) member
  rw [Manager.usage, tally_eq_sum CacheEntry.diskUsage (List.nodup_dedup _) listed, expectedTotal]
  refine congrArg List.sum (List.map_congr_left fun key _ => ?_)
  rw [Manager.tallyAt_eq_diskUsage, entries key]

/-- Once the warm-up has finished, the table and the total are those of a warm-up
before all writes exactly if no write before the merge stopped short of the end
of a file that was found, and the sum is a machine word. -/
theorem bookkept_iff_earlyReach (config : StorageConfig) {disk : Disk} {state : WarmUp}
    (reached : Reaches (Action.step config) (fun _ _ => True) (start disk) state)
    (finished : state.finished = true) :
    state.Bookkept ↔ state.EarlyReach ∧ state.expectedTotal ≤ u64Max := by
  have tracks : state.Tracks := reached.invariant Tracks (start_tracks disk)
    fun _ _ _ tracks _ moves => step_tracks tracks moves
  have saturated := tracks.saturated
  unfold Manager.Saturated at saturated
  constructor
  · rintro ⟨entries, total⟩
    rw [usage_eq_expectedTotal entries] at saturated
    exact ⟨(entries_iff tracks finished).mp entries, by omega⟩
  · rintro ⟨reach, word⟩
    have entries := (entries_iff tracks finished).mpr reach
    rw [usage_eq_expectedTotal entries] at saturated
    exact ⟨entries, by omega⟩

/-- A directory that an earlier process left, with a file of five bytes. -/
def leftDirectory : Disk :=
  (DiskStorage.write .calmHost "asset" [.ok [1, 2, 3, 4, 5]] (0, 4) Disk.empty).2.reopen

/-- A write of the first byte comes between the enumeration and the merge. -/
def shortWrite : List Action :=
  [.enumerate .calmHost, .write .calmHost 7 "asset" [.ok [1]] (0, 0), .merge]

/-- A write of other bytes behind the end comes after it. -/
def longWrite : List Action :=
  shortWrite ++ [.write .calmHost 8 "asset" [.ok [6]] (5, 5)]

/-- The file of five bytes is counted with one. -/
theorem shortWrite_undercounts :
    ∃ state, Reaches (Action.step ⟨4⟩) (fun _ _ => True) (start leftDirectory) state ∧
      (state.finished, state.manager.diskUsage "asset",
        state.manager.totalSize, state.expected "asset") =
        (true, some 1, 1, some 5) :=
  exists_reaches_of_runActions (admitsAll_true shortWrite _) (by decide +kernel)

theorem bookkept_iff_earlyReach_longWrite :
    ∃ state, Reaches (Action.step ⟨4⟩) (fun _ _ => True) (start leftDirectory) state ∧
      (state.finished, state.manager.diskUsage "asset") = (true, some 6) ∧
      (state.Bookkept ↔ state.EarlyReach ∧ state.expectedTotal ≤ u64Max) := by
  obtain ⟨state, reached, seen⟩ := exists_reaches_of_runActions
    (admitsAll_true longWrite (start leftDirectory))
    (show (runActions (Action.step ⟨4⟩) longWrite _).map
      (fun state => (state.finished, state.manager.diskUsage "asset")) =
        some (true, some 6) by decide +kernel)
  exact ⟨state, reached, seen, bookkept_iff_earlyReach ⟨4⟩ reached (Prod.mk.inj seen).1⟩

end WarmUp
end VideoProxy
