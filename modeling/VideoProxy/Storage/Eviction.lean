import VideoProxy.Lib.Mutex
import VideoProxy.Storage.Accounting

/-!
# Cleanup beside reads and writes

Reads and writes of a `StorageManager` run beside the passes of its cleanup.  The
module splits them where they touch what others can see: the lock of the shard of
a key, the table of entries with its total, and the engine.

A pass takes a snapshot of its victims, and deletes them later one by one.  It
holds the lock of the shard and of the table when it compares the time of the last
access with the one in the snapshot, and until the victim is deleted.  The lock of
the table and the one of the total are always taken together, and count as one
here.
-/

namespace VideoProxy
namespace Eviction

open Manager

/-- What has happened to a key. -/
inductive Event
  | snapshot (pass : Nat)
  | read (key : Key)
  | wrote (key : Key)
  | deleted (pass : Nat) (entry : CacheEntry)
  deriving DecidableEq

namespace Event

/-- The event is a use of the key. -/
def Accesses : Event → Key → Prop
  | .read other, key | .wrote other, key => other = key
  | _, _ => False

end Event

/-- Where a call or a pass is: each place is named by what it does next. -/
inductive Place
  | unstarted
  | locking (key : Key) (stream : ByteStream) (range : Nat × Nat)
  | writing (key : Key) (stream : ByteStream) (range : Nat × Nat)
  | recording (key : Key) (endPos : Nat)
  | reading (key : Key) (range : Nat × Nat)
  | sweeping (victims : List CacheEntry)
  | evicting (entry : CacheEntry) (victims : List CacheEntry)
  | deleting (entry : CacheEntry) (victims : List CacheEntry)
  | returned

namespace Place

/-- The key whose shard is locked. -/
def lockedKey : Place → Option Key
  | .writing key _ _ | .recording key _ => some key
  | .evicting entry _ | .deleting entry _ => some entry.key
  | _ => none

/-- The lock of a shard is held. -/
def holdsShard (shard : Key → Nat) (index : Nat) (place : Place) : Bool :=
  place.lockedKey.map shard = some index

/-- The lock of the table is held. -/
def holdsTable : Place → Bool
  | .deleting _ _ => true
  | _ => false

/-- The victims that are still to be deleted. -/
def victims : Place → List CacheEntry
  | .sweeping victims => victims
  | .evicting entry victims | .deleting entry victims => entry :: victims
  | _ => []

end Place

/-- The manager, its locks and what uses it, with the time of the last access and
what has happened so far, the latest first. -/
structure State (σ : Type) where
  manager : Manager σ
  mutation : Nat → Option Nat
  table : Option Nat
  calls : Nat → Place
  clock : Nat
  history : List Event

/-- What can happen next.  The engine may do what it likes each time. -/
inductive Action (σ : Type)
  | write (call : Nat) (key : Key) (stream : ByteStream) (range : Nat × Nat)
  | read (call : Nat) (key : Key) (range : Nat × Nat) (now : Nat)
  | snapshot (call : Nat) (config : StorageManagerConfig) (externalSize : Nat)
  | lock (call : Nat)
  | store (call : Nat) (engine : StorageEngine σ)
  | record (call now : Nat)
  | fetch (call : Nat) (engine : StorageEngine σ)
  | verify (call : Nat)
  | delete (call : Nat) (engine : StorageEngine σ)
  | finish (call : Nat)
  | drop (call : Nat)

/-- The table has the key with this time of the last access. -/
def Unused (manager : Manager σ) (key : Key) (time : Nat) : Prop :=
  (manager.cacheEntries.lookup key).any fun current => current.lastAccess = time

instance (manager : Manager σ) (key : Key) (time : Nat) : Decidable (Unused manager key time) :=
  inferInstanceAs (Decidable (_ = true))

namespace State

/-- Nothing runs yet. -/
def start (manager : Manager σ) (clock : Nat) : State σ where
  manager := manager
  mutation _ := none
  table := none
  calls _ := .unstarted
  clock := clock
  history := []

/-- A call goes on. -/
def move (state : State σ) (call : Nat) (place : Place) : State σ :=
  { state with calls := Function.update state.calls call place }

/-- A call takes or returns the lock of a shard and goes on. -/
def hold (state : State σ) (shard : Nat) (holder : Option Nat) (call : Nat)
    (place : Place) : State σ :=
  { state with
    mutation := Function.update state.mutation shard holder
    calls := Function.update state.calls call place }

/-- The engine has changed. -/
def withEngine (state : State σ) (engine : σ) : State σ :=
  { state with manager := { state.manager with engine } }

/-- A key is used. -/
def access (state : State σ) (manager : Manager σ) (now : Nat) (event : Event) : State σ :=
  { state with manager, clock := now, history := event :: state.history }

/-- One step. -/
def step (shard : Key → Nat) (action : Action σ) (state : State σ) : Option (State σ) :=
  match action with
  | .write call key stream range =>
    match state.calls call with
    | .unstarted => some (state.move call (.locking key stream range))
    | _ => none
  | .read call key range now =>
    match state.calls call, state.table with
    | .unstarted, none =>
      some ((state.access (state.manager.touch key now) now
        (.read key)).move call (.reading key range))
    | _, _ => none
  | .snapshot call config externalSize =>
    match state.calls call, state.table with
    | .unstarted, none =>
      some ({ state with history := .snapshot call :: state.history }.move
        call (.sweeping (state.manager.victims config externalSize)))
    | _, _ => none
  | .lock call =>
    match state.calls call with
    | .locking key stream range =>
      match state.mutation (shard key) with
      | none =>
        some (state.hold (shard key) (some call) call (.writing key stream range))
      | some _ => none
    | .sweeping (entry :: victims) =>
      match state.mutation (shard entry.key) with
      | none =>
        some (state.hold (shard entry.key) (some call) call (.evicting entry victims))
      | some _ => none
    | _ => none
  | .store call engine =>
    match state.calls call with
    | .writing key stream range =>
      match engine.write key stream range state.manager.engine with
      | (.ok written, after) =>
        some ((state.withEngine after).move call (.recording key (saturatingAdd range.1 written)))
      | (.error _, after) =>
        some ((state.withEngine after).hold (shard key) none call .returned)
      | (.stopped, _) => none
    | _ => none
  | .record call now =>
    match state.calls call, state.table with
    | .recording key endPos, none =>
      some ((state.access (state.manager.recordWrite key endPos now) now
        (.wrote key)).hold (shard key) none call .returned)
    | _, _ => none
  | .fetch call engine =>
    match state.calls call with
    | .reading key range =>
      match engine.read key range state.manager.engine with
      | (.stopped, _) => none
      | (_, after) => some ((state.withEngine after).move call .returned)
    | _ => none
  | .verify call =>
    match state.calls call, state.table with
    | .evicting entry victims, none =>
      if Unused state.manager entry.key entry.lastAccess then
        some ({ state with table := some call }.move call (.deleting entry victims))
      else
        some (state.hold (shard entry.key) none call (.sweeping victims))
    | _, _ => none
  | .delete call engine =>
    match state.calls call with
    | .deleting entry victims =>
      let released := { state with table := none }.hold (shard entry.key)
        none call (.sweeping victims)
      match engine.delete entry.key state.manager.engine with
      | (.ok (), after) =>
        some { released with
          manager := forget entry.key
            { state.manager with engine := after }
          history := .deleted call entry :: state.history }
      | (.error _, after) => some (released.withEngine after)
      | (.stopped, _) => none
    | _ => none
  | .finish call =>
    match state.calls call with
    | .sweeping [] => some (state.move call .returned)
    | _ => none
  | .drop call =>
    match state.calls call with
    | .locking _ _ _ => some (state.move call .returned)
    | .reading _ _ => some (state.move call .returned)
    | .writing key _ _ => some (state.hold (shard key) none call .returned)
    | .recording key _ => some (state.hold (shard key) none call .returned)
    | _ => none

end State

open State

/-- The clock gives a later time at each access. -/
def Ticking : Action σ → State σ → Prop
  | .read _ _ _ now, state | .record _ now, state => state.clock < now
  | _, _ => True

instance : (action : Action σ) → (state : State σ) → Decidable (Ticking action state)
  | .read _ _ _ _, _ | .record _ _, _ => inferInstanceAs (Decidable (_ < _))
  | .write _ _ _ _, _ | .snapshot _ _ _, _ | .lock _, _ | .store _ _, _
  | .fetch _ _, _ | .verify _, _ | .delete _ _, _ | .finish _, _ | .drop _, _ =>
    .isTrue trivial

/-! ## Locks -/

/-- The locks are held by the calls that are at a place with them. -/
structure Locked (shard : Key → Nat) (state : State σ) : Prop where
  shards : ∀ index, Mutex.Fits (Place.holdsShard shard index) (state.mutation index) state.calls
  table : Mutex.Fits Place.holdsTable state.table state.calls

section Locks

variable {shard : Key → Nat} {state : State σ} {call : Nat} {old place : Place}
  {key : Key} {mutation : Nat → Option Nat}

theorem start_locked (manager : Manager σ) (clock : Nat) : Locked shard (start manager clock) := by
  refine ⟨fun index task => ?_, fun task => ?_⟩
  · simp [start, Place.holdsShard, Place.lockedKey]
  · simp [start, Place.holdsTable]

/-- A call leaves its place for another one, and takes and returns its locks in
order. -/
structure Turn (shard : Key → Nat) (before after : State σ) (call : Nat) (old place : Place) :
    Prop where
  place_eq : before.calls call = old
  calls_eq : after.calls = Function.update before.calls call place
  shards : ∀ index, Mutex.Handover call (before.mutation index) (after.mutation index)
    (old.holdsShard shard index) (place.holdsShard shard index)
  table : Mutex.Handover call before.table after.table old.holdsTable place.holdsTable

/-- A turn hands over its locks. -/
theorem Turn.locked {before after : State σ} (turn : Turn shard before after call old place)
    (locked : Locked shard before) :
    Locked shard after := by
  obtain ⟨rfl, calls_eq, shards, table⟩ := turn
  refine ⟨fun index => ?_, ?_⟩
  · rw [calls_eq]
    exact (locked.shards index).move (shards index)
  · rw [calls_eq]
    exact locked.table.move table

theorem shards_keep (same : place.lockedKey = old.lockedKey) (index : Nat) :
    Mutex.Handover call (mutation index) (mutation index)
      (old.holdsShard shard index) (place.holdsShard shard index) := by
  rw [Place.holdsShard, Place.holdsShard, same]
  exact Mutex.Handover.keep _

theorem shards_take (free : mutation (shard key) = none) (without : old.lockedKey = none)
    (taken : place.lockedKey = some key) (index : Nat) :
    Mutex.Handover call (mutation index) (Function.update mutation (shard key) (some call) index)
      (old.holdsShard shard index) (place.holdsShard shard index) := by
  rw [Place.holdsShard, Place.holdsShard, without, taken]
  by_cases same : index = shard key
  · simp [same, free, Mutex.Handover]
  · have different : shard key ≠ index := fun equal => same equal.symm
    simp [same, different, Mutex.Handover]

theorem shards_release (taken : old.lockedKey = some key) (without : place.lockedKey = none)
    (index : Nat) :
    Mutex.Handover call (mutation index) (Function.update mutation (shard key) none index)
      (old.holdsShard shard index) (place.holdsShard shard index) := by
  rw [Place.holdsShard, Place.holdsShard, without, taken]
  by_cases same : index = shard key
  · simp [same, Mutex.Handover]
  · have different : shard key ≠ index := fun equal => same equal.symm
    simp [same, different, Mutex.Handover]

theorem Locked.not_deleting (locked : Locked shard state) (free : state.table = none) (call : Nat) :
    (state.calls call).holdsTable = false :=
  locked.table.not_holds_of_free free call

end Locks

/-! ## Effects -/

/-- What a step can do to the locks, the table, the clock and the history. -/
inductive Effect (shard : Key → Nat) (before after : State σ) : Prop
  | kept {call old place}
      (turn : Turn shard before after call old place)
      (fewer : place.victims ⊆ old.victims)
      (chosen : ∀ entry victims, place = .deleting entry victims →
        Unused before.manager entry.key entry.lastAccess)
      (entries_eq : after.manager.cacheEntries = before.manager.cacheEntries)
      (total_eq : after.manager.totalSize = before.manager.totalSize)
      (clock_eq : after.clock = before.clock)
      (history_eq : after.history = before.history)
  | read {call old place} {key : Key} {now : Nat}
      (free : before.table = none)
      (turn : Turn shard before after call old place)
      (idle : place.victims = [])
      (manager_eq : after.manager = before.manager.touch key now)
      (later : before.clock < now)
      (clock_eq : after.clock = now)
      (history_eq : after.history = .read key :: before.history)
  | wrote {call old place} {key : Key} {endPos now : Nat}
      (free : before.table = none)
      (turn : Turn shard before after call old place)
      (idle : place.victims = [])
      (manager_eq : after.manager = before.manager.recordWrite key endPos now)
      (later : before.clock < now)
      (clock_eq : after.clock = now)
      (history_eq : after.history = .wrote key :: before.history)
  | snapshot {call old} {config : StorageManagerConfig} {externalSize : Nat}
      (turn : Turn shard before after call old
        (.sweeping (before.manager.victims config externalSize)))
      (manager_eq : after.manager = before.manager)
      (clock_eq : after.clock = before.clock)
      (history_eq : after.history = .snapshot call :: before.history)
  | deleted {call entry victims} {engine : σ}
      (turn : Turn shard before after call (.deleting entry victims) (.sweeping victims))
      (manager_eq : after.manager = forget entry.key { before.manager with engine })
      (clock_eq : after.clock = before.clock)
      (history_eq : after.history = .deleted call entry :: before.history)

section Effects

variable {shard : Key → Nat} {action : Action σ} {before after : State σ}
  {call : Nat} {old place : Place}

/-- A call goes on and leaves the table alone. -/
theorem Effect.moves (turn : Turn shard before after call old place)
    (fewer : place.victims <:+ old.victims) (released : place.holdsTable = false)
    (entries_eq : after.manager.cacheEntries = before.manager.cacheEntries)
    (total_eq : after.manager.totalSize = before.manager.totalSize)
    (clock_eq : after.clock = before.clock) (history_eq : after.history = before.history) :
    Effect shard before after := by
  refine .kept turn fewer.subset (fun entry victims deleting => ?_) entries_eq total_eq clock_eq
    history_eq
  rw [deleting] at released
  cases released

theorem Effect.locked (effect : Effect shard before after) (locked : Locked shard before) :
    Locked shard after := by
  cases effect with
  | kept turn | read _ turn | wrote _ turn | snapshot turn | deleted turn =>
    exact turn.locked locked

/-- Every step has one of the effects. -/
theorem step_effect (ticking : Ticking action before)
    (moves : step shard action before = some after) :
    Effect shard before after := by
  cases action with
  | write call key stream range =>
    simp only [step] at moves
    split at moves
    · rename_i place_eq
      cases moves
      exact .moves ⟨place_eq, rfl, shards_keep rfl, .keep _⟩ List.nil_suffix rfl rfl rfl rfl rfl
    · cases moves
  | read call key range now =>
    simp only [step] at moves
    split at moves
    · rename_i place_eq free
      cases moves
      exact .read free ⟨place_eq, rfl, shards_keep rfl, .keep _⟩ rfl rfl ticking rfl rfl
    · cases moves
  | snapshot call config externalSize =>
    simp only [step] at moves
    split at moves
    · rename_i place_eq _
      cases moves
      exact .snapshot ⟨place_eq, rfl, shards_keep rfl, .keep _⟩ rfl rfl rfl
    · cases moves
  | lock call =>
    simp only [step] at moves
    split at moves
    · rename_i place_eq
      split at moves
      · rename_i free
        cases moves
        exact .moves ⟨place_eq, rfl, shards_take free rfl rfl, .keep _⟩
          List.nil_suffix rfl rfl rfl rfl rfl
      · cases moves
    · rename_i place_eq
      split at moves
      · rename_i free
        cases moves
        exact .moves ⟨place_eq, rfl, shards_take free rfl rfl, .keep _⟩
          (List.suffix_refl _) rfl rfl rfl rfl rfl
      · cases moves
    · cases moves
  | store call engine =>
    simp only [step] at moves
    split at moves
    · rename_i place_eq
      split at moves
      · cases moves
        exact .moves ⟨place_eq, rfl, shards_keep rfl, .keep _⟩ List.nil_suffix rfl rfl rfl rfl rfl
      · cases moves
        exact .moves ⟨place_eq, rfl, shards_release rfl rfl, .keep _⟩
          List.nil_suffix rfl rfl rfl rfl rfl
      · cases moves
    · cases moves
  | record call now =>
    simp only [step] at moves
    split at moves
    · rename_i place_eq free
      cases moves
      exact .wrote free ⟨place_eq, rfl, shards_release rfl rfl, .keep _⟩ rfl rfl ticking rfl rfl
    · cases moves
  | fetch call engine =>
    simp only [step] at moves
    split at moves
    · rename_i place_eq
      split at moves
      · cases moves
      · cases moves
        exact .moves ⟨place_eq, rfl, shards_keep rfl, .keep _⟩ List.nil_suffix rfl rfl rfl rfl rfl
    · cases moves
  | verify call =>
    simp only [step] at moves
    split at moves
    · rename_i place_eq free
      split at moves
      · rename_i unused
        cases moves
        refine .kept ⟨place_eq, rfl, shards_keep rfl, free, rfl⟩ (List.Subset.refl _)
          (fun other rest same => ?_) rfl rfl rfl rfl
        cases same
        exact unused
      · cases moves
        exact .moves ⟨place_eq, rfl, shards_release rfl rfl, .keep _⟩
          (List.suffix_cons _ _) rfl rfl rfl rfl rfl
    · cases moves
  | delete call engine =>
    simp only [step] at moves
    split at moves
    · rename_i place_eq
      split at moves
      · cases moves
        exact .deleted ⟨place_eq, rfl, shards_release rfl rfl, rfl⟩ rfl rfl rfl
      · cases moves
        exact .moves ⟨place_eq, rfl, shards_release rfl rfl, rfl⟩
          (List.suffix_cons _ _) rfl rfl rfl rfl rfl
      · cases moves
    · cases moves
  | finish call =>
    simp only [step] at moves
    split at moves
    · rename_i place_eq
      cases moves
      exact .moves ⟨place_eq, rfl, shards_keep rfl, .keep _⟩ List.nil_suffix rfl rfl rfl rfl rfl
    · cases moves
  | drop call =>
    simp only [step] at moves
    split at moves
    · rename_i place_eq
      cases moves
      exact .moves ⟨place_eq, rfl, shards_keep rfl, .keep _⟩ List.nil_suffix rfl rfl rfl rfl rfl
    · rename_i place_eq
      cases moves
      exact .moves ⟨place_eq, rfl, shards_keep rfl, .keep _⟩ List.nil_suffix rfl rfl rfl rfl rfl
    · rename_i place_eq
      cases moves
      exact .moves ⟨place_eq, rfl, shards_release rfl rfl, .keep _⟩
        List.nil_suffix rfl rfl rfl rfl rfl
    · rename_i place_eq
      cases moves
      exact .moves ⟨place_eq, rfl, shards_release rfl rfl, .keep _⟩
        List.nil_suffix rfl rfl rfl rfl rfl
    · cases moves

/-- A step keeps the total exact while the sum is a machine word. -/
theorem step_total (ticking : Ticking action before) (moves : step shard action before = some after)
    (exact_before : before.manager.totalSize = before.manager.usage)
    (word : after.manager.usage ≤ u64Max) :
    after.manager.totalSize = after.manager.usage := by
  cases step_effect ticking moves with
  | kept _ _ _ entries_eq total_eq =>
    rw [total_eq, usage, entries_eq]
    exact exact_before
  | read _ _ _ manager_eq =>
    rw [manager_eq]
    exact touch_total _ _ exact_before
  | wrote _ _ _ manager_eq =>
    rw [manager_eq] at word ⊢
    exact recordWrite_total exact_before word
  | snapshot _ manager_eq =>
    rw [manager_eq]
    exact exact_before
  | deleted _ manager_eq =>
    rw [manager_eq]
    exact forget_total _ exact_before

end Effects

/-! ## Times -/

/-- Since the snapshot of the pass, the key was not used. -/
def UnusedSince (pass : Nat) (key : Key) (history : List Event) : Prop :=
  ∃ recent earlier, history = recent ++ .snapshot pass :: earlier ∧
    ∀ event ∈ recent, ¬event.Accesses key

/-- Since it was deleted last, the key was written again. -/
def Rewritten (key : Key) (history : List Event) : Prop :=
  ∀ recent pass entry earlier,
    history = recent ++ .deleted pass entry :: earlier → entry.key = key →
    .wrote key ∈ recent

/-- The entry of the key was made or changed at a time, or is gone, and the other
entries are as they were. -/
structure Rewrites (key : Key) (now : Nat) (before after : Manager σ) : Prop where
  others : ∀ other, other ≠ key → after.cacheEntries.lookup other = before.cacheEntries.lookup other
  latest : ∀ entry, after.cacheEntries.lookup key = some entry → entry.lastAccess = now

section Rewrites

variable {key other : Key} {now time : Nat} {before after : Manager σ}

theorem unused_iff {manager : Manager σ} :
    Unused manager key time ↔ ∃ entry, manager.cacheEntries.lookup key = some entry ∧
        entry.lastAccess = time := by
  unfold Unused
  cases manager.cacheEntries.lookup key <;> simp

/-- What is unused since before a write is another key. -/
theorem Rewrites.unused (rewrites : Rewrites key now before after) (earlier : time < now)
    (unused : Unused after other time) :
    other ≠ key ∧ Unused before other time := by
  obtain ⟨entry, found, rfl⟩ := unused_iff.mp unused
  have different : other ≠ key := by
    rintro rfl
    have latest := rewrites.latest entry found
    omega
  rw [rewrites.others other different] at found
  exact ⟨different, unused_iff.mpr ⟨entry, found, rfl⟩⟩

theorem Rewrites.mem_iff (rewrites : Rewrites key now before after) (different : other ≠ key) :
    other ∈ after.cacheEntries ↔ other ∈ before.cacheEntries := by
  rw [← AList.lookup_isSome, ← AList.lookup_isSome, rewrites.others other different]

theorem recordWrite_rewrites (endPos : Nat) (manager : Manager σ) :
    Rewrites key now manager (manager.recordWrite key endPos now) := by
  refine ⟨fun other different =>
    recordWrite_lookup_ne key endPos now manager different, fun entry found => ?_⟩
  obtain ⟨_, _, after_eq, latest, -⟩ := recordWrite_eq key endPos now manager
  rw [after_eq, AList.lookup_insert] at found
  cases found
  exact latest

theorem touch_rewrites (manager : Manager σ) :
    Rewrites key now manager (manager.touch key now) := by
  unfold touch
  cases found : manager.cacheEntries.lookup key with
  | none =>
    refine ⟨fun _ _ => rfl, fun entry there => ?_⟩
    rw [found] at there
    cases there
  | some old =>
    refine ⟨fun other different => AList.lookup_insert_ne different, fun entry there => ?_⟩
    rw [AList.lookup_insert] at there
    cases there
    rfl

theorem mem_of_mem_touch {manager : Manager σ}
    (there : other ∈ (manager.touch key now).cacheEntries) :
    other ∈ manager.cacheEntries := by
  by_cases same : other = key
  · subst same
    unfold touch at there
    split at there
    · rename_i found
      rw [← AList.lookup_isSome, found]
      rfl
    · exact there
  · exact ((touch_rewrites manager).mem_iff same).mp there

theorem notMem_forget (manager : Manager σ) : key ∉ (manager.forget key).cacheEntries := by
  unfold forget
  split
  · rw [AList.mem_erase]
    simp
  · rename_i absent
    exact AList.lookup_eq_none.mp absent

theorem forget_rewrites (manager : Manager σ) (engine : σ) :
    Rewrites key now manager (forget key { manager with engine }) := by
  refine ⟨fun other different => forget_lookup_ne different _, fun entry there => ?_⟩
  rw [AList.lookup_eq_none.mpr (notMem_forget _)] at there
  cases there

end Rewrites

section History

variable {pass : Nat} {key : Key} {event : Event} {history : List Event}

theorem UnusedSince.cons (unused : UnusedSince pass key history) (other : ¬event.Accesses key) :
    UnusedSince pass key (event :: history) := by
  obtain ⟨recent, earlier, rfl, quiet⟩ := unused
  refine ⟨event :: recent, earlier, rfl, fun happened listed => ?_⟩
  rcases List.mem_cons.mp listed with rfl | listed
  · exact other
  · exact quiet happened listed

theorem unusedSince_snapshot (pass : Nat) (key : Key) (history : List Event) :
    UnusedSince pass key (.snapshot pass :: history) := by
  refine ⟨[], history, rfl, fun event listed => ?_⟩
  cases listed

theorem Rewritten.cons (rewritten : Rewritten key history)
    (other : ∀ pass entry, event = .deleted pass entry → entry.key ≠ key) :
    Rewritten key (event :: history) := by
  intro recent pass entry earlier split same
  cases recent with
  | nil =>
    cases split
    exact absurd same (other pass entry rfl)
  | cons _ recent =>
    cases split
    exact List.mem_cons_of_mem _ (rewritten recent pass entry earlier rfl same)

theorem rewritten_wrote (key : Key) (history : List Event) :
    Rewritten key (.wrote key :: history) := by
  intro recent pass entry earlier split same
  cases recent with
  | nil => cases split
  | cons _ recent =>
    cases split
    exact List.mem_cons_self

end History

theorem mem_takeVictims {config : StorageManagerConfig} {entries : List CacheEntry}
    {currentTotal currentCount : Nat} {victim : CacheEntry}
    (listed : victim ∈ takeVictims config entries currentTotal currentCount) :
    victim ∈ entries := by
  induction entries generalizing currentTotal currentCount with
  | nil => cases listed
  | cons entry entries inductionHypothesis =>
    unfold takeVictims at listed
    split at listed
    · cases listed
    · rcases List.mem_cons.mp listed with rfl | later
      · exact List.mem_cons_self
      · exact List.mem_cons_of_mem entry (inductionHypothesis later)

/-- Only entries of the table are chosen. -/
theorem lookup_of_mem_victims {manager : Manager σ} {config : StorageManagerConfig}
    {externalSize : Nat} {victim : CacheEntry}
    (listed : victim ∈ manager.victims config externalSize) :
    ∃ key, manager.cacheEntries.lookup key = some victim := by
  simp only [Manager.victims] at listed
  split at listed
  · cases listed
  · obtain ⟨⟨key, entry⟩, there, rfl⟩ :=
      List.mem_map.mp (List.mem_mergeSort.mp (mem_takeVictims listed))
    exact ⟨key, AList.mem_lookup_iff.mpr there⟩

/-! ## Ledger -/

/-- A call is right to be at a place: its victims are unused since its snapshot
if the table still has them as they were, which it has while one is deleted. -/
structure Justified (state : State σ) (call : Nat) (place : Place) : Prop where
  pending : ∀ victim ∈ place.victims, victim.lastAccess ≤ state.clock ∧
    (Unused state.manager victim.key victim.lastAccess → UnusedSince call victim.key state.history)
  chosen : ∀ entry victims, place = .deleting entry victims →
    Unused state.manager entry.key entry.lastAccess

/-- The deletion of an entry was right after what had happened. -/
def Lawful (pass : Nat) (entry : CacheEntry) (older : List Event) : Prop :=
  UnusedSince pass entry.key older ∧ Rewritten entry.key older

/-- What the history says of the table and of the calls. -/
structure Ledger (state : State σ) : Prop where
  times : ∀ key entry, state.manager.cacheEntries.lookup key = some entry →
    entry.lastAccess ≤ state.clock
  calls : ∀ call, Justified state call (state.calls call)
  present : ∀ key ∈ state.manager.cacheEntries, Rewritten key state.history
  deletions : ∀ newer pass entry older, state.history = newer ++ .deleted pass entry :: older →
    Lawful pass entry older

section Ledger

variable {shard : Key → Nat} {before after : State σ} {call : Nat} {place : Place}

theorem start_ledger {manager : Manager σ} {clock : Nat}
    (earlier : ∀ key entry, manager.cacheEntries.lookup key = some entry →
      entry.lastAccess ≤ clock) :
    Ledger (start manager clock) := by
  have nothing (newer : List Event) (event : Event) (older : List Event) :
      (start manager clock).history ≠ newer ++ event :: older := by
    simp [start]
  refine ⟨earlier, fun call => ⟨fun victim listed => ?_, fun _ _ deleting => ?_⟩,
    fun key _ newer pass entry older split => absurd split (nothing _ _ _),
    fun newer pass entry older split => absurd split (nothing _ _ _)⟩
  · cases listed
  · cases deleting

/-- One more event keeps the deletions lawful. -/
theorem Ledger.deletions_cons {event : Event} (ledger : Ledger before)
    (history_eq : after.history = event :: before.history)
    (lawful : ∀ pass entry, event = .deleted pass entry → Lawful pass entry before.history)
    (newer : List Event) (pass : Nat) (entry : CacheEntry) (older : List Event)
    (split : after.history = newer ++ .deleted pass entry :: older) :
    Lawful pass entry older := by
  rw [history_eq] at split
  cases newer with
  | nil =>
    injection split with first rest
    subst rest
    exact lawful pass entry first
  | cons _ newer =>
    injection split with _ rest
    exact ledger.deletions newer pass entry older rest

/-- What justifies a deletion outlasts the steps of others. -/
theorem Justified.carry (justified : Justified before call place)
    (clock_le : before.clock ≤ after.clock)
    (carries : ∀ key time, time ≤ before.clock → Unused after.manager key time →
      Unused before.manager key time ∧ ∀ pass, UnusedSince pass key before.history →
          UnusedSince pass key after.history)
    (keeps : place.holdsTable = true → ∀ key time,
      Unused before.manager key time → Unused after.manager key time) :
    Justified after call place := by
  refine ⟨fun victim listed => ?_, fun entry victims deleting => ?_⟩
  · obtain ⟨old, since⟩ := justified.pending victim listed
    refine ⟨old.trans clock_le, fun unused => ?_⟩
    obtain ⟨unusedBefore, unusedSince⟩ := carries victim.key _ old unused
    exact unusedSince call (since unusedBefore)
  · have holds : place.holdsTable = true := by
      rw [deleting]
      rfl
    exact keeps holds entry.key entry.lastAccess (justified.chosen entry victims deleting)

theorem justified_of_idle (idle : place.victims = []) : Justified after call place := by
  refine ⟨fun victim listed => ?_, fun entry victims deleting => ?_⟩
  · rw [idle] at listed
    cases listed
  · rw [deleting] at idle
    cases idle

/-- A key is used while nobody deletes. -/
theorem Ledger.access {key : Key} {now : Nat} {event : Event} (ledger : Ledger before)
    (nobody : ∀ call, (before.calls call).holdsTable = false)
    (calls_eq : after.calls = Function.update before.calls call place) (idle : place.victims = [])
    (rewrites : Rewrites key now before.manager after.manager) (later : before.clock < now)
    (clock_eq : after.clock = now) (history_eq : after.history = event :: before.history)
    (accesses : ∀ other, event.Accesses other → other = key)
    (keeps : ∀ pass entry, event ≠ .deleted pass entry)
    (present : ∀ other ∈ after.manager.cacheEntries,
      other ∈ before.manager.cacheEntries ∨ event = .wrote other) :
    Ledger after := by
  refine ⟨fun other entry found => ?_, ?_, fun other there => ?_,
    ledger.deletions_cons history_eq fun pass entry same =>
      absurd same (keeps pass entry)⟩
  · rw [clock_eq]
    by_cases same : other = key
    · subst same
      exact (rewrites.latest entry found).le
    · rw [rewrites.others other same] at found
      exact (ledger.times other entry found).trans later.le
  · rw [calls_eq, Function.forall_update_iff _ (Justified after)]
    refine ⟨justified_of_idle idle, fun other _ =>
      (ledger.calls other).carry (clock_eq ▸ later.le)
        (fun used time old unused => ?_) fun holds => ?_⟩
    rotate_left
    · rw [nobody other] at holds
      cases holds
    obtain ⟨different, unusedBefore⟩ :=
      rewrites.unused (Nat.lt_of_le_of_lt old later) unused
    refine ⟨unusedBefore, fun pass since => ?_⟩
    rw [history_eq]
    exact since.cons fun accessed => different (accesses used accessed)
  · rw [history_eq]
    rcases present other there with listed | rfl
    · exact (ledger.present other listed).cons fun pass entry same =>
        absurd same (keeps pass entry)
    · exact rewritten_wrote other before.history

/-- Every step keeps the ledger. -/
theorem step_ledger {action : Action σ} (locked : Locked shard before) (ledger : Ledger before)
    (ticking : Ticking action before) (moves : step shard action before = some after) :
    Ledger after := by
  cases step_effect ticking moves with
  | @kept call old place turn fewer chosen entries_eq total_eq clock_eq history_eq =>
    have same (key : Key) (time : Nat) :
        Unused after.manager key time ↔ Unused before.manager key time := by
      rw [Unused, Unused, entries_eq]
    have carried (other : Nat) (place : Place) (justified : Justified before other place) :
        Justified after other place := by
      refine justified.carry clock_eq.ge (fun key time _ unused => ?_)
        fun _ key time => (same key time).mpr
      exact ⟨(same key time).mp unused, fun pass since => history_eq ▸ since⟩
    refine ⟨?_, ?_, ?_, ?_⟩
    · rw [entries_eq, clock_eq]
      exact ledger.times
    · rw [turn.calls_eq, Function.forall_update_iff _ (Justified after)]
      refine ⟨carried call place ⟨fun victim listed => ?_, chosen⟩,
        fun other _ => carried other _ (ledger.calls other)⟩
      have justified := ledger.calls call
      rw [turn.place_eq] at justified
      exact justified.pending victim (fewer listed)
    · rw [entries_eq, history_eq]
      exact ledger.present
    · rw [history_eq]
      exact ledger.deletions
  | read free turn idle manager_eq later clock_eq history_eq =>
    refine ledger.access (locked.not_deleting free) turn.calls_eq idle
      (manager_eq ▸ touch_rewrites before.manager) later clock_eq history_eq
      (fun _ same => same.symm) (fun _ _ same => ?_) (fun other there => .inl ?_)
    · cases same
    · rw [manager_eq] at there
      exact mem_of_mem_touch there
  | @wrote _ _ _ key endPos now free turn idle manager_eq later clock_eq history_eq =>
    have rewrites : Rewrites key now before.manager after.manager :=
      manager_eq ▸ recordWrite_rewrites endPos before.manager
    refine ledger.access (locked.not_deleting free) turn.calls_eq idle rewrites later
      clock_eq history_eq (fun _ same => same.symm) (fun _ _ same => ?_)
      (fun other there => ?_)
    · cases same
    · by_cases same : other = key
      · exact .inr (same ▸ rfl)
      · exact .inl ((rewrites.mem_iff same).mp there)
  | @snapshot call _ _ _ turn manager_eq clock_eq history_eq =>
    refine ⟨?_, ?_, fun key there => ?_, ledger.deletions_cons history_eq fun pass entry same => ?_⟩
    · rw [manager_eq, clock_eq]
      exact ledger.times
    · rw [turn.calls_eq, Function.forall_update_iff _ (Justified after)]
      refine ⟨⟨fun victim listed => ?_, fun _ _ deleting => ?_⟩, fun other _ =>
        (ledger.calls other).carry clock_eq.ge (fun key time _ unused => ?_) ?_⟩
      · obtain ⟨key, found⟩ := lookup_of_mem_victims listed
        rw [clock_eq, history_eq]
        exact ⟨ledger.times key victim found, fun _ =>
          unusedSince_snapshot call victim.key before.history⟩
      · cases deleting
      · rw [manager_eq] at unused
        refine ⟨unused, fun pass since => ?_⟩
        rw [history_eq]
        exact since.cons id
      · rw [manager_eq]
        exact fun _ _ _ => id
    · rw [manager_eq] at there
      rw [history_eq]
      refine (ledger.present key there).cons fun pass entry same => ?_
      cases same
    · cases same
  | @deleted call entry victims engine turn manager_eq clock_eq history_eq =>
    have rewrites (time : Nat) :
        Rewrites entry.key time before.manager after.manager := by
      rw [manager_eq]
      exact forget_rewrites before.manager engine
    have gone : entry.key ∉ after.manager.cacheEntries := by
      rw [manager_eq]
      exact notMem_forget _
    have justified := ledger.calls call
    rw [turn.place_eq] at justified
    have unused := justified.chosen entry victims rfl
    have since := (justified.pending entry List.mem_cons_self).2 unused
    have holds : (before.calls call).holdsTable = true := by
      rw [turn.place_eq]
      rfl
    have different (key : Key) (there : key ∈ after.manager.cacheEntries) :
        key ≠ entry.key := by
      rintro rfl
      exact gone there
    have carried (other : Nat) (place : Place) (justified : Justified before other place)
        (idle : place.holdsTable = false) :
        Justified after other place := by
      refine justified.carry clock_eq.ge (fun key time old unused => ?_) fun holds => ?_
      · have later := (rewrites (time + 1)).unused (Nat.lt_succ_self time) unused
        refine ⟨later.2, fun pass since => ?_⟩
        rw [history_eq]
        exact since.cons id
      · rw [idle] at holds
        cases holds
    refine ⟨fun key other found => ?_, ?_, fun key there => ?_,
      ledger.deletions_cons history_eq fun pass other same => ?_⟩
    · have there : key ∈ after.manager.cacheEntries := by
        rw [← AList.lookup_isSome, found]
        rfl
      rw [(rewrites 0).others key (different key there)] at found
      rw [clock_eq]
      exact ledger.times key other found
    · rw [turn.calls_eq, Function.forall_update_iff _ (Justified after)]
      refine ⟨carried call _ ⟨fun victim listed => ?_, fun _ _ deleting => ?_⟩ rfl,
        fun other ne => carried other _ (ledger.calls other) ?_⟩
      · exact justified.pending victim (List.mem_cons_of_mem entry listed)
      · cases deleting
      · exact locked.table.not_holds_of_ne holds ne
    · have ne := different key there
      rw [history_eq]
      refine (ledger.present key (((rewrites 0).mem_iff ne).mp there)).cons
        fun pass other same => ?_
      cases same
      exact ne.symm
    · cases same
      obtain ⟨_, found, _⟩ := unused_iff.mp unused
      refine ⟨since, ledger.present entry.key ?_⟩
      rw [← AList.lookup_isSome, found]
      rfl

end Ledger

/-! ## Use and deletion -/

/-- The ledger is kept along every run. -/
theorem reached_ledger {shard : Key → Nat} {manager : Manager σ} {clock : Nat} {state : State σ}
    (earlier : ∀ key entry, manager.cacheEntries.lookup key = some entry → entry.lastAccess ≤ clock)
    (reached : Reaches (step shard) Ticking (start manager clock) state) :
    Locked shard state ∧ Ledger state :=
  reached.invariant (fun state => Locked shard state ∧ Ledger state)
    ⟨start_locked manager clock, start_ledger earlier⟩
    fun _ _ _ held ticking moves =>
      ⟨(step_effect ticking moves).locked held.1, step_ledger held.1 held.2 ticking moves⟩

/-- A pass deletes what was not used since its snapshot, and what was written
since it was deleted before; nobody writes a key that is being deleted, and each
step keeps the total exact. -/
theorem deletions_respect_use
    {shard : Key → Nat}
    {manager : Manager σ}
    {clock : Nat}
    {state : State σ}
    (earlier : ∀ key entry, manager.cacheEntries.lookup key = some entry → entry.lastAccess ≤ clock)
    (reached : Reaches (step shard) Ticking (start manager clock) state) :
    (∀ newer pass entry older, state.history = newer ++ .deleted pass entry :: older →
      UnusedSince pass entry.key older ∧ Rewritten entry.key older) ∧
    (∀ call entry victims other, state.calls call = .deleting entry victims →
      other ≠ call → (state.calls other).lockedKey ≠ some entry.key) ∧
    ∀ action after, Ticking action state → step shard action state = some after →
      state.manager.totalSize = state.manager.usage →
      after.manager.usage ≤ u64Max →
      after.manager.totalSize = after.manager.usage := by
  obtain ⟨locked, ledger⟩ := reached_ledger earlier reached
  refine ⟨ledger.deletions, fun call entry victims other deleting ne writes => ?_,
    fun action after ticking moves => step_total ticking moves⟩
  have holds : (state.calls call).holdsShard shard (shard entry.key) = true := by
    simp [Place.holdsShard, deleting, Place.lockedKey]
  have without := (locked.shards (shard entry.key)).not_holds_of_ne holds ne
  simp [Place.holdsShard, writes] at without

/-- An engine that stores nothing and says it did. -/
def carelessEngine : StorageEngine Unit where
  write _ _ _ := pure 5
  read _ _ := pure []
  getSize _ := pure none
  checkRange _ _ := pure false
  delete _ := pure ()
  recordUpstreamMeta _ _ := pure ()
  upstreamMeta _ := Faulty.stop
  enumerate := pure []

/-- A key is written, chosen by a first pass and read before that goes on; a
second pass deletes it. -/
def reread : List (Action Unit) :=
  [.write 0 "a" [] (0, 4), .lock 0, .store 0 carelessEngine, .record 0 1,
    .snapshot 1 ⟨0, 0⟩ 0, .read 3 "a" (0, 4) 2, .lock 1, .verify 1, .finish 1,
    .snapshot 2 ⟨0, 0⟩ 0, .lock 2, .verify 2, .delete 2 carelessEngine]

theorem deletions_respect_use_reread :
    ∃ state : State Unit, Reaches (step fun _ => 0) Ticking (start (Manager.new ()) 0) state ∧
      state.history = [.deleted 2 ⟨"a", 5, 2⟩, .snapshot 2, .read "a", .snapshot 1, .wrote "a"] ∧
      UnusedSince 2 "a" [.snapshot 2, .read "a", .snapshot 1, .wrote "a"] := by
  have admits : AdmitsAll (step fun _ => 0) Ticking reread (start (Manager.new ()) 0) := by
    decide +kernel
  obtain ⟨state, reached, history_eq⟩ := exists_reaches_of_runActions admits
    (show (runActions (step fun _ => 0) reread (start (Manager.new ()) 0)).map State.history =
        some [.deleted 2 ⟨"a", 5, 2⟩, .snapshot 2, .read "a", .snapshot 1,
          .wrote "a"] by decide +kernel)
  have earlier (key : Key) (entry : CacheEntry)
      (found : (Manager.new ()).cacheEntries.lookup key = some entry) :
      entry.lastAccess ≤ 0 := by
    cases found
  exact ⟨state, reached, history_eq,
    ((deletions_respect_use earlier reached).1 [] 2 ⟨"a", 5, 2⟩ _ history_eq).1⟩

end Eviction
end VideoProxy
