import Mathlib.Data.List.Sort
import VideoProxy.Storage.Disk

/-!
# The storage manager

`StorageManager` puts a table of cache entries and a running total over a
storage engine.  Writes enter the table with the end of what they wrote, reads
refresh the time of the last access, and a cleanup deletes the entries that were
not used for longest until the cache is within its limits.  At startup the
entries that the engine finds are merged into the table.

The engine is any set of operations over a state; the disk engine is one.
-/

namespace VideoProxy

/-- `StorageEngine`: the operations of an engine with its own state. -/
structure StorageEngine (σ : Type) where
  write : Key → ByteStream → Nat × Nat → Faulty σ ProxyError Nat
  read : Key → Nat × Nat → Faulty σ ProxyError ByteStream
  getSize : Key → Faulty σ ProxyError (Option Nat)
  checkRange : Key → Nat × Nat → Faulty σ ProxyError Bool
  delete : Key → Faulty σ ProxyError Unit
  recordUpstreamMeta : Key → UpstreamMeta → Faulty σ ProxyError Unit
  upstreamMeta : Key → Faulty σ ProxyError UpstreamMeta
  enumerate : Faulty σ ProxyError (List (Key × Nat))

/-- `DiskStorage` as an engine. -/
def DiskStorage.engine (env : Environment) (config : StorageConfig) : StorageEngine Disk where
  write := DiskStorage.write env
  read := DiskStorage.read env config
  getSize := DiskStorage.getSize env
  checkRange := DiskStorage.checkRange env
  delete := DiskStorage.delete env
  recordUpstreamMeta := DiskStorage.recordUpstreamMeta env
  upstreamMeta := DiskStorage.upstreamMeta env
  enumerate := DiskStorage.enumerate env

/-- The part of `StorageManagerConfig` that bounds the cache. -/
structure StorageManagerConfig where
  maxCacheSize : Nat
  maxFileCount : Nat

/-- `CacheEntry`; times are counted from the epoch. -/
structure CacheEntry where
  key : Key
  diskUsage : Nat
  lastAccess : Nat
  deriving DecidableEq

/-- The state of a `StorageManager`: its engine, `cache_entries` and
`total_size`. -/
structure Manager (σ : Type) where
  engine : σ
  cacheEntries : AList fun _ : Key => CacheEntry
  totalSize : Nat

/-- Operations of the manager. -/
abbrev ManagerM (σ : Type) := Faulty (Manager σ) ProxyError

namespace Manager

/-- `StorageManager::new` over an engine, before the warm-up. -/
def new (engine : σ) : Manager σ where
  engine := engine
  cacheEntries := ∅
  totalSize := 0

/-- The bookkeeping after a write that ended at a position. -/
def recordWrite (key : Key) (endPos now : Nat) (manager : Manager σ) : Manager σ :=
  match manager.cacheEntries.lookup key with
  | some entry =>
    if endPos > entry.diskUsage then
      { manager with
        cacheEntries := manager.cacheEntries.insert key
          { entry with diskUsage := endPos, lastAccess := now }
        totalSize :=
          saturatingAdd (manager.totalSize - entry.diskUsage) endPos }
    else
      { manager with
        cacheEntries := manager.cacheEntries.insert key
          { entry with lastAccess := now } }
  | none =>
    { manager with
      cacheEntries := manager.cacheEntries.insert key
        { key := key, diskUsage := endPos, lastAccess := now }
      totalSize := saturatingAdd manager.totalSize endPos }

/-- The access time of an entry is refreshed. -/
def touch (key : Key) (now : Nat) (manager : Manager σ) : Manager σ :=
  match manager.cacheEntries.lookup key with
  | some entry =>
    { manager with
      cacheEntries := manager.cacheEntries.insert key
        { entry with lastAccess := now } }
  | none => manager

/-- The bookkeeping after an entry was deleted. -/
def forget (key : Key) (manager : Manager σ) : Manager σ :=
  match manager.cacheEntries.lookup key with
  | some removed =>
    { manager with
      cacheEntries := manager.cacheEntries.erase key
      totalSize := manager.totalSize - removed.diskUsage }
  | none => manager

/-- The engine is not changed by the books. -/
@[simp] theorem recordWrite_engine
    (key : Key)
    (endPos now : Nat)
    (manager : Manager σ) :
    (manager.recordWrite key endPos now).engine = manager.engine := by
  unfold recordWrite
  split
  · split <;> rfl
  · rfl

@[simp] theorem touch_engine (key : Key) (now : Nat) (manager : Manager σ) :
    (manager.touch key now).engine = manager.engine := by
  unfold touch
  split <;> rfl

@[simp] theorem forget_engine (key : Key) (manager : Manager σ) :
    (manager.forget key).engine = manager.engine := by
  unfold forget
  split <;> rfl

/-- The loop of `start_index_warm_up` over the enumerated entries, with the size
that was recovered. -/
def mergeEntries :
    List (Key × Nat) → AList (fun _ : Key => CacheEntry) × Nat →
      AList (fun _ : Key => CacheEntry) × Nat
  | [], merged => merged
  | (key, size) :: entries, (table, recovered) =>
    if key ∈ table then mergeEntries entries (table, recovered)
    else
      mergeEntries entries (table.insert key { key := key, diskUsage := size, lastAccess := 0 },
          saturatingAdd recovered size)

/-- The merge of `start_index_warm_up`. -/
def warmUp (entries : List (Key × Nat)) (manager : Manager σ) : Manager σ :=
  let merged := mergeEntries entries (manager.cacheEntries, 0)
  { manager with
    cacheEntries := merged.1
    totalSize := saturatingAdd manager.totalSize merged.2 }

/-- The entries taken for eviction, in the order of their last access, until the
cache would be within its limits. -/
def takeVictims (config : StorageManagerConfig) :
    List CacheEntry → Nat → Nat → List CacheEntry
  | [], _, _ => []
  | entry :: entries, currentTotal, currentCount =>
    if currentTotal ≤ config.maxCacheSize ∧ currentCount ≤ config.maxFileCount then []
    else
      entry :: takeVictims config entries (currentTotal - entry.diskUsage) (currentCount - 1)

/-- The first phase of a cleanup. -/
def victims (config : StorageManagerConfig) (externalSize : Nat)
    (manager : Manager σ) : List CacheEntry :=
  let entries := manager.cacheEntries.entries.map Sigma.snd
  let combinedTotal := saturatingAdd manager.totalSize externalSize
  if (externalSize > config.maxCacheSize ∧ entries.length ≤ config.maxFileCount) ∨
      (combinedTotal ≤ config.maxCacheSize ∧ entries.length ≤ config.maxFileCount) then []
  else
    takeVictims config (entries.mergeSort fun left right => left.lastAccess ≤ right.lastAccess)
      combinedTotal entries.length

end Manager

namespace StorageManager

open Faulty

/-- Run an operation of the engine. -/
def onEngine (operation : Faulty σ ProxyError α) : ManagerM σ α :=
  fun manager =>
    let ended := operation manager.engine
    (ended.1, { manager with engine := ended.2 })

theorem onEngine_of_ok {operation : Faulty σ ProxyError α} {manager : Manager σ} {value : α}
    {after : σ} (ended : operation manager.engine = (.ok value, after)) :
    onEngine operation manager = (.ok value, { manager with engine := after }) := by
  unfold onEngine
  rw [ended]

section Operations

variable (engine : StorageEngine σ)

/-- `StorageManager::write`, at a given time. -/
def write (now : Nat) (key : Key) (stream : ByteStream) (range : Nat × Nat) : ManagerM σ Nat := do
  let bytesWritten ← onEngine (engine.write key stream range)
  update (Manager.recordWrite key (saturatingAdd range.1 bytesWritten) now)
  pure bytesWritten

/-- `StorageManager::read`, at a given time. -/
def read (now : Nat) (key : Key) (range : Nat × Nat) : ManagerM σ ByteStream := do
  update (Manager.touch key now)
  onEngine (engine.read key range)

/-- `StorageManager::get_size`. -/
def getSize (key : Key) : ManagerM σ (Option Nat) := do
  match ← gets fun manager => manager.cacheEntries.lookup key with
  | some entry => pure (some entry.diskUsage)
  | none => onEngine (engine.getSize key)

/-- `StorageManager::check_range`. -/
def checkRange (key : Key) (range : Nat × Nat) : ManagerM σ Bool :=
  onEngine (engine.checkRange key range)

/-- `StorageManager::record_upstream_meta`. -/
def recordUpstreamMeta (key : Key) (upstream : UpstreamMeta) :
    ManagerM σ Unit :=
  onEngine (engine.recordUpstreamMeta key upstream)

/-- `StorageManager::upstream_meta`. -/
def upstreamMeta (key : Key) : ManagerM σ UpstreamMeta :=
  onEngine (engine.upstreamMeta key)

/-- The second phase of a cleanup for one entry taken in the first: it is
deleted unless it was used since, and kept in the table if that fails. -/
def evict (entry : CacheEntry) : ManagerM σ Unit := do
  let current ← gets fun manager => manager.cacheEntries.lookup entry.key
  if current.any fun current => current.lastAccess = entry.lastAccess then
    match ← attempt (onEngine (engine.delete entry.key)) with
    | .ok () => update (Manager.forget entry.key)
    | .error _ => pure ()

/-- The second phase of a cleanup. -/
def evictAll : List CacheEntry → ManagerM σ Unit
  | [] => pure ()
  | entry :: entries => do
      evict engine entry
      evictAll entries

/-- One round of `start_cleanup`, next to an external cache of a given size. -/
def cleanup (config : StorageManagerConfig) (externalSize : Nat) : ManagerM σ Unit := do
  let victims ← gets (Manager.victims config externalSize)
  evictAll engine victims

/-- The task of `start_index_warm_up`, if nothing runs between its two
moments. -/
def startIndexWarmUp : ManagerM σ Unit := do
  match ← attempt (onEngine engine.enumerate) with
  | .error _ => pure ()
  | .ok entries =>
    if entries.isEmpty then pure () else update (Manager.warmUp entries)

end Operations

end StorageManager
end VideoProxy
