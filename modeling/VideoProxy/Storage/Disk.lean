import Mathlib.Data.List.AList
import VideoProxy.Lib.Faulty
import VideoProxy.Lib.SparseFile
import VideoProxy.Storage.Metadata
import VideoProxy.Utils.Range
import VideoProxy.Utils.Stream

/-!
# The disk storage engine

`DiskStorage` keeps one sparse data file and one sidecar document for each cache
key, and an index of parsed documents in memory.  Its operations are
computations over the directory and the index.  Every call to the file system
takes its result from an environment, which may let the call succeed or fail, or
may stop the process before or after the call took effect.

Paths are identified with the keys they are hashed from.
-/

namespace VideoProxy

/-- Contents of a sidecar file. -/
inductive Document
  | metadata (metadata : RangeMetadata)
  | malformed
  deriving DecidableEq

/-- The part of `StorageConfig` that the engine uses. -/
structure StorageConfig where
  chunkSize : Nat

/-- `MAX_INDEXED_KEYS`. -/
def maxIndexedKeys : Nat := 4096

/-- The largest offset a file can have on the hosts the proxy runs on. -/
def maxFileOffset : Nat := 2 ^ 63 - 1

/-- Result of one call to the file system. -/
inductive Outcome
  | success
  | failure (message : String)
  | stop (done : Bool)
  deriving DecidableEq

/-- What the host decides, by the number of calls made before. -/
structure Environment where
  /-- Result of a call. -/
  outcome : Nat → Outcome
  /-- Number of accepted bytes that reached the file by then, when the data has
  not been flushed. -/
  landed : Nat → Nat
  /-- Number of bytes that one read call may return. -/
  granted : Nat → Nat
  /-- Position at which the iteration over the index starts. -/
  victim : Nat → Nat

/-- Every call to the file system succeeds. -/
def Environment.Calm (env : Environment) : Prop :=
  ∀ call, env.outcome call = .success

/-- A calm host that lets nothing land early and reads byte by byte. -/
def Environment.calmHost : Environment where
  outcome := fun _ => .success
  landed := fun _ => 0
  granted := fun _ => 1
  victim := fun _ => 0

theorem Environment.calmHost_calm : Environment.calmHost.Calm :=
  fun _ => rfl

/-- The cache directory, the index in memory and the number of calls made to the
file system. -/
structure Disk where
  files : AList fun _ : Key => SparseFile
  sidecars : AList fun _ : Key => Document
  temporaries : AList fun _ : Key => Document
  index : AList fun _ : Key => RangeMetadata
  clock : Nat

namespace Disk

/-- An empty directory and a new process. -/
def empty : Disk where
  files := ∅
  sidecars := ∅
  temporaries := ∅
  index := ∅
  clock := 0

/-- A new process over the same directory. -/
def reopen (disk : Disk) : Disk :=
  { disk with index := ∅ }

/-- Replace the data file of a key, if it exists. -/
def onFile (key : Key) (change : SparseFile → SparseFile) (disk : Disk) : Disk :=
  match disk.files.lookup key with
  | some file => { disk with files := disk.files.insert key (change file) }
  | none => disk

end Disk

/-- Operations of the storage engine. -/
abbrev DiskM := Faulty Disk ProxyError

namespace DiskStorage

open Faulty

/-! ## Calls to the file system -/

/-- A call with its effect when it is done and when it is not. -/
def fsCall (env : Environment) (done broken : Disk → Disk) : DiskM Unit :=
  fun disk =>
    let ticked := { disk with clock := disk.clock + 1 }
    match env.outcome disk.clock with
    | .success => (.ok (), done ticked)
    | .failure message => (.error (.io message), broken ticked)
    | .stop true => (.stopped, done ticked)
    | .stop false => (.stopped, broken ticked)

/-- A call that only reads, with its error dropped by `.ok()`. -/
def fsQuery (env : Environment) (view : Disk → α) : DiskM (Option α) :=
  fun disk =>
    let ticked := { disk with clock := disk.clock + 1 }
    match env.outcome disk.clock with
    | .success => (.ok (some (view disk)), ticked)
    | .failure _ => (.ok none, ticked)
    | .stop _ => (.stopped, ticked)

/-- `ensure_dir_exists`: `create_dir_all` of the parent directory. -/
def ensureDirExists (env : Environment) : DiskM Unit :=
  fsCall env id id

/-- The data file is opened for writing and created if it is missing. -/
def openFile (env : Environment) (key : Key) : DiskM Unit :=
  fsCall env (fun disk =>
      match disk.files.lookup key with
      | some _ => disk
      | none => { disk with files := disk.files.insert key .empty })
    id

/-- `seek` to a position from the start of the file. -/
def seek (env : Environment) (position : Nat) : DiskM Unit := do
  fsCall env id id
  if position > maxFileOffset then
    fail (.io "Invalid argument (os error 22)")

/-- The accepted bytes that have reached the file before it is flushed. -/
def landPart (env : Environment) (key : Key) (start : Nat) (received : Bytes)
    (disk : Disk) : Disk :=
  let count := min (env.landed disk.clock) (maxFileOffset - start)
  disk.onFile key fun file => file.write start (received.take count)

/-- `BufWriter::write_all` of a chunk, where `received` are all the bytes
accepted so far with the chunk at their end. -/
def writeAll (env : Environment) (key : Key) (start : Nat) (received : Bytes) : DiskM Unit := do
  fsCall env (landPart env key start received) (landPart env key start received)
  if start + received.length > maxFileOffset then
    fail (.io "File too large (os error 27)")

/-- `BufWriter::flush`: everything accepted reaches the file. -/
def flush (env : Environment) (key : Key) (start : Nat) (received : Bytes) : DiskM Unit :=
  fsCall env (fun disk => disk.onFile key fun file => file.write start received)
    (landPart env key start received)

/-- `sync_data`. -/
def syncData (env : Environment) : DiskM Unit :=
  fsCall env id id

/-! ## The metadata of a key -/

/-- `data_file_size`. -/
def dataFileSize (env : Environment) (key : Key) : DiskM (Option Nat) := do
  let size ← fsQuery env fun disk =>
    (disk.files.lookup key).map SparseFile.length
  pure size.join

/-- `load_metadata`. -/
def loadMetadata (env : Environment) (key : Key) : DiskM (Option RangeMetadata) := do
  match ← fsQuery env fun disk => disk.sidecars.lookup key with
  | some (some (.metadata metadata)) =>
    let fileSize ← dataFileSize env key
    pure (if metadataIsValid metadata key fileSize then some metadata
      else none)
  | _ => pure none

/-- `index_insert`: a full index first drops the entry its iteration starts
with. -/
def indexInsert (env : Environment) (key : Key) (metadata : RangeMetadata) (disk : Disk) : Disk :=
  let keys := disk.index.keys
  let kept :=
    if keys.length ≥ maxIndexedKeys ∧ key ∉ disk.index then
      match keys[env.victim disk.clock % keys.length]? with
      | some victim => disk.index.erase victim
      | none => disk.index
    else disk.index
  { disk with index := kept.insert key metadata }

/-- `with_metadata`. -/
def withMetadata (env : Environment) (key : Key) (view : RangeMetadata → α) : DiskM α := do
  match ← gets fun disk => disk.index.lookup key with
  | some metadata => pure (view metadata)
  | none =>
    match ← loadMetadata env key with
    | none => pure (view {})
    | some metadata =>
      update (indexInsert env key metadata)
      pure (view metadata)

/-- Remove the temporary sidecar and ignore the result. -/
def dropTemporary (env : Environment) (key : Key) : DiskM Unit :=
  ignore (fsCall env (fun disk => { disk with temporaries := disk.temporaries.erase key }) id)

/-- `fs::write` of the serialised metadata to the temporary sidecar. -/
def writeTemporary (env : Environment) (key : Key) (metadata : RangeMetadata) : DiskM Unit :=
  fsCall env (fun disk => { disk with
      temporaries := disk.temporaries.insert key (.metadata metadata) })
    (fun disk => { disk with
      temporaries := disk.temporaries.insert key .malformed })

/-- `rename` of the temporary sidecar over the sidecar. -/
def renameTemporary (env : Environment) (key : Key) : DiskM Unit :=
  fsCall env (fun disk =>
      match disk.temporaries.lookup key with
      | some document =>
        { disk with
          sidecars := disk.sidecars.insert key document
          temporaries := disk.temporaries.erase key }
      | none => disk)
    id

/-- `write_metadata`. -/
def writeMetadata (env : Environment) (key : Key) (metadata : RangeMetadata) : DiskM Unit := do
  ensureDirExists env
  match ← attempt (writeTemporary env key metadata) with
  | .error reason =>
    dropTemporary env key
    fail reason
  | .ok () =>
    match ← attempt (renameTemporary env key) with
    | .error reason =>
      dropTemporary env key
      fail reason
    | .ok () => pure ()

/-- The metadata that an update starts from: the index entry, or else the
sidecar, or else the default. -/
def currentMetadata (env : Environment) (key : Key) : DiskM RangeMetadata := do
  match ← gets fun disk => disk.index.lookup key with
  | some cached => pure cached
  | none =>
    let loaded ← loadMetadata env key
    pure (loaded.getD {})

/-- `update_metadata`: the index follows the disk. -/
def updateMetadata (env : Environment) (key : Key)
    (edit : RangeMetadata → RangeMetadata × Bool) : DiskM Unit := do
  let metadata ← currentMetadata env key
  let edited := edit metadata
  if edited.2 then
    let stamped := stamp key edited.1
    writeMetadata env key stamped
    update (indexInsert env key stamped)

/-- `record_completed_range`. -/
def recordCompletedRange (env : Environment) (key : Key) (start finish : Nat) : DiskM Unit :=
  updateMetadata env key (completedEdit start finish)

/-! ## Writing -/

/-- State of the write loop when it ends: the accepted bytes, the reason for
which it was left early, and whether the accepted bytes may be recorded. -/
structure Reception where
  received : Bytes
  failure : Option ProxyError
  recordable : Bool

/-- The write loop over the items of the upstream stream. -/
def receive (env : Environment) (key : Key) (start : Nat)
    (maxLength : Option Nat) : Bytes → ByteStream → DiskM Reception
  | received, [] => pure ⟨received, none, true⟩
  | received, .error reason :: _ => pure ⟨received, some reason, true⟩
  | received, .ok chunk :: rest =>
    match checkedAdd received.length chunk.length with
    | none => pure ⟨received, some (.storage "写入字节数溢出"), false⟩
    | some nextWritten =>
      if maxLength.any fun maximum => nextWritten > maximum then
        pure ⟨received, some (.storage "上游响应体超过请求的缓存范围"), true⟩
      else do
        match ← attempt (writeAll env key start (received ++ chunk)) with
        | .error reason => pure ⟨received, some reason, false⟩
        | .ok () => receive env key start maxLength (received ++ chunk) rest

/-- Flush, sync and record the accepted bytes.  A failure to flush or sync is
returned, and then nothing is recorded. -/
def persist (env : Environment) (key : Key) (start : Nat)
    (received : Bytes) : DiskM (Option ProxyError) := do
  match ← attempt (do flush env key start received; syncData env) with
  | .error reason => pure (some reason)
  | .ok () =>
    match checkedAdd start (received.length - 1) with
    | none => fail (.storage "写入范围溢出")
    | some finish =>
      recordCompletedRange env key start finish
      pure none

/-- What follows the write loop: a nonempty part that may be recorded is
persisted, anything else is dropped with the writer. -/
def settle (env : Environment) (key : Key) (start : Nat)
    (reception : Reception) : DiskM (Option ProxyError) :=
  if 0 < reception.received.length ∧ reception.recordable then
    persist env key start reception.received
  else pure none

/-- The number of bytes that the declared range of a write allows. -/
def declaredLength (range : Nat × Nat) : Except ProxyError (Option Nat) :=
  if range.2 = openEnded then .ok none
  else (rangeLength range.1 range.2).map some

/-- `DiskStorage::write`. -/
def write (env : Environment) (key : Key) (stream : ByteStream)
    (range : Nat × Nat) : DiskM Nat := do
  let maxLength ← ofExcept (declaredLength range)
  ensureDirExists env
  openFile env key
  seek env range.1
  let reception ← receive env key range.1 maxLength [] stream
  let syncFailure ← settle env key range.1 reception
  match reception.failure.or syncFailure with
  | some reason => fail reason
  | none => pure reception.received.length

/-! ## Reading -/

/-- The last position that a check is about: for an open end, the one the known
total or else the file length gives. -/
def requestedEnd (env : Environment) (key : Key) (range : Nat × Nat) : DiskM (Option Nat) := do
  if range.2 = openEnded then
    match ← withMetadata env key RangeMetadata.totalSize with
    | some total => pure (checkedSub total 1)
    | none =>
      let size ← dataFileSize env key
      pure (size.bind fun size => checkedSub size 1)
  else pure (some range.2)

/-- `DiskStorage::check_range`. -/
def checkRange (env : Environment) (key : Key) (range : Nat × Nat) : DiskM Bool := do
  match ← requestedEnd env key range with
  | none => pure false
  | some requestedEnd =>
    let covered ← withMetadata env key fun metadata =>
      metadata.completed.any fun completed =>
        completed.1 ≤ range.1 && requestedEnd ≤ completed.2
    if covered then
      let size ← dataFileSize env key
      pure size.isSome
    else pure false

/-- The chunks of the stream that `read` returns, from the position reached so
far; the fuel bounds the number of bytes still to be read. -/
def readChunks (env : Environment) (config : StorageConfig) (file : SparseFile)
    (start totalBytes : Nat) : Nat → Nat → DiskM ByteStream
  | 0, _ => pure []
  | fuel + 1, bytesRead =>
    if bytesRead ≥ totalBytes then pure []
    else do
      let toRead := min config.chunkSize (totalBytes - bytesRead)
      let grant ← gets fun disk => max 1 (env.granted disk.clock)
      match ← attempt (fsCall env id id) with
      | .error reason => pure [.error reason]
      | .ok () =>
        let chunk := (file.read (start + bytesRead) toRead).take grant
        if chunk.isEmpty then
          pure [.error (.storage s!"缓存文件意外截断: 已读 {bytesRead}/{totalBytes} 字节")]
        else do
          let rest ← readChunks env config file start totalBytes fuel (bytesRead + chunk.length)
          pure (.ok chunk :: rest)

/-- The stream over an open data file. -/
def readFile (env : Environment) (config : StorageConfig) (file : SparseFile)
    (range : Nat × Nat) : DiskM ByteStream := do
  -- `File::metadata`, for the length.
  fsCall env id id
  if range.1 ≥ file.length then
    fail (.storage "请求范围超出文件大小")
  else do
    let lastByte := file.length - 1
    let finish :=
      if range.2 = openEnded then lastByte else min range.2 lastByte
    let totalBytes ← ofExcept (rangeLength range.1 finish)
    seek env range.1
    readChunks env config file range.1 totalBytes totalBytes 0

/-- The part of `read` after its check: open the data file and stream it. -/
def openAndRead (env : Environment) (config : StorageConfig) (key : Key)
    (range : Nat × Nat) : DiskM ByteStream := do
  fsCall env id id
  match ← gets fun disk => disk.files.lookup key with
  | none => fail (.io "No such file or directory (os error 2)")
  | some file => readFile env config file range

/-- `DiskStorage::read`, with its stream read to the end. -/
def read (env : Environment) (config : StorageConfig) (key : Key)
    (range : Nat × Nat) : DiskM ByteStream := do
  if ← checkRange env key range then openAndRead env config key range
  else fail (.storage "请求范围尚未完整缓存")

/-- `DiskStorage::get_size`. -/
def getSize (env : Environment) (key : Key) : DiskM (Option Nat) :=
  dataFileSize env key

/-! ## Upstream metadata and deletion -/

/-- `DiskStorage::record_upstream_meta`. -/
def recordUpstreamMeta (env : Environment) (key : Key) (upstream : UpstreamMeta) : DiskM Unit :=
  if upstream.totalSize.isNone ∧ upstream.contentType.isNone then pure ()
  else updateMetadata env key (upstreamEdit upstream)

/-- `DiskStorage::upstream_meta`. -/
def upstreamMeta (env : Environment) (key : Key) : DiskM UpstreamMeta :=
  withMetadata env key fun metadata =>
    { totalSize := metadata.totalSize, contentType := metadata.contentType }

/-- `remove_file` of the data file; a missing file is no error. -/
def removeData (env : Environment) (key : Key) : DiskM Unit :=
  fsCall env (fun disk => { disk with files := disk.files.erase key }) id

/-- `remove_file` of the sidecar; a missing file is no error. -/
def removeSidecar (env : Environment) (key : Key) : DiskM Unit :=
  fsCall env (fun disk => { disk with sidecars := disk.sidecars.erase key }) id

/-- `DiskStorage::delete`. -/
def delete (env : Environment) (key : Key) : DiskM Unit := do
  update fun disk => { disk with index := disk.index.erase key }
  removeData env key
  removeSidecar env key

/-! ## Enumeration at startup -/

/-- `remove_cache_pair`: the sidecar and the data file next to it. -/
def removeCachePair (env : Environment) (path : Key) : DiskM Unit := do
  ignore (removeSidecar env path)
  ignore (removeData env path)

/-- What `enumerate` does with one sidecar. -/
def enumerateSidecar (env : Environment) (path : Key) : DiskM (Option (Key × Nat)) := do
  match ← fsQuery env fun disk => disk.sidecars.lookup path with
  | some (some (.metadata metadata)) =>
    match metadata.key with
    | none =>
      removeCachePair env path
      pure none
    | some key =>
      let fileSize ← dataFileSize env key
      let validPath := path = key
      let valid := fileSize.any fun size =>
        decide validPath && metadataIsValid metadata key (some size)
      if valid then pure (some (key, fileSize.getD 0))
      else do
        removeCachePair env path
        if validPath then ignore (removeData env key)
        pure none
  | _ =>
    removeCachePair env path
    pure none

/-- The sidecars that `enumerate` meets, one after the other. -/
def enumerateSidecars (env : Environment) : List Key → DiskM (List (Key × Nat))
  | [] => pure []
  | path :: paths => do
      -- `next_entry` of the directory
      fsCall env id id
      let entry ← enumerateSidecar env path
      let entries ← enumerateSidecars env paths
      pure (entry.toList ++ entries)

/-- The temporary sidecars that `enumerate` meets are removed. -/
def dropTemporaries (env : Environment) : List Key → DiskM Unit
  | [] => pure ()
  | path :: paths => do
      fsCall env id id
      dropTemporary env path
      dropTemporaries env paths

/-- `DiskStorage::enumerate`, over the directory as it is listed. -/
def enumerate (env : Environment) : DiskM (List (Key × Nat)) := do
  fsCall env id id
  let temporaries ← gets fun disk => disk.temporaries.keys
  dropTemporaries env temporaries
  let sidecars ← gets fun disk => disk.sidecars.keys
  enumerateSidecars env sidecars

end DiskStorage
end VideoProxy
