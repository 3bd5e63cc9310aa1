import Mathlib.Logic.Function.Basic
import VideoProxy.Storage.Disk

/-!
# The store that the engine implements

Abstractly the cache is a map from keys to resources.  Of a resource it holds the
bytes recorded at some offsets and what the upstream declared.  A write records
the bytes of its stream up to the first item that it cannot accept; deletion
forgets the resource; every other operation leaves the recorded bytes alone.
-/

namespace VideoProxy

/-- The accepted bytes of a stream: those before its end, its error, or the
first chunk that would leave the declared range. -/
def acceptedFrom (range : Nat × Nat) : Bytes → ByteStream → Bytes
  | received, .ok chunk :: rest =>
    if range.2 = openEnded ∨ range.1 + (received ++ chunk).length ≤ range.2 + 1 then
      acceptedFrom range (received ++ chunk) rest
    else received
  | received, .error _ :: _ => received
  | received, [] => received

/-- The bytes that a write of the stream to the range records. -/
def accepted (range : Nat × Nat) (stream : ByteStream) : Bytes :=
  acceptedFrom range [] stream

/-- The error that ends the stream early, or the one for a chunk that would
leave the declared range. -/
def abortFrom (range : Nat × Nat) : Bytes → ByteStream → Option ProxyError
  | received, .ok chunk :: rest =>
    if range.2 = openEnded ∨ range.1 + (received ++ chunk).length ≤ range.2 + 1 then
      abortFrom range (received ++ chunk) rest
    else some (.storage "上游响应体超过请求的缓存范围")
  | _, .error reason :: _ => some reason
  | _, [] => none

/-- A write that the host can carry out: its range consists of machine words, no
chunk is longer than an allocation can be, and the accepted bytes end inside the
range of file offsets. -/
structure Feasible (range : Nat × Nat) (stream : ByteStream) : Prop where
  word : range.2 ≤ openEnded
  chunks : ∀ chunk, .ok chunk ∈ stream → chunk.length ≤ maxFileOffset
  offsets : range.1 + (accepted range stream).length ≤ maxFileOffset

theorem length_le_acceptedFrom (range : Nat × Nat) (received : Bytes) (stream : ByteStream) :
    received.length ≤ (acceptedFrom range received stream).length := by
  induction stream generalizing received with
  | nil => exact Nat.le_refl _
  | cons item rest inductionHypothesis =>
    cases item with
    | error reason => exact Nat.le_refl _
    | ok chunk =>
      unfold acceptedFrom
      split
      · have longer := inductionHypothesis (received ++ chunk)
        rw [List.length_append] at longer
        omega
      · exact Nat.le_refl _

theorem acceptedFrom_reversed {range : Nat × Nat} (reversed : range.2 < range.1)
    (closed : range.2 ≠ openEnded) (stream : ByteStream) :
    acceptedFrom range [] stream = [] := by
  induction stream with
  | nil => rfl
  | cons item rest inductionHypothesis =>
    cases item with
    | error reason => rfl
    | ok chunk =>
      unfold acceptedFrom
      split
      · rename_i fits
        have short : chunk = [] := by
          rw [← List.length_eq_zero_iff]
          simp only [List.nil_append, closed, false_or] at fits
          omega
        rw [short]
        exact inductionHypothesis
      · rfl

/-- What the cache holds of one resource. -/
@[ext] structure Resource where
  /-- Recorded bytes by offset. -/
  bytes : Nat → Option UInt8
  /-- What the upstream declared. -/
  upstream : UpstreamMeta

namespace Resource

/-- A resource that is not cached. -/
def empty : Resource where
  bytes := fun _ => none
  upstream := {}

/-- Record a block of bytes. -/
def record (resource : Resource) (start : Nat) (block : Bytes) : Resource :=
  { resource with
    bytes := fun offset =>
      if start ≤ offset ∧ offset < start + block.length then
        block[offset - start]?
      else resource.bytes offset }

/-- Remember a positive length and a content type. -/
def learn (resource : Resource) (upstream : UpstreamMeta) : Resource :=
  { resource with
    upstream := {
      totalSize :=
        (upstream.totalSize.filter (0 < ·)).or resource.upstream.totalSize
      contentType := upstream.contentType.or resource.upstream.contentType } }

@[simp] theorem record_nil (resource : Resource) (start : Nat) :
    resource.record start [] = resource := by
  ext1
  · funext offset
    simp only [record, List.length_nil, Nat.add_zero]
    rw [if_neg (by omega)]
  · rfl

theorem record_bytes_inside (resource : Resource) {start offset : Nat} {block : Bytes}
    (inside : start ≤ offset ∧ offset < start + block.length) :
    (resource.record start block).bytes offset = block[offset - start]? :=
  if_pos inside

theorem record_bytes_outside (resource : Resource) {start offset : Nat} {block : Bytes}
    (outside : ¬(start ≤ offset ∧ offset < start + block.length)) :
    (resource.record start block).bytes offset = resource.bytes offset :=
  if_neg outside

theorem record_bytes_isSome (resource : Resource) (start : Nat) (block : Bytes) (offset : Nat) :
    ((resource.record start block).bytes offset).isSome ↔ (resource.bytes offset).isSome ∨
        (start ≤ offset ∧ offset < start + block.length) := by
  by_cases inside : start ≤ offset ∧ offset < start + block.length
  · rw [record_bytes_inside resource inside, List.getElem?_eq_getElem (by omega)]
    simp [inside]
  · rw [record_bytes_outside resource inside]
    simp [inside]

end Resource

/-- The cached resources by key. -/
abbrev Store := Key → Resource

/-- The store of an empty directory. -/
def Store.empty : Store := fun _ => .empty

/-- Operations on the storage engine. -/
inductive Operation
  | write (key : Key) (stream : ByteStream) (range : Nat × Nat)
  | recordUpstreamMeta (key : Key) (upstream : UpstreamMeta)
  | delete (key : Key)
  | checkRange (key : Key) (range : Nat × Nat)
  | upstreamMeta (key : Key)
  | read (key : Key) (range : Nat × Nat)

namespace Operation

/-- The key that an operation is about. -/
def key : Operation → Key
  | .write key _ _ | .recordUpstreamMeta key _ | .delete key
  | .checkRange key _ | .upstreamMeta key | .read key _ => key

/-- The effect of an operation on the store. -/
def apply : Operation → Store → Store
  | .write key stream range, store =>
    Function.update store key ((store key).record range.1 (accepted range stream))
  | .recordUpstreamMeta key upstream, store =>
    Function.update store key ((store key).learn upstream)
  | .delete key, store => Function.update store key .empty
  | .checkRange _ _, store => store
  | .upstreamMeta _, store => store
  | .read _ _, store => store

/-- The operation of the engine, without its result. -/
def perform (env : Environment) (config : StorageConfig) : Operation → DiskM Unit
  | .write key stream range => do
      let _ ← DiskStorage.write env key stream range
  | .recordUpstreamMeta key upstream =>
    DiskStorage.recordUpstreamMeta env key upstream
  | .delete key => DiskStorage.delete env key
  | .checkRange key range => do
      let _ ← DiskStorage.checkRange env key range
  | .upstreamMeta key => do
      let _ ← DiskStorage.upstreamMeta env key
  | .read key range => do
      let _ ← DiskStorage.read env config key range

/-- One operation from start to end; a stopped process is started again over the
same directory. -/
def step (env : Environment) (config : StorageConfig) (disk : Disk)
    (operation : Operation) : Disk :=
  match operation.perform env config disk with
  | (.ok _, after) => after
  | (.error _, after) => after
  | (.stopped, after) => after.reopen

/-- What an operation leaves, and keeps when the process is started again, holds
after the step. -/
theorem step_holds {env : Environment} {config : StorageConfig} {disk : Disk}
    {operation : Operation} (holds : Disk → Prop)
    (performed : holds (operation.perform env config disk).2)
    (reopens : ∀ after, holds after → holds after.reopen) :
    holds (operation.step env config disk) := by
  unfold step
  generalize operation.perform env config disk = ended at performed
  rcases ended with ⟨exit, after⟩
  cases exit with
  | ok value => exact performed
  | error reason => exact performed
  | stopped => exact reopens after performed

/-- A sequence of operations, one after the other. -/
def run (env : Environment) (config : StorageConfig) (operations : List Operation)
    (disk : Disk) : Disk :=
  operations.foldl (step env config) disk

/-- The store after a sequence of operations. -/
def applyAll (operations : List Operation) (store : Store) : Store :=
  operations.foldl (fun store operation => operation.apply store) store

end Operation
end VideoProxy
