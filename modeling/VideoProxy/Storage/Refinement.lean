import VideoProxy.Storage.Represents

/-!
# The engine refines the store

With a calm file system every operation of the engine carries a representation
of a store to a representation of the store that the abstract operation gives.
A write may leave any part of its accepted bytes in the file while it runs; once
they are flushed the file holds all of them, and only then the sidecar records
them.  A check is answered by the recorded offsets, and a recorded range is read
back as recorded.
-/

namespace VideoProxy
namespace DiskStorage

open Faulty IntervalTable

/-! ## The data file during a write -/

/-- While a write runs, the open file still holds every recorded byte outside
the block received so far. -/
structure Receiving (limit : Nat) (key : Key) (disk : Disk) (resource : Resource) (start : Nat)
    (received : Bytes) : Prop where
  opened : ∃ file, disk.files.lookup key = some file ∧ file.length ≤ limit ∧
    ∀ offset byte, resource.bytes offset = some byte →
      ¬(start ≤ offset ∧ offset < start + received.length) →
      file.cell offset = some byte

section Files

variable {limit : Nat} {key : Key} {disk : Disk} {resource : Resource}
  {start : Nat} {received : Bytes}

theorem Receiving.tick (receiving : Receiving limit key disk resource start received)
    (clock : Nat) :
    Receiving limit key { disk with clock := clock } resource start received :=
  ⟨receiving.opened⟩

/-- Any part of a longer block may land in the file. -/
theorem Receiving.landPart (receiving : Receiving limit key disk resource start received)
    (env : Environment) (chunk : Bytes)
    (fits : received ++ chunk ≠ [] → start + (received ++ chunk).length ≤ limit) :
    Receiving limit key (landPart env key start (received ++ chunk) disk) resource start
      (received ++ chunk) := by
  obtain ⟨file, found, bounded, kept⟩ := receiving.opened
  constructor
  refine ⟨_, onFile_lookup found _, ?_, ?_⟩
  · apply SparseFile.write_length_le bounded
    intro nonempty
    have whole := fits (by
      intro empty
      rw [empty] at nonempty
      simp at nonempty)
    have part := List.length_take_le' (min (env.landed disk.clock) (maxFileOffset - start))
      (received ++ chunk)
    omega
  · intro offset byte recorded outside
    rw [SparseFile.cell_write_outside]
    · apply kept offset byte recorded
      simp only [List.length_append] at outside
      omega
    · have part := List.length_take_le' (min (env.landed disk.clock) (maxFileOffset - start))
        (received ++ chunk)
      omega

/-- After the flush the file holds the resource with the received block. -/
theorem Receiving.flush (receiving : Receiving limit key disk resource start received)
    (sized : ∀ total, resource.upstream.totalSize = some total → limit ≤ total)
    (fits : received ≠ [] → start + received.length ≤ limit) :
    Backed limit key (disk.onFile key fun file => file.write start received)
      (resource.record start received) := by
  obtain ⟨file, found, bounded, kept⟩ := receiving.opened
  have opened := onFile_lookup found fun file => file.write start received
  constructor
  · intro offset byte recorded
    refine ⟨_, opened, ?_⟩
    by_cases inside : start ≤ offset ∧ offset < start + received.length
    · rw [SparseFile.cell_write_inside file inside.1 inside.2]
      rw [Resource.record_bytes_inside resource inside] at recorded
      exact recorded
    · rw [SparseFile.cell_write_outside file inside]
      rw [Resource.record_bytes_outside resource inside] at recorded
      exact kept offset byte recorded inside
  · intro other other_eq
    rw [opened] at other_eq
    cases other_eq
    exact SparseFile.write_length_le bounded fits
  · exact sized

theorem Receiving.backed (receiving : Receiving limit key disk resource start [])
    (sized : ∀ total, resource.upstream.totalSize = some total → limit ≤ total) :
    Backed limit key disk resource := by
  obtain ⟨file, found, bounded, kept⟩ := receiving.opened
  constructor
  · intro offset byte recorded
    refine ⟨file, found, kept offset byte recorded ?_⟩
    simp only [List.length_nil]
    omega
  · intro other other_eq
    rw [found] at other_eq
    cases other_eq
    exact bounded
  · exact sized

end Files

/-! ## Writing -/

section Writing

variable {env : Environment} (calm : env.Calm)
include calm

variable {limit : Nat} {key : Key} {disk : Disk} {resource : Resource}

theorem openFile_calm (backed : Backed limit key disk resource) (start : Nat) :
    ∃ after, openFile env key disk = (.ok (), after) ∧
      Receiving limit key after resource start [] := by
  unfold openFile
  rw [fsCall_calm calm]
  refine ⟨_, rfl, ?_⟩
  constructor
  simp only
  cases found : disk.files.lookup key with
  | some file =>
    refine ⟨file, found, backed.bounded file found, ?_⟩
    intro offset byte recorded _
    obtain ⟨other, other_eq, cell_eq⟩ := backed.stored offset byte recorded
    rw [found] at other_eq
    cases other_eq
    exact cell_eq
  | none =>
    refine ⟨.empty, AList.lookup_insert _, Nat.zero_le _, ?_⟩
    intro offset byte recorded _
    obtain ⟨other, other_eq, _⟩ := backed.stored offset byte recorded
    rw [found] at other_eq
    cases other_eq

theorem seek_calm {position : Nat} (small : position ≤ maxFileOffset) (disk : Disk) :
    seek env position disk = (.ok (), { disk with clock := disk.clock + 1 }) := by
  unfold seek
  rw [bind_of_ok (fsCall_calm calm _ _ _), if_neg (by omega)]
  rfl

variable {received : Bytes} {start : Nat} {range : Nat × Nat}

theorem writeAll_calm (receiving : Receiving limit key disk resource start received) (chunk : Bytes)
    (fits : received ++ chunk ≠ [] → start + (received ++ chunk).length ≤ limit)
    (offsets : start + (received ++ chunk).length ≤ maxFileOffset) :
    ∃ after, writeAll env key start (received ++ chunk) disk = (.ok (), after) ∧
      Receiving limit key after resource start (received ++ chunk) := by
  unfold writeAll
  rw [bind_of_ok (fsCall_calm calm _ _ _), if_neg (by omega)]
  exact ⟨_, rfl, (receiving.tick _).landPart env chunk fits⟩

omit calm in
/-- The declared length rejects exactly the chunks that leave the range. -/
theorem declaredLength_any {maximum : Option Nat}
    (declared : declaredLength range = .ok maximum) (length : Nat) :
    (maximum.any fun bound => decide (length > bound)) = true ↔
      ¬(range.2 = openEnded ∨ range.1 + length ≤ range.2 + 1) := by
  unfold declaredLength at declared
  split at declared
  · rename_i unbounded
    cases declared
    simp [unbounded]
  · rename_i closed
    cases measured : rangeLength range.1 range.2 with
    | error reason =>
      rw [measured] at declared
      cases declared
    | ok bound =>
      rw [measured] at declared
      cases declared
      obtain ⟨ordered, _, bound_eq⟩ := rangeLength_eq_ok_iff.mp measured
      simp only [Option.any_some, decide_eq_true_eq, closed, false_or]
      omega

omit calm in
theorem declaredLength_error {reason : ProxyError}
    (declared : declaredLength range = .error reason) (word : range.2 ≤ openEnded) :
    range.2 ≠ openEnded ∧ range.2 < range.1 := by
  unfold declaredLength at declared
  split at declared
  · cases declared
  · rename_i closed
    refine ⟨closed, ?_⟩
    by_contra ordered
    rw [rangeLength_of_le (by omega) (by omega)] at declared
    cases declared

/-- The loop accepts the bytes, and ends with the error, that the stream and
the range determine. -/
theorem receive_calm {maximum : Option Nat}
    (declared : declaredLength range = .ok maximum) (stream : ByteStream)
    (chunks : ∀ chunk, .ok chunk ∈ stream → chunk.length ≤ maxFileOffset)
    (offsets : range.1 + (acceptedFrom range received stream).length ≤ maxFileOffset)
    (fits : acceptedFrom range received stream ≠ [] →
      range.1 + (acceptedFrom range received stream).length ≤ limit)
    (receiving : Receiving limit key disk resource range.1 received) :
    ∃ after, receive env key range.1 maximum received stream disk =
        (.ok ⟨acceptedFrom range received stream, abortFrom range received stream, true⟩, after) ∧
      Receiving limit key after resource range.1 (acceptedFrom range received stream) := by
  induction stream generalizing received disk with
  | nil => exact ⟨disk, rfl, receiving⟩
  | cons item rest inductionHypothesis =>
    cases item with
    | error reason => exact ⟨disk, rfl, receiving⟩
    | ok chunk =>
      have chunkShort := chunks chunk List.mem_cons_self
      have receivedShort := length_le_acceptedFrom range received (.ok chunk :: rest)
      have counted : checkedAdd received.length chunk.length = some (received ++ chunk).length := by
        rw [List.length_append]
        apply checkedAdd_of_le
        unfold maxFileOffset at offsets chunkShort
        unfold u64Max
        omega
      have rejects := declaredLength_any declared (received ++ chunk).length
      unfold receive acceptedFrom abortFrom
      unfold acceptedFrom at offsets fits
      simp only [counted]
      by_cases inside : range.2 = openEnded ∨ range.1 + (received ++ chunk).length ≤ range.2 + 1
      · simp only [if_pos inside] at offsets fits ⊢
        rw [if_neg (by rw [rejects]; exact not_not_intro inside)]
        have longer := length_le_acceptedFrom range (received ++ chunk) rest
        have chunkFits : received ++ chunk ≠ [] → range.1 + (received ++ chunk).length ≤ limit := by
          intro nonempty
          have positive := List.length_pos_iff.mpr nonempty
          have whole := fits (List.length_pos_iff.mp (by omega))
          omega
        obtain ⟨middle, written, continues⟩ :=
          writeAll_calm calm receiving chunk chunkFits (by omega)
        rw [bind_of_ok (attempt_of_ok written)]
        exact inductionHypothesis (fun other member =>
            chunks other (List.mem_cons_of_mem _ member))
          offsets fits continues
      · simp only [if_neg inside]
        rw [if_pos (rejects.mpr inside)]
        exact ⟨disk, rfl, receiving⟩

section Received

variable (documented : Documented key disk resource)
  (receiving : Receiving limit key disk resource start received)
  (sized : ∀ total, resource.upstream.totalSize = some total → limit ≤ total)
include documented receiving sized

theorem flush_syncData_calm (fits : received ≠ [] → start + received.length ≤ limit) :
    ∃ flushed, (do flush env key start received; syncData env : DiskM Unit) disk =
        (.ok (), flushed) ∧
      Documented key flushed resource ∧
      Backed limit key flushed (resource.record start received) := by
  have flushes : flush env key start received disk = (.ok (), _) :=
    fsCall_calm calm _ _ disk
  have frame : FileFrame key disk (flush env key start received disk).2 :=
    flush_keeps env start received disk
  rw [flushes] at frame
  refine ⟨_, (bind_of_ok flushes _).trans (fsCall_calm calm _ _ _), ?_, ?_⟩
  · exact (documented.fileFrame frame).tick _
  · exact ((receiving.tick _).flush sized fits).tick _

/-- Flushed bytes are recorded. -/
theorem persist_calm (nonempty : received ≠ [])
    (fits : start + received.length ≤ limit) (small : limit ≤ maxFileOffset) :
    ∃ after, persist env key start received disk = (.ok none, after) ∧
      Documented key after (resource.record start received) ∧
      Backed limit key after (resource.record start received) := by
  have positive : 0 < received.length := List.length_pos_iff.mpr nonempty
  have word : start + received.length ≤ u64Max := by
    unfold maxFileOffset at small
    unfold u64Max
    omega
  obtain ⟨flushed, flushes, stillDocumented, backed⟩ :=
    flush_syncData_calm calm documented receiving sized fun _ => fits
  have readable : Readable key flushed resource := by
    apply stillDocumented.readable backed _ rfl small
    intro offset recorded
    rw [Resource.record_bytes_isSome]
    exact Or.inl recorded
  have words : ∀ offset, (resource.bytes offset).isSome → offset ≤ u64Max := by
    intro offset recorded
    obtain ⟨file, found, inside⟩ := readable.inside offset recorded
    have := readable.word file found
    omega
  obtain ⟨after, recorded, documentedAfter⟩ := updateMetadata_calm calm
    readable (completedEdit start (start + (received.length - 1)))
    (fun _ describes => describes.completedEdit words nonempty word)
    (fun _ _ unchanged => by cases unchanged)
  have frame := updateMetadata_keeps env key
    (completedEdit start (start + (received.length - 1))) flushed
  rw [recorded] at frame
  refine ⟨after, ?_, documentedAfter, backed.metadataFrame frame⟩
  unfold persist
  rw [bind_of_ok (attempt_of_ok flushes)]
  simp only [checkedAdd_of_le (show start + (received.length - 1) ≤ u64Max by
    omega)]
  exact bind_of_ok recorded _

theorem settle_calm (failure : Option ProxyError)
    (fits : received ≠ [] → start + received.length ≤ limit) (small : limit ≤ maxFileOffset) :
    ∃ after, settle env key start ⟨received, failure, true⟩ disk = (.ok none, after) ∧
      Documented key after (resource.record start received) ∧
      Backed limit key after (resource.record start received) := by
  unfold settle
  by_cases empty : received = []
  · subst received
    refine ⟨disk, rfl, ?_⟩
    rw [Resource.record_nil]
    exact ⟨documented, receiving.backed sized⟩
  · rw [if_pos ⟨List.length_pos_iff.mpr empty, rfl⟩]
    exact persist_calm calm documented receiving sized empty (fits empty) small

end Received

/-- The result of a write over a calm file system. -/
def writeResult (range : Nat × Nat) (stream : ByteStream) : Exit ProxyError Nat :=
  match declaredLength range, abortFrom range [] stream with
  | .error reason, _ => .error reason
  | .ok _, some reason => .error reason
  | .ok _, none => .ok (accepted range stream).length

/-- A write records the accepted bytes of its stream. -/
theorem write_calm {stream : ByteStream} (feasible : Feasible range stream)
    (fits : accepted range stream ≠ [] → range.1 + (accepted range stream).length ≤ limit)
    (small : limit ≤ maxFileOffset) (documented : Documented key disk resource)
    (backed : Backed limit key disk resource) :
    ∃ after, write env key stream range disk = (writeResult range stream, after) ∧
      Documented key after (resource.record range.1 (accepted range stream)) ∧
      Backed limit key after (resource.record range.1 (accepted range stream)) := by
  unfold write writeResult
  cases declared : declaredLength range with
  | error reason =>
    obtain ⟨closed, reversed⟩ := declaredLength_error declared feasible.word
    rw [accepted, acceptedFrom_reversed reversed closed, Resource.record_nil]
    exact ⟨disk, rfl, documented, backed⟩
  | ok maximum =>
    have offsets := feasible.offsets
    unfold accepted at offsets fits ⊢
    obtain ⟨opened, opens, starts⟩ := openFile_calm calm (backed.tick (disk.clock + 1)) range.1
    obtain ⟨received, receives, receiving⟩ := receive_calm calm declared
      stream feasible.chunks offsets fits (starts.tick (opened.clock + 1))
    have openGrows : Grows key { disk with clock := disk.clock + 1 }
        (openFile env key { disk with clock := disk.clock + 1 }).2 :=
      openFile_grows env _
    have receiveGrows : Grows key { opened with clock := opened.clock + 1 }
        (receive env key range.1 maximum [] stream
          { opened with clock := opened.clock + 1 }).2 :=
      receive_grows env range.1 maximum [] stream _
    rw [opens] at openGrows
    rw [receives] at receiveGrows
    have stillDocumented : Documented key received resource :=
      (((documented.tick _).fileFrame openGrows.toFileFrame).tick
        _).fileFrame receiveGrows.toFileFrame
    obtain ⟨after, settles, documentedAfter, backedAfter⟩ :=
      settle_calm calm stillDocumented receiving backed.sized (abortFrom range [] stream) fits small
    have created : ensureDirExists env disk = (.ok (), { disk with clock := disk.clock + 1 }) :=
      fsCall_calm calm _ _ disk
    refine ⟨after, ?_, documentedAfter, backedAfter⟩
    rw [show ofExcept (Except.ok maximum) = (pure maximum : DiskM _) from rfl, bind_of_ok
      (pure_apply maximum disk), bind_of_ok created, bind_of_ok opens, bind_of_ok (seek_calm calm
      (by omega) opened), bind_of_ok receives, bind_of_ok settles, Option.or_none]
    cases abortFrom range [] stream <;> rfl

end Writing

/-! ## The other operations -/

section Others

variable {env : Environment} (calm : env.Calm)
include calm

variable {limit : Nat} {key : Key} {disk : Disk} {resource : Resource}

theorem recordUpstreamMeta_calm (small : limit ≤ maxFileOffset)
    (documented : Documented key disk resource) (backed : Backed limit key disk resource)
    {upstream : UpstreamMeta}
    (sized : ∀ total, upstream.totalSize = some total → 0 < total → limit ≤ total) :
    ∃ after, recordUpstreamMeta env key upstream disk = (.ok (), after) ∧
      Documented key after (resource.learn upstream) ∧
      Backed limit key after (resource.learn upstream) := by
  have readable := documented.readable backed (fun _ => id) rfl small
  have learnSized : ∀ total, (resource.learn upstream).upstream.totalSize = some total →
      limit ≤ total := by
    intro total learned
    simp only [Resource.learn, Option.or_eq_some_iff,
      Option.filter_eq_some_iff, decide_eq_true_eq] at learned
    rcases learned with ⟨declared, positive⟩ | ⟨_, known⟩
    · exact sized total declared positive
    · exact backed.sized total known
  unfold recordUpstreamMeta
  split
  · rename_i nothing
    refine ⟨disk, rfl, ?_⟩
    have unchanged : resource.learn upstream = resource := by
      simp only [Option.isNone_iff_eq_none] at nothing
      simp [Resource.learn, nothing.1, nothing.2]
    rw [unchanged]
    exact ⟨documented, backed⟩
  · obtain ⟨after, updated, documentedAfter⟩ := updateMetadata_calm calm
      readable (upstreamEdit upstream)
      (fun _ describes => describes.upstreamEdit upstream)
      (fun _ describes unchanged => describes.learn_eq unchanged)
    have frame := updateMetadata_keeps env key (upstreamEdit upstream) disk
    rw [updated] at frame
    have backedAfter := backed.metadataFrame frame
    exact ⟨after, updated, documentedAfter, backedAfter.stored, backedAfter.bounded, learnSized⟩

theorem delete_calm :
    ∃ after, delete env key disk = (.ok (), after) ∧
      Documented key after .empty ∧ Backed limit key after .empty := by
  unfold delete
  rw [bind_of_ok (update_apply _ _)]
  unfold removeData removeSidecar
  rw [bind_of_ok (fsCall_calm calm _ _ _), fsCall_calm calm]
  refine ⟨_, rfl, ⟨?_, ?_, ?_⟩, ⟨?_, ?_, ?_⟩⟩
  · intro metadata found
    simp only [AList.lookup_erase] at found
    cases found
  · exact fun _ => describes_default
  · intro document found
    simp only [AList.lookup_erase] at found
    cases found
  · intro offset byte recorded
    cases recorded
  · intro file found
    simp only [AList.lookup_erase] at found
    cases found
  · intro total declared
    cases declared

/-- The end of a closed range is taken as it is, and a known total bounds an
open one. -/
theorem requestedEnd_calm (readable : Readable key disk resource) (range : Nat × Nat) :
    ∃ finish after, requestedEnd env key range disk = (.ok finish, after) ∧
      Documented key after resource ∧
      (range.2 ≠ openEnded → finish = some range.2) ∧
      (range.2 = openEnded → ∀ total, resource.upstream.totalSize = some total →
        finish = checkedSub total 1) := by
  unfold requestedEnd
  by_cases unbounded : range.2 = openEnded
  · obtain ⟨metadata, middle, viewed, describes, documented⟩ :=
      withMetadata_calm calm readable RangeMetadata.totalSize
    rw [if_pos unbounded, bind_of_ok viewed]
    have known : resource.upstream.totalSize = metadata.totalSize := by
      rw [describes.upstream]
    cases declared : metadata.totalSize with
    | some total =>
      refine ⟨_, middle, rfl, documented, fun closed => ?_, ?_⟩
      · exact absurd unbounded closed
      · intro _ other other_eq
        rw [known, declared] at other_eq
        cases other_eq
        rfl
    | none =>
      refine ⟨_, _, bind_of_ok (dataFileSize_calm calm key middle) _,
        documented.tick _, fun closed => ?_, ?_⟩
      · exact absurd unbounded closed
      · intro _ other other_eq
        rw [known, declared] at other_eq
        cases other_eq
  · rw [if_neg unbounded]
    exact ⟨_, disk, rfl, readable.toDocumented, fun _ => rfl,
      fun absurdly => absurd absurdly unbounded⟩

/-- A check is answered by the recorded offsets up to the requested end. -/
theorem checkRange_calm (small : limit ≤ maxFileOffset) (documented : Documented key disk resource)
    (backed : Backed limit key disk resource) (range : Nat × Nat) :
    ∃ answer after finish, checkRange env key range disk = (.ok answer, after) ∧
      Documented key after resource ∧
      (range.2 ≠ openEnded → finish = some range.2) ∧
      (range.2 = openEnded → ∀ total, resource.upstream.totalSize = some total →
        finish = checkedSub total 1) ∧
      (finish = none → answer = false) ∧
      ∀ last, finish = some last → range.1 ≤ last →
        (answer = true ↔ ∀ offset, range.1 ≤ offset → offset ≤ last →
          (resource.bytes offset).isSome) := by
  have readable := documented.readable backed (fun _ => id) rfl small
  obtain ⟨finish, first, requested, documentedFirst, closed, unbounded⟩ :=
    requestedEnd_calm calm readable range
  have firstFrame := requestedEnd_keeps env key range disk
  rw [requested] at firstFrame
  have backedFirst := backed.metadataFrame firstFrame
  unfold checkRange
  rw [bind_of_ok requested]
  cases finish with
  | none =>
    exact ⟨false, first, none, rfl, documentedFirst, closed, unbounded,
      fun _ => rfl, fun _ absurdly => by cases absurdly⟩
  | some last =>
    let view : RangeMetadata → Bool := fun metadata =>
      metadata.completed.any fun completed =>
        completed.1 ≤ range.1 && last ≤ completed.2
    obtain ⟨metadata, second, viewed, describes, documentedSecond⟩ :=
      withMetadata_calm calm (documentedFirst.readable backedFirst (fun _ => id) rfl small) view
    have secondFrame := withMetadata_keeps env key view first
    rw [viewed] at secondFrame
    have backedSecond := backedFirst.metadataFrame secondFrame
    have view_iff (ordered : range.1 ≤ last) : view metadata = true ↔
        ∀ offset, range.1 ≤ offset → offset ≤ last → (resource.bytes offset).isSome := by
      simp only [view, ← describes.covers, List.any_eq_true, Bool.and_eq_true, decide_eq_true_eq]
      exact (describes.coalesced.forall_covers_iff ordered).symm
    simp only
    rw [bind_of_ok viewed]
    cases covered : view metadata with
    | false =>
      refine ⟨false, second, some last, rfl, documentedSecond, closed, unbounded, fun _ => rfl, ?_⟩
      intro other other_eq ordered
      cases other_eq
      rw [← view_iff ordered, covered]
    | true =>
      refine ⟨_, _, some last, bind_of_ok (dataFileSize_calm calm key second) _,
        documentedSecond.tick _, closed, unbounded,
        (fun absurdly => by cases absurdly), ?_⟩
      intro other other_eq ordered
      cases other_eq
      have recorded := (view_iff ordered).mp covered
      obtain ⟨byte, byte_eq⟩ := Option.isSome_iff_exists.mp
        (recorded range.1 (Nat.le_refl _) ordered)
      obtain ⟨file, found, _⟩ :=
        backedSecond.stored range.1 byte byte_eq
      simp only [found, Option.map_some, Option.isSome_some, true_iff]
      exact recorded

/-! ## Reading -/

variable {config : StorageConfig}

/-- The chunks of an open file make up the requested block, however many bytes
each read call returns. -/
theorem readChunks_calm (positive : 0 < config.chunkSize)
    {file : SparseFile} {start totalBytes : Nat} (inside : start + totalBytes ≤ file.length)
    {fuel bytesRead : Nat} (enough : totalBytes ≤ bytesRead + fuel)
    (within : bytesRead ≤ totalBytes) (disk : Disk) :
    ∃ stream clock, readChunks env config file start totalBytes fuel bytesRead disk =
        (.ok stream, { disk with clock := clock }) ∧
      contents stream = .ok (file.read (start + bytesRead) (totalBytes - bytesRead)) := by
  induction fuel generalizing bytesRead disk with
  | zero =>
    refine ⟨[], disk.clock, rfl, ?_⟩
    rw [show totalBytes - bytesRead = 0 by omega]
    simp [contents, SparseFile.read]
  | succ fuel inductionHypothesis =>
    unfold readChunks
    by_cases finished : bytesRead ≥ totalBytes
    · rw [if_pos finished]
      refine ⟨[], disk.clock, rfl, ?_⟩
      rw [show totalBytes - bytesRead = 0 by omega]
      simp [contents, SparseFile.read]
    · rw [if_neg finished]
      let count := min (max 1 (env.granted disk.clock))
        (min config.chunkSize (totalBytes - bytesRead))
      have nonempty : 0 < count := by omega
      have bounded : count ≤ totalBytes - bytesRead := by omega
      let chunk := file.read (start + bytesRead) count
      have chunkLength : chunk.length = count := by
        rw [SparseFile.read_length]
        omega
      obtain ⟨rest, clock, continues, rest_eq⟩ := inductionHypothesis
        (show totalBytes ≤ bytesRead + count + fuel by omega)
        (by omega) { disk with clock := disk.clock + 1 }
      refine ⟨.ok chunk :: rest, clock, ?_, ?_⟩
      · simp only
        rw [bind_of_ok (gets_apply _ disk), bind_of_ok (attempt_of_ok (fsCall_calm calm _ _ disk))]
        simp only [SparseFile.read_take]
        rw [if_neg (by
          rw [List.isEmpty_iff, ← List.length_eq_zero_iff]
          exact chunkLength ▸ nonempty.ne'), chunkLength]
        exact bind_of_ok continues _
      · rw [contents, rest_eq, show start + (bytesRead + count) =
          start + bytesRead + count by omega]
        simp only [Except.map, chunk]
        rw [SparseFile.read_append file (by omega)]
        congr 2
        omega

/-- The stream over an open file that reaches the end of the range. -/
theorem readFile_calm (positive : 0 < config.chunkSize) {file : SparseFile}
    {range : Nat × Nat} (ordered : range.1 ≤ range.2) (closed : range.2 ≠ openEnded)
    (inside : range.2 < file.length) (small : file.length ≤ maxFileOffset) (disk : Disk) :
    ∃ stream after, readFile env config file range disk = (.ok stream, after) ∧ contents stream =
        .ok (file.read range.1 (range.2 - range.1 + 1)) := by
  obtain ⟨stream, clock, reads, contents_eq⟩ := readChunks_calm calm positive
    (show range.1 + (range.2 - range.1 + 1) ≤ file.length by omega)
    (show range.2 - range.1 + 1 ≤ 0 + (range.2 - range.1 + 1) by omega)
    (Nat.zero_le _) { disk with clock := disk.clock + 1 + 1 }
  have measured : rangeLength range.1 range.2 = .ok (range.2 - range.1 + 1) := by
    apply rangeLength_of_le ordered
    unfold maxFileOffset at small
    unfold openEnded u64Max
    omega
  refine ⟨stream, { disk with clock := clock }, ?_, contents_eq⟩
  unfold readFile
  rw [bind_of_ok (fsCall_calm calm _ _ disk), if_neg (by omega)]
  simp only [if_neg closed, show min range.2 (file.length - 1) = range.2 by
    omega, measured]
  rw [show ofExcept (Except.ok (range.2 - range.1 + 1)) = (pure (range.2 - range.1 + 1) : DiskM Nat)
    from rfl, bind_of_ok (pure_apply _ _), bind_of_ok (seek_calm calm (by omega) _)]
  exact reads

/-- A range that is wholly recorded is read back as recorded. -/
theorem read_calm (small : limit ≤ maxFileOffset) (documented : Documented key disk resource)
    (backed : Backed limit key disk resource)
    (positive : 0 < config.chunkSize) {range : Nat × Nat} (ordered : range.1 ≤ range.2)
    (closed : range.2 ≠ openEnded)
    (recorded : ∀ offset, range.1 ≤ offset → offset ≤ range.2 → (resource.bytes offset).isSome) :
    ∃ stream after block, read env config key range disk = (.ok stream, after) ∧
      contents stream = .ok block ∧
      block.map some = (List.range' range.1 (range.2 - range.1 + 1)).map resource.bytes := by
  obtain ⟨answer, first, finish, checked, _, closedEnd, _, _, answer_iff⟩ :=
    checkRange_calm calm small documented backed range
  have answer_eq : answer = true :=
    (answer_iff range.2 (closedEnd closed) ordered).mpr recorded
  subst answer
  have frame := checkRange_keeps env key range disk
  rw [checked] at frame
  have backedFirst := backed.metadataFrame frame
  obtain ⟨file, found, inside, cells⟩ :=
    backedFirst.file_of_recorded ordered recorded
  have short := backedFirst.bounded file found
  obtain ⟨stream, after, reads, contents_eq⟩ := readFile_calm calm positive
    ordered closed inside (by omega)
    { first with clock := first.clock + 1 }
  refine ⟨stream, after, _, ?_, contents_eq, ?_⟩
  · unfold read
    rw [bind_of_ok checked]
    simp only [if_true, openAndRead]
    rw [bind_of_ok (fsCall_calm calm _ _ first), bind_of_ok (gets_apply _ _)]
    simp only [id, found]
    exact reads
  · rw [SparseFile.read_eq_map file (by omega), List.map_map]
    apply List.map_congr_left
    intro offset member
    rw [List.mem_range'_1] at member
    exact cells offset (by omega) (by omega)

end Others

end DiskStorage
end VideoProxy
