import VideoProxy.Storage.Disk

/-!
# What an operation on one key leaves alone

However an operation on a key ends, the data files and sidecars of all other
keys are unchanged, and the index entries of other keys are unchanged or
dropped.  Between them the operations fall in two groups: those that work on
the metadata and leave every data file alone, and those that work on one data
file and leave all metadata alone.
-/

namespace VideoProxy
namespace DiskStorage

open Faulty

/-- Between the two states only the key changed, and other keys at most lost
their index entries. -/
structure Frame (key : Key) (before after : Disk) : Prop where
  files : ∀ other, other ≠ key → after.files.lookup other = before.files.lookup other
  sidecars : ∀ other, other ≠ key → after.sidecars.lookup other = before.sidecars.lookup other
  index : ∀ other, other ≠ key → after.index.lookup other = before.index.lookup other ∨
      after.index.lookup other = none

/-- Only the metadata of the key changed. -/
structure MetadataFrame (key : Key) (before after : Disk) : Prop
    extends Frame key before after where
  sameFiles : after.files = before.files

/-- Only the data file of the key changed. -/
structure FileFrame (key : Key) (before after : Disk) : Prop
    extends Frame key before after where
  sameSidecars : after.sidecars = before.sidecars
  sameIndex : after.index = before.index

/-- Neither the directory nor the index changed. -/
structure Unchanged (before after : Disk) : Prop where
  files : after.files = before.files
  sidecars : after.sidecars = before.sidecars
  index : after.index = before.index

instance : Std.Refl Unchanged where
  refl _ := ⟨rfl, rfl, rfl⟩

instance : IsTrans Disk Unchanged where
  trans _ _ _ left right :=
    ⟨right.files.trans left.files, right.sidecars.trans left.sidecars, right.index.trans left.index⟩

section Frames

variable {key : Key}

instance : Std.Refl (Frame key) where
  refl _ := ⟨fun _ _ => rfl, fun _ _ => rfl, fun _ _ => Or.inl rfl⟩

instance : IsTrans Disk (Frame key) where
  trans first second third left right := by
    refine ⟨fun other ne => ?_, fun other ne => ?_, fun other ne => ?_⟩
    · exact (right.files other ne).trans (left.files other ne)
    · exact (right.sidecars other ne).trans (left.sidecars other ne)
    · rcases right.index other ne with same | dropped
      · rw [same]
        exact left.index other ne
      · exact Or.inr dropped

instance : Std.Refl (MetadataFrame key) where
  refl disk := ⟨refl_of (Frame key) disk, rfl⟩

instance : IsTrans Disk (MetadataFrame key) where
  trans _ _ _ left right :=
    ⟨trans_of (Frame key) left.toFrame right.toFrame, right.sameFiles.trans left.sameFiles⟩

instance : Std.Refl (FileFrame key) where
  refl disk := ⟨refl_of (Frame key) disk, rfl, rfl⟩

instance : IsTrans Disk (FileFrame key) where
  trans _ _ _ left right :=
    ⟨trans_of (Frame key) left.toFrame right.toFrame, right.sameSidecars.trans left.sameSidecars,
      right.sameIndex.trans left.sameIndex⟩

/-- A disk with the same maps satisfies every frame. -/
theorem Frame.of_eq {before after : Disk} (files : after.files = before.files)
    (sidecars : after.sidecars = before.sidecars) (index : after.index = before.index) :
    Frame key before after := by
  refine ⟨fun _ _ => ?_, fun _ _ => ?_, fun _ _ => Or.inl ?_⟩
  · rw [files]
  · rw [sidecars]
  · rw [index]

theorem MetadataFrame.of_eq {before after : Disk} (files : after.files = before.files)
    (sidecars : after.sidecars = before.sidecars) (index : after.index = before.index) :
    MetadataFrame key before after :=
  ⟨Frame.of_eq files sidecars index, files⟩

theorem FileFrame.insert_file (disk : Disk) (file : SparseFile) (clock : Nat) :
    FileFrame key disk
      { disk with files := disk.files.insert key file, clock := clock } :=
  ⟨⟨fun _ ne => AList.lookup_insert_ne ne, fun _ _ => rfl, fun _ _ => Or.inl rfl⟩, rfl, rfl⟩

theorem FileFrame.tick (disk : Disk) (clock : Nat) :
    FileFrame key disk { disk with clock := clock } :=
  ⟨Frame.of_eq rfl rfl rfl, rfl, rfl⟩

/-- A change of the data file is seen in the directory. -/
theorem onFile_lookup {disk : Disk} {key : Key} {file : SparseFile}
    (found : disk.files.lookup key = some file) (change : SparseFile → SparseFile) :
    (disk.onFile key change).files.lookup key = some (change file) := by
  simp only [Disk.onFile, found]
  exact AList.lookup_insert _

theorem FileFrame.onFile (change : SparseFile → SparseFile) (disk : Disk) :
    FileFrame key disk (disk.onFile key change) := by
  unfold Disk.onFile
  split
  · exact FileFrame.insert_file disk _ disk.clock
  · exact refl_of (FileFrame key) disk

end Frames

/-! ## Calls to the file system -/

section Calls

variable {relation : Disk → Disk → Prop}

/-- A call does its work, in whole or in part, or nothing. -/
theorem keeps_fsCall (env : Environment) {done broken : Disk → Disk} (keepsDone : ∀ disk : Disk,
      relation disk (done { disk with clock := disk.clock + 1 }))
    (keepsBroken : ∀ disk : Disk, relation disk (broken { disk with clock := disk.clock + 1 })) :
    Keeps relation (fsCall env done broken) := by
  intro disk
  unfold fsCall
  simp only
  split
  · exact keepsDone disk
  · exact keepsBroken disk
  · exact keepsDone disk
  · exact keepsBroken disk

/-- A call that succeeds has done its work. -/
theorem fsCall_eq_ok {env : Environment} {done broken : Disk → Disk} {before after : Disk}
    (succeeded : fsCall env done broken before = (.ok (), after)) :
    after = done { before with clock := before.clock + 1 } := by
  unfold fsCall at succeeded
  simp only at succeeded
  split at succeeded
  · cases succeeded
    rfl
  · cases succeeded
  · cases succeeded
  · cases succeeded

theorem keeps_fsQuery (env : Environment) {view : Disk → α} (keepsTick : ∀ disk : Disk,
      relation disk { disk with clock := disk.clock + 1 }) :
    Keeps relation (fsQuery env view) := by
  intro disk
  unfold fsQuery
  simp only
  split <;> exact keepsTick disk

theorem tickCall_unchanged (env : Environment) : Keeps Unchanged (fsCall env id id) :=
  keeps_fsCall env (fun _ => ⟨rfl, rfl, rfl⟩) (fun _ => ⟨rfl, rfl, rfl⟩)

end Calls

/-! ## Metadata -/

section Metadata

variable (env : Environment) (key : Key)

/-- What changes nothing changes no metadata of another key. -/
theorem Unchanged.metadataFrame {computation : DiskM α} (keeps : Keeps Unchanged computation) :
    Keeps (MetadataFrame key) computation :=
  fun disk => MetadataFrame.of_eq (keeps disk).files (keeps disk).sidecars (keeps disk).index

theorem dataFileSize_unchanged : Keeps Unchanged (dataFileSize env key) :=
  keeps_bind (keeps_fsQuery env fun _ => ⟨rfl, rfl, rfl⟩) fun _ => keeps_pure _

theorem dataFileSize_keeps : Keeps (MetadataFrame key) (dataFileSize env key) :=
  Unchanged.metadataFrame key (dataFileSize_unchanged env key)

/-- Loading a sidecar writes nothing. -/
theorem loadMetadata_unchanged : Keeps Unchanged (loadMetadata env key) := by
  refine keeps_bind (keeps_fsQuery env fun _ => ⟨rfl, rfl, rfl⟩) fun document => ?_
  split
  · exact keeps_bind (dataFileSize_unchanged env key) fun _ => keeps_pure _
  · exact keeps_pure _

theorem loadMetadata_keeps : Keeps (MetadataFrame key) (loadMetadata env key) :=
  Unchanged.metadataFrame key (loadMetadata_unchanged env key)

/-- An insertion may evict another entry and adds none. -/
theorem indexInsert_lookup_ne (metadata : RangeMetadata) (disk : Disk) {other : Key}
    (ne : other ≠ key) :
    (indexInsert env key metadata disk).index.lookup other = disk.index.lookup other ∨
      (indexInsert env key metadata disk).index.lookup other = none := by
  simp only [indexInsert, AList.lookup_insert_ne ne]
  split
  · split
    · rename_i victim _
      by_cases evicted : other = victim
      · subst other
        exact Or.inr (AList.lookup_erase _ _)
      · exact Or.inl (AList.lookup_erase_ne evicted)
    · exact Or.inl rfl
  · exact Or.inl rfl

@[simp] theorem indexInsert_lookup (metadata : RangeMetadata) (disk : Disk) :
    (indexInsert env key metadata disk).index.lookup key = some metadata :=
  AList.lookup_insert _

/-- An insertion touches the index only. -/
theorem indexInsert_keeps (metadata : RangeMetadata) :
    Keeps (MetadataFrame key) (update (indexInsert env key metadata) : DiskM Unit) :=
  keeps_update fun disk =>
    ⟨⟨fun _ _ => rfl, fun _ _ => rfl,
      fun _ ne => indexInsert_lookup_ne env key metadata disk ne⟩, rfl⟩

/-- A view of the metadata may fill the index. -/
theorem withMetadata_keeps (view : RangeMetadata → α) :
    Keeps (MetadataFrame key) (withMetadata env key view) := by
  refine keeps_bind (keeps_gets _) fun cached => ?_
  split
  · exact keeps_pure _
  · refine keeps_bind (loadMetadata_keeps env key) fun loaded => ?_
    split
    · exact keeps_pure _
    · exact keeps_bind (indexInsert_keeps env key _) fun _ => keeps_pure _

theorem dropTemporary_unchanged : Keeps Unchanged (dropTemporary env key) :=
  keeps_ignore (keeps_fsCall env (fun _ => ⟨rfl, rfl, rfl⟩) (fun _ => ⟨rfl, rfl, rfl⟩))

/-- The temporary file is no part of what is seen later. -/
theorem writeTemporary_unchanged (metadata : RangeMetadata) :
    Keeps Unchanged (writeTemporary env key metadata) :=
  keeps_fsCall env (fun _ => ⟨rfl, rfl, rfl⟩) (fun _ => ⟨rfl, rfl, rfl⟩)

/-- A rename replaces the sidecar of the key. -/
theorem renameTemporary_keeps : Keeps (MetadataFrame key) (renameTemporary env key) := by
  apply keeps_fsCall
  · intro disk
    simp only
    split
    · exact ⟨⟨fun _ _ => rfl, fun _ ne => AList.lookup_insert_ne ne, fun _ _ => Or.inl rfl⟩, rfl⟩
    · exact MetadataFrame.of_eq rfl rfl rfl
  · exact fun _ => MetadataFrame.of_eq rfl rfl rfl

/-- A write of the metadata replaces the sidecar of the key. -/
theorem writeMetadata_keeps (metadata : RangeMetadata) :
    Keeps (MetadataFrame key) (writeMetadata env key metadata) := by
  have cleanup (reason : ProxyError) :
      Keeps (MetadataFrame key) (do
        dropTemporary env key
        fail reason : DiskM Unit) :=
    keeps_bind (Unchanged.metadataFrame key (dropTemporary_unchanged env key))
      fun _ => keeps_fail reason
  refine keeps_bind (Unchanged.metadataFrame key (tickCall_unchanged env)) fun _ => ?_
  refine keeps_bind (keeps_attempt (Unchanged.metadataFrame key
    (writeTemporary_unchanged env key metadata))) fun written => ?_
  split
  · exact cleanup _
  · refine keeps_bind (keeps_attempt (renameTemporary_keeps env key)) fun renamed => ?_
    split
    · exact cleanup _
    · exact keeps_pure ()

theorem currentMetadata_unchanged : Keeps Unchanged (currentMetadata env key) := by
  refine keeps_bind (keeps_gets _) fun cached => ?_
  split
  · exact keeps_pure _
  · exact keeps_bind (loadMetadata_unchanged env key) fun _ => keeps_pure _

theorem currentMetadata_keeps : Keeps (MetadataFrame key) (currentMetadata env key) :=
  Unchanged.metadataFrame key (currentMetadata_unchanged env key)

/-- An update touches the metadata of its key only. -/
theorem updateMetadata_keeps (edit : RangeMetadata → RangeMetadata × Bool) :
    Keeps (MetadataFrame key) (updateMetadata env key edit) := by
  refine keeps_bind (currentMetadata_keeps env key) fun metadata => ?_
  simp only
  split
  · exact keeps_bind (writeMetadata_keeps env key _) fun _ => indexInsert_keeps env key _
  · exact keeps_pure ()

theorem recordUpstreamMeta_keeps (upstream : UpstreamMeta) :
    Keeps (MetadataFrame key) (recordUpstreamMeta env key upstream) := by
  unfold recordUpstreamMeta
  split
  · exact keeps_pure ()
  · exact updateMetadata_keeps env key _

theorem requestedEnd_keeps (range : Nat × Nat) :
    Keeps (MetadataFrame key) (requestedEnd env key range) := by
  unfold requestedEnd
  split
  · refine keeps_bind (withMetadata_keeps env key _) fun total => ?_
    split
    · exact keeps_pure _
    · exact keeps_bind (dataFileSize_keeps env key) fun _ => keeps_pure _
  · exact keeps_pure _

/-- A check writes nothing but the index. -/
theorem checkRange_keeps (range : Nat × Nat) :
    Keeps (MetadataFrame key) (checkRange env key range) := by
  refine keeps_bind (requestedEnd_keeps env key range) fun finish => ?_
  split
  · exact keeps_pure _
  · refine keeps_bind (withMetadata_keeps env key _) fun covered => ?_
    split
    · exact keeps_bind (dataFileSize_keeps env key) fun _ => keeps_pure _
    · exact keeps_pure _

end Metadata

/-! ## The data file -/

/-- A byte was written at the offset since the current data file was
created. -/
def Stored (disk : Disk) (key : Key) (offset : Nat) : Prop :=
  ∃ file, disk.files.lookup key = some file ∧ (file.cell offset).isSome

/-- The data file of a key exists. -/
def Opened (key : Key) (disk : Disk) : Prop :=
  ∃ file, disk.files.lookup key = some file

/-- The data file only gains bytes and stays within the file offsets; the
metadata is untouched. -/
structure Grows (key : Key) (before after : Disk) : Prop
    extends FileFrame key before after where
  stored : ∀ offset, Stored before key offset → Stored after key offset
  bounded : (∀ file, before.files.lookup key = some file → file.length ≤ maxFileOffset) →
    ∀ file, after.files.lookup key = some file → file.length ≤ maxFileOffset
  opened : Opened key before → Opened key after

section Growth

variable {key : Key}

instance : Std.Refl (Grows key) where
  refl disk := ⟨refl_of (FileFrame key) disk, fun _ => id, id, id⟩

instance : IsTrans Disk (Grows key) where
  trans _ _ _ left right :=
    ⟨trans_of (FileFrame key) left.toFileFrame right.toFileFrame,
      fun offset held => right.stored offset (left.stored offset held),
      fun held => right.bounded (left.bounded held),
      fun held => right.opened (left.opened held)⟩

end Growth

section Files

variable (env : Environment) {key : Key}

theorem Grows.tick (disk : Disk) (clock : Nat) : Grows key disk { disk with clock := clock } :=
  ⟨FileFrame.tick disk clock, fun _ => id, id, id⟩

variable {start : Nat} {stream : ByteStream}

/-- A write within the file offsets only adds bytes. -/
theorem Grows.onFile_write (disk : Disk) {block : Bytes}
    (fits : block ≠ [] → start + block.length ≤ maxFileOffset) :
    Grows key disk (disk.onFile key fun file => file.write start block) := by
  refine ⟨FileFrame.onFile _ disk, ?_, ?_, ?_⟩
  · rintro offset ⟨file, found, stored⟩
    exact ⟨_, onFile_lookup found _, SparseFile.cell_write_isSome stored start block⟩
  · intro bounded other other_eq
    cases found : disk.files.lookup key with
    | none =>
      simp only [Disk.onFile, found] at other_eq
      cases other_eq
    | some file =>
      rw [onFile_lookup found] at other_eq
      cases other_eq
      exact SparseFile.write_length_le (bounded file found) fits
  · rintro ⟨file, found⟩
    exact ⟨_, onFile_lookup found _⟩

/-- The part of a write that lands only adds bytes. -/
theorem landPart_grows (start : Nat) (received : Bytes) (disk : Disk) :
    Grows key disk (landPart env key start received
        { disk with clock := disk.clock + 1 }) := by
  refine trans_of (Grows key) (Grows.tick disk _) (Grows.onFile_write _ fun nonempty => ?_)
  have positive := List.length_pos_iff.mpr nonempty
  simp only [List.length_take] at positive ⊢
  omega

theorem tickCall_grows : Keeps (Grows key) (fsCall env id id) :=
  keeps_fsCall env (fun disk => Grows.tick disk _) (fun disk => Grows.tick disk _)

/-- Opening creates the data file if it is missing. -/
theorem openFile_grows : Keeps (Grows key) (openFile env key) := by
  refine keeps_fsCall env (fun disk => ?_) (fun disk => Grows.tick disk _)
  simp only
  split
  · exact Grows.tick disk _
  · rename_i missing
    refine ⟨FileFrame.insert_file disk _ _, ?_, ?_, ?_⟩
    · rintro offset ⟨file, found, _⟩
      rw [missing] at found
      cases found
    · intro _ file found
      rw [AList.lookup_insert] at found
      cases found
      exact Nat.zero_le _
    · intro _
      exact ⟨_, AList.lookup_insert _⟩

/-- After a file was opened it is there. -/
theorem openFile_opened {disk : Disk} (ended : (openFile env key disk).1 = .ok ()) :
    Opened key (openFile env key disk).2 := by
  rw [fsCall_eq_ok (Prod.ext ended rfl :
    openFile env key disk = (.ok (), (openFile env key disk).2))]
  simp only
  split
  · rename_i file found
    exact ⟨file, found⟩
  · exact ⟨_, AList.lookup_insert _⟩

theorem seek_grows (position : Nat) : Keeps (Grows key) (seek env position) := by
  refine keeps_bind (tickCall_grows env) fun _ => ?_
  split
  · exact keeps_fail _
  · exact keeps_pure _

/-- A chunk that is written only adds bytes. -/
theorem writeAll_grows (start : Nat) (received : Bytes) :
    Keeps (Grows key) (writeAll env key start received) := by
  refine keeps_bind (keeps_fsCall env (landPart_grows env start received)
    (landPart_grows env start received)) fun _ => ?_
  split
  · exact keeps_fail _
  · exact keeps_pure _

/-- The write loop stops with what it has, or accepts a chunk and goes on: what
holds of the bytes and the rest of the stream when a chunk was written holds where
the loop ends, and it ends without a failure only with the stream. -/
theorem yields_receive (invariant : Disk → Prop) (allowed : Bytes → ByteStream → Prop)
    {maxLength : Option Nat} {received : Bytes}
    (writes : ∀ received chunk rest, allowed received (.ok chunk :: rest) →
      ¬(maxLength.any fun maximum => decide ((received ++ chunk).length > maximum)) = true →
      Yields invariant (writeAll env key start (received ++ chunk))
        fun _ => allowed (received ++ chunk) rest)
    (begins : allowed received stream) :
    Yields invariant (receive env key start maxLength received stream) fun reception =>
      ∃ rest, allowed reception.received rest ∧
        (reception.failure = none → rest = [] ∧ reception.recordable = true) := by
  induction stream generalizing received with
  | nil => exact yields_pure ⟨[], begins, fun _ => ⟨rfl, rfl⟩⟩
  | cons item rest inductionHypothesis =>
    cases item with
    | error reason => exact yields_pure ⟨_, begins, nofun⟩
    | ok chunk =>
      unfold receive
      cases counted : checkedAdd received.length chunk.length with
      | none => exact yields_pure ⟨_, begins, nofun⟩
      | some next =>
        obtain ⟨next_eq, _⟩ := checkedAdd_eq_some_iff.mp counted
        simp only
        split
        · exact yields_pure ⟨_, begins, nofun⟩
        · rename_i accepted
          rw [← next_eq, ← List.length_append] at accepted
          refine yields_bind (yields_attempt_ok (writes received chunk rest begins accepted))
            fun ended written => ?_
          cases ended with
          | error reason => exact yields_pure ⟨_, begins, nofun⟩
          | ok value => exact inductionHypothesis (written value rfl)

/-- What each chunk keeps, the write loop keeps. -/
theorem keeps_receive {relation : Disk → Disk → Prop} [Std.Refl relation] [IsTrans Disk relation]
    (writes : ∀ received, Keeps relation (writeAll env key start received))
    (maxLength : Option Nat) (received : Bytes) (stream : ByteStream) :
    Keeps relation (receive env key start maxLength received stream) := by
  intro disk
  have written (received chunk : Bytes) (rest : ByteStream) :
      Yields (relation disk) (writeAll env key start (received ++ chunk)) fun _ => True :=
    fun middle related => ⟨trans_of relation related (writes _ middle), fun _ _ => trivial⟩
  exact (yields_receive env (relation disk) (fun _ _ => True)
    (fun received chunk rest _ _ => written received chunk rest) trivial disk
    (refl_of relation disk)).1

/-- The write loop only adds bytes. -/
theorem receive_grows (start : Nat) (maxLength : Option Nat) (received : Bytes)
    (stream : ByteStream) :
    Keeps (Grows key) (receive env key start maxLength received stream) :=
  keeps_receive env (writeAll_grows env start) maxLength received stream

/-- A flush touches the data file of its key only. -/
theorem flush_keeps (start : Nat) (received : Bytes) :
    Keeps (FileFrame key) (flush env key start received) :=
  keeps_fsCall env (fun disk => trans_of (FileFrame key) (FileFrame.tick disk _)
      (FileFrame.onFile _ _))
    (fun disk => (landPart_grows env start received disk).toFileFrame)

/-! ## The rules for a write -/

/-- Bytes are recorded after they have been flushed and synced, or not at all. -/
theorem ensures_persist {writing flushed done : Disk → Prop} {received : Bytes}
    (flushes : Ensures writing (flush env key start received)
      fun exit disk => done disk ∧ (exit = .ok () → flushed disk))
    (syncs : Ensures flushed (syncData env) fun _ => flushed)
    (settles : ∀ disk, flushed disk → done disk)
    (records : ∀ finish, checkedAdd start (received.length - 1) = some finish →
      Ensures flushed (recordCompletedRange env key start finish) fun _ => done) :
    Ensures writing (persist env key start received) fun _ => done := by
  have synced : Ensures writing (do flush env key start received; syncData env)
      fun exit disk => done disk ∧ (exit = .ok () → flushed disk) :=
    ensures_bind flushes (fun _ => syncs.weaken (fun _ held => held.2 rfl)
        fun _ disk held => ⟨settles disk held, fun _ => held⟩)
      (fun _ _ held => ⟨held.1, nofun⟩) (fun _ held => ⟨held.1, nofun⟩)
  refine ensures_attempt_bind synced (fun _ => ?_)
    (fun _ => ensures_pure fun _ held => held.1) fun _ held => held.1
  simp only
  split
  · exact ensures_fail fun _ held => held.1
  · rename_i finish counted
    exact ensures_bind ((records finish counted).weaken (fun _ held => held.2 trivial)
      fun _ _ => id) (fun _ => ensures_pure fun _ => id) (fun _ _ => id) (fun _ => id)

/-- A write that fails before its file is open leaves what it found, and one that
fails later leaves what it has written. -/
theorem ensures_write {idle writing done : Disk → Prop} (accepts : Bytes → Prop)
    {range : Nat × Nat}
    (creates : Ensures idle (ensureDirExists env) fun _ => idle)
    (opens : Ensures idle (openFile env key)
      fun exit disk => idle disk ∧ (exit = .ok () → writing disk))
    (seeks : Ensures writing (seek env range.1) fun _ => writing)
    (receives : ∀ maxLength, declaredLength range = .ok maxLength →
      Yields writing (receive env key range.1 maxLength [] stream)
        fun reception => accepts reception.received)
    (persists : ∀ received, received ≠ [] → accepts received →
      Ensures writing (persist env key range.1 received) fun _ => done)
    (untouched : ∀ disk, idle disk → done disk) (abandoned : ∀ disk, writing disk → done disk) :
    Ensures idle (write env key stream range) fun _ => done := by
  refine ensures_bind (yields_ofExcept _) (fun maxLength disk held => ?_)
    (fun _ disk held => untouched disk held.1) fun disk held => untouched disk held.1
  have declared := held.2 maxLength rfl
  suffices prepared : Ensures idle _ fun _ => done from prepared disk held.1
  refine ensures_bind creates (fun _ => ?_) (fun _ => untouched) untouched
  refine ensures_bind opens (fun _ => ?_) (fun _ disk held => untouched disk held.1)
    fun disk held => untouched disk held.1
  suffices opened : Ensures writing _ fun _ => done from
    opened.weaken (fun _ held => held.2 rfl) fun _ _ => id
  refine ensures_bind seeks (fun _ => ?_) (fun _ => abandoned) abandoned
  refine ensures_bind (receives maxLength declared) (fun reception disk held => ?_)
    (fun _ disk held => abandoned disk held.1) fun disk held => abandoned disk held.1
  have settles : Ensures writing (settle env key range.1 reception) fun _ => done := by
    unfold settle
    split
    · rename_i recordable
      exact persists _ (List.length_pos_iff.mp recordable.1) (held.2 reception rfl)
    · exact ensures_pure abandoned
  suffices received : Ensures writing _ fun _ => done from received disk held.1
  refine ensures_bind settles (fun syncFailure => ?_) (fun _ _ => id) (fun _ => id)
  split
  · exact ensures_fail fun _ => id
  · exact ensures_pure fun _ => id

/-- What every call of a write keeps, the write keeps. -/
theorem invariant_write {invariant : Disk → Prop} (accepts : Bytes → Prop)
    {range : Nat × Nat} (calls : Ensures invariant (fsCall env id id) fun _ => invariant)
    (opens : Ensures invariant (openFile env key) fun _ => invariant)
    (receives : ∀ maxLength, Yields invariant (receive env key range.1 maxLength [] stream)
      fun reception => accepts reception.received)
    (flushes : ∀ received, accepts received →
      Ensures invariant (flush env key range.1 received) fun _ => invariant)
    (records : ∀ start finish,
      Ensures invariant (recordCompletedRange env key start finish) fun _ => invariant) :
    Ensures invariant (write env key stream range) fun _ => invariant := by
  have seeks : Ensures invariant (seek env range.1) fun _ => invariant := by
    refine ensures_bind_invariant calls fun _ => ?_
    split
    · exact ensures_fail fun _ => id
    · exact ensures_pure fun _ => id
  refine ensures_write env accepts calls
    (opens.weaken (fun _ => id) fun _ _ held => ⟨held, fun _ => held⟩) seeks
    (fun maxLength _ => receives maxLength) (fun received _ accepted => ?_)
    (fun _ => id) (fun _ => id)
  exact ensures_persist env ((flushes received accepted).weaken (fun _ => id)
      fun _ _ held => ⟨held, fun _ => held⟩) calls (fun _ => id) fun finish _ => records _ finish

/-- What every call of a write keeps from step to step, the write keeps. -/
theorem keeps_write {relation : Disk → Disk → Prop} [Std.Refl relation] [IsTrans Disk relation]
    (calls : Keeps relation (fsCall env id id)) (opens : Keeps relation (openFile env key))
    (writes : ∀ start received, Keeps relation (writeAll env key start received))
    (flushes : ∀ start received, Keeps relation (flush env key start received))
    (records : ∀ start finish, Keeps relation (recordCompletedRange env key start finish))
    (stream : ByteStream) (range : Nat × Nat) :
    Keeps relation (write env key stream range) := by
  intro before
  have carries : ∀ middle after, relation middle after → relation before middle →
      relation before after :=
    fun _ _ related held => trans_of relation held related
  have receives (maxLength : Option Nat) : Yields (relation before)
      (receive env key range.1 maxLength [] stream) fun _ => True :=
    fun disk held => ⟨carries _ _ (keeps_receive env (writes _) maxLength [] stream disk) held,
      fun _ _ => trivial⟩
  exact invariant_write env (fun _ => True) (calls.ensures carries) (opens.ensures carries) receives
    (fun received _ => (flushes _ received).ensures carries)
    (fun start finish => (records start finish).ensures carries) before (refl_of relation before)

end Files

/-! ## Reading an open file -/

section Reading

variable (env : Environment) (config : StorageConfig) (file : SparseFile)

theorem readChunks_unchanged (start totalBytes fuel bytesRead : Nat) :
    Keeps Unchanged (readChunks env config file start totalBytes fuel bytesRead) := by
  induction fuel generalizing bytesRead with
  | zero => exact keeps_pure _
  | succ fuel inductionHypothesis =>
    unfold readChunks
    split
    · exact keeps_pure _
    · refine keeps_bind (keeps_gets _) fun grant => ?_
      refine keeps_bind (keeps_attempt (tickCall_unchanged env)) fun called => ?_
      split
      · exact keeps_pure _
      · simp only
        split
        · exact keeps_pure _
        · exact keeps_bind (inductionHypothesis _) fun _ => keeps_pure _

/-- Reading a file changes nothing. -/
theorem readFile_unchanged (range : Nat × Nat) :
    Keeps Unchanged (readFile env config file range) := by
  refine keeps_bind (tickCall_unchanged env) fun _ => ?_
  split
  · exact keeps_fail _
  · refine keeps_bind (keeps_ofExcept _) fun totalBytes => ?_
    refine keeps_bind (keeps_bind (tickCall_unchanged env) fun _ => ?_)
      fun _ => readChunks_unchanged env config file _ _ _ _
    split
    · exact keeps_fail _
    · exact keeps_pure _

theorem openAndRead_unchanged (key : Key) (range : Nat × Nat) :
    Keeps Unchanged (openAndRead env config key range) := by
  refine keeps_bind (tickCall_unchanged env) fun _ => ?_
  refine keeps_bind (keeps_gets _) fun file => ?_
  split
  · exact keeps_fail _
  · exact readFile_unchanged env config _ range

/-- A read touches the index only. -/
theorem read_keeps (key : Key) (range : Nat × Nat) :
    Keeps (MetadataFrame key) (read env config key range) := by
  refine keeps_bind (checkRange_keeps env key range) fun cached => ?_
  split
  · exact Unchanged.metadataFrame key (openAndRead_unchanged env config key range)
  · exact keeps_fail _

end Reading

/-! ## Whole operations -/

section Operations

variable (env : Environment) (key : Key)

variable {computation : DiskM α}

theorem MetadataFrame.keeps (keeps : Keeps (MetadataFrame key) computation) :
    Keeps (Frame key) computation :=
  fun disk => (keeps disk).toFrame

theorem FileFrame.keeps (keeps : Keeps (FileFrame key) computation) :
    Keeps (Frame key) computation :=
  fun disk => (keeps disk).toFrame

theorem Grows.keeps (keeps : Keeps (Grows key) computation) : Keeps (Frame key) computation :=
  fun disk => (keeps disk).toFrame

/-- A write is about its own key. -/
theorem write_keeps (stream : ByteStream) (range : Nat × Nat) :
    Keeps (Frame key) (write env key stream range) :=
  keeps_write env (Grows.keeps key (tickCall_grows env)) (Grows.keeps key (openFile_grows env))
    (fun start received => Grows.keeps key (writeAll_grows env start received))
    (fun start received => FileFrame.keeps key (flush_keeps env start received))
    (fun _ _ => MetadataFrame.keeps key (updateMetadata_keeps env key _)) stream range

/-- A deletion is about its own key. -/
theorem delete_keeps : Keeps (Frame key) (delete env key) := by
  refine keeps_bind (keeps_update fun disk => ?_) fun _ => ?_
  · exact ⟨fun _ _ => rfl, fun _ _ => rfl, fun _ ne => Or.inl (AList.lookup_erase_ne ne)⟩
  refine keeps_bind (keeps_fsCall env (fun disk => ?_)
    fun disk => Frame.of_eq rfl rfl rfl) fun _ => ?_
  · exact ⟨fun _ ne => AList.lookup_erase_ne ne, fun _ _ => rfl, fun _ _ => Or.inl rfl⟩
  · refine keeps_fsCall env (fun disk => ?_) fun disk => Frame.of_eq rfl rfl rfl
    exact ⟨fun _ _ => rfl, fun _ ne => AList.lookup_erase_ne ne, fun _ _ => Or.inl rfl⟩

end Operations

end DiskStorage
end VideoProxy
