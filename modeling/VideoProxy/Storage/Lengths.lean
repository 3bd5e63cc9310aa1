import VideoProxy.Storage.Refinement

/-!
# The length of the data file

Whatever the host does, a write leaves the data file within the larger of its
old length and the end of the accepted bytes and does not cut it, and a write that
succeeds reports the number of the accepted bytes.  On a calm host a write whose stream is
accepted to its end succeeds.
-/

namespace VideoProxy
namespace DiskStorage

open Faulty

/-- The data file of a key, if there is one, is not longer than a bound. -/
def LengthLe (key : Key) (bound : Nat) (disk : Disk) : Prop :=
  ∀ file, disk.files.lookup key = some file → file.length ≤ bound

section Lengths

variable (env : Environment) {key : Key} {bound : Nat}

theorem LengthLe.of_files {before after : Disk} (same : after.files = before.files)
    (bounded : LengthLe key bound before) :
    LengthLe key bound after := by
  intro file found
  rw [same] at found
  exact bounded file found

variable {disk : Disk} {start : Nat} {received : Bytes}

theorem onFile_write_length (bounded : LengthLe key bound disk)
    {bytes : Bytes} (fits : bytes ≠ [] → start + bytes.length ≤ bound) :
    LengthLe key bound (disk.onFile key fun file => file.write start bytes) := by
  cases found : disk.files.lookup key with
  | none =>
    unfold Disk.onFile
    rw [found]
    exact bounded
  | some file =>
    intro after after_eq
    rw [onFile_lookup found] at after_eq
    cases after_eq
    exact SparseFile.write_length_le (bounded file found) fits

theorem landPart_length (bounded : LengthLe key bound disk)
    (fits : received ≠ [] → start + received.length ≤ bound) :
    LengthLe key bound (landPart env key start received disk) := by
  refine onFile_write_length bounded fun nonempty => ?_
  have whole := fits (by
    rintro rfl
    simp at nonempty)
  have part := List.length_take_le' (min (env.landed disk.clock) (maxFileOffset - start)) received
  omega

theorem fsCall_length {done broken : Disk → Disk} (keepsDone : ∀ disk, LengthLe key bound disk →
      LengthLe key bound (done disk))
    (keepsBroken : ∀ disk, LengthLe key bound disk → LengthLe key bound (broken disk)) :
    Yields (LengthLe key bound) (fsCall env done broken) fun _ => True := by
  have carried : Keeps (fun before after => LengthLe key bound before → LengthLe key bound after)
      (fsCall env done broken) :=
    keeps_fsCall env (fun disk bounded => keepsDone { disk with clock := disk.clock + 1 } bounded)
      (fun disk bounded =>
        keepsBroken { disk with clock := disk.clock + 1 } bounded)
  exact fun disk bounded => ⟨carried disk bounded, fun _ _ => trivial⟩

theorem tickCall_length : Yields (LengthLe key bound) (fsCall env id id) fun _ => True :=
  fsCall_length env (fun _ => id) (fun _ => id)

theorem metadataFrame_length {computation : DiskM α}
    (keeps : Keeps (MetadataFrame key) computation) :
    Yields (LengthLe key bound) computation fun _ => True :=
  fun disk bounded =>
    ⟨bounded.of_files (keeps disk).sameFiles, fun _ _ => trivial⟩

theorem openFile_length : Yields (LengthLe key bound) (openFile env key) fun _ => True := by
  refine fsCall_length env (fun disk bounded => ?_) (fun _ => id)
  split
  · exact bounded
  · intro file found
    rw [AList.lookup_insert] at found
    cases found
    exact Nat.zero_le _

theorem seek_length (position : Nat) :
    Yields (LengthLe key bound) (seek env position) fun _ => position ≤ maxFileOffset := by
  refine yields_bind (tickCall_length env) fun _ _ => ?_
  split
  · exact yields_fail _ _
  · exact yields_pure (by omega)

/-- Buffered bytes stay within the bound. -/
theorem writeAll_length (fits : received ≠ [] → start + received.length ≤ bound) :
    Yields (LengthLe key bound) (writeAll env key start received)
      fun _ => start + received.length ≤ maxFileOffset := by
  refine yields_bind (fsCall_length env (fun _ bounded => landPart_length env bounded fits)
    (fun _ bounded => landPart_length env bounded fits)) fun _ _ => ?_
  split
  · exact yields_fail _ _
  · exact yields_pure (by omega)

/-- What the write loop returns: a beginning of the accepted bytes within the
file offsets, and all of them if nothing failed. -/
structure Received (range : Nat × Nat) (received : Bytes) (stream : ByteStream)
    (reception : Reception) : Prop where
  within : reception.received.length ≤ (acceptedFrom range received stream).length
  offset : range.1 + reception.received.length ≤ maxFileOffset
  whole : reception.failure = none → reception.received = acceptedFrom range received stream ∧
      abortFrom range received stream = none

/-- The accepted bytes stay within the bound. -/
theorem receive_length {range : Nat × Nat} {maximum : Option Nat}
    (declared : declaredLength range = .ok maximum)
    (offset : range.1 ≤ maxFileOffset) {stream : ByteStream}
    (fits : accepted range stream ≠ [] → range.1 + (accepted range stream).length ≤ bound) :
    Yields (LengthLe key bound) (receive env key range.1 maximum [] stream)
      (Received range [] stream) := by
  have begins : range.1 + ([] : Bytes).length ≤ maxFileOffset := offset
  refine (yields_receive env (LengthLe key bound)
    (fun received rest => range.1 + received.length ≤ maxFileOffset ∧
      acceptedFrom range received rest = accepted range stream ∧
      abortFrom range received rest = abortFrom range [] stream)
    (fun received chunk rest held allowed => ?_) ⟨begins, rfl, rfl⟩).weaken
      fun reception ⟨rest, held, whole⟩ => ?_
  · obtain ⟨-, accepted_eq, abort_eq⟩ := held
    rw [declaredLength_any declared, not_not] at allowed
    rw [acceptedFrom, if_pos allowed] at accepted_eq
    rw [abortFrom, if_pos allowed] at abort_eq
    have longer := length_le_acceptedFrom range (received ++ chunk) rest
    rw [accepted_eq] at longer
    refine (writeAll_length env fun nonempty => ?_).weaken
      fun _ within => ⟨within, accepted_eq, abort_eq⟩
    have positive := List.length_pos_iff.mpr nonempty
    have whole := fits (List.length_pos_iff.mp (by omega))
    omega
  · obtain ⟨within, accepted_eq, abort_eq⟩ := held
    have shorter := length_le_acceptedFrom range reception.received rest
    rw [accepted_eq] at shorter
    refine ⟨shorter, within, fun complete => ?_⟩
    obtain ⟨rfl, -⟩ := whole complete
    exact ⟨accepted_eq, abort_eq.symm⟩

theorem persist_length (fits : received ≠ [] → start + received.length ≤ bound) :
    Yields (LengthLe key bound) (persist env key start received) fun _ => True := by
  have flushed : Yields (LengthLe key bound) (flush env key start received) fun _ => True :=
    fsCall_length env (fun _ bounded => onFile_write_length bounded fits)
      (fun _ bounded => landPart_length env bounded fits)
  refine yields_bind (yields_attempt (yields_bind flushed
    fun _ _ => tickCall_length env)) fun ended _ => ?_
  cases ended with
  | error reason => exact yields_pure trivial
  | ok value =>
    simp only
    split
    · exact yields_fail _ _
    · exact yields_bind (metadataFrame_length (updateMetadata_keeps env key _))
        fun _ _ => yields_pure trivial

/-- The data file after a write, and what a write that succeeds reports. -/
theorem write_length {range : Nat × Nat} {stream : ByteStream} (fits : accepted range stream ≠ [] →
      range.1 + (accepted range stream).length ≤ bound) :
    Yields (LengthLe key bound) (write env key stream range)
      fun written => written = (accepted range stream).length ∧ abortFrom range [] stream = none ∧
        range.1 + written ≤ maxFileOffset := by
  refine yields_bind (yields_ofExcept _) fun maximum declared => ?_
  refine yields_bind (tickCall_length env) fun _ _ => ?_
  refine yields_bind (openFile_length env) fun _ _ => ?_
  refine yields_bind (seek_length env range.1) fun _ sought => ?_
  refine yields_bind (receive_length env declared sought fits) fun reception held => ?_
  have part : reception.received ≠ [] → range.1 + reception.received.length ≤ bound := by
    intro nonempty
    have positive := List.length_pos_iff.mpr nonempty
    have within := held.within
    have whole := fits (List.length_pos_iff.mp (positive.trans_le within))
    unfold accepted at whole
    omega
  have settled : Yields (LengthLe key bound) (settle env key range.1 reception) fun _ => True := by
    unfold settle
    split
    · exact persist_length env part
    · exact yields_pure trivial
  refine yields_bind settled fun syncFailure _ => ?_
  cases failed : reception.failure with
  | some reason => exact yields_fail _ _
  | none =>
    obtain ⟨received_eq, complete⟩ := held.whole failed
    cases syncFailure with
    | some reason => exact yields_fail _ _
    | none =>
      refine yields_pure ⟨?_, complete, held.offset⟩
      rw [received_eq]
      rfl

theorem delete_length : Yields (LengthLe key bound) (delete env key) fun _ => True := by
  refine yields_bind (yields_update fun _ => id) fun _ _ => ?_
  refine yields_bind (fsCall_length env (fun disk _ => ?_) (fun _ => id))
    fun _ _ => fsCall_length env (fun _ => id) (fun _ => id)
  intro file found
  rw [AList.lookup_erase] at found
  cases found

/-- A deletion that succeeds has removed the data file. -/
theorem delete_removes (succeeded : (delete env key disk).1 = .ok ()) :
    (delete env key disk).2.files.lookup key = none := by
  unfold delete removeData removeSidecar at succeeded ⊢
  rw [bind_of_ok (update_apply _ disk)] at succeeded ⊢
  obtain ⟨_, middle, removed, _⟩ := exists_of_bind_ok succeeded
  rw [bind_of_ok removed]
  have gone : middle.files.lookup key = none := by
    unfold fsCall at removed
    cases outcome : env.outcome disk.clock with
    | success =>
      simp only [outcome] at removed
      cases removed
      exact AList.lookup_erase _ _
    | failure message =>
      simp only [outcome] at removed
      cases removed
    | stop done => cases done <;> simp [outcome] at removed
  have same : Keeps (fun before after : Disk => after.files = before.files) (fsCall env
        (fun disk => { disk with sidecars := disk.sidecars.erase key }) id) :=
    keeps_fsCall env (fun _ => rfl) (fun _ => rfl)
  rw [same middle]
  exact gone

end Lengths

/-! ## Data files are not cut -/

/-- The data file of a key, if there was one, is still there and as long as it
was. -/
def Longer (key : Key) (before after : Disk) : Prop :=
  ∀ file, before.files.lookup key = some file →
    ∃ grown, after.files.lookup key = some grown ∧ file.length ≤ grown.length

section Longer

variable (env : Environment) {key : Key}

theorem Longer.of_files {before after : Disk} (same : after.files = before.files) :
    Longer key before after := by
  intro file found
  rw [same]
  exact ⟨file, found, Nat.le_refl _⟩

instance : Std.Refl (Longer key) where
  refl _ := .of_files rfl

instance : IsTrans Disk (Longer key) where
  trans _ _ _ left right file found := by
    obtain ⟨middle, isMiddle, first⟩ := left file found
    obtain ⟨grown, isGrown, second⟩ := right middle isMiddle
    exact ⟨grown, isGrown, first.trans second⟩

/-- A write does not shorten a file. -/
theorem onFile_write_longer (start : Nat) (bytes : Bytes) (disk : Disk) :
    Longer key disk (disk.onFile key fun file => file.write start bytes) :=
  fun _ found =>
    ⟨_, onFile_lookup found _, SparseFile.length_le_write_length _ _ _⟩

theorem tickCall_longer : Keeps (Longer key) (fsCall env id id) :=
  keeps_fsCall env (fun _ => .of_files rfl) (fun _ => .of_files rfl)

theorem openFile_longer : Keeps (Longer key) (openFile env key) := by
  refine keeps_fsCall env (fun disk file found => ?_) (fun _ => .of_files rfl)
  simp only [found]
  exact ⟨file, rfl, Nat.le_refl _⟩

theorem writeAll_longer (start : Nat) (received : Bytes) :
    Keeps (Longer key) (writeAll env key start received) := by
  refine keeps_bind (keeps_fsCall env
    (fun disk => onFile_write_longer start _ { disk with clock := disk.clock + 1 })
    (fun disk => onFile_write_longer start _ { disk with clock := disk.clock + 1 }))
    fun _ => ?_
  split
  · exact keeps_fail _
  · exact keeps_pure _

theorem flush_longer (start : Nat) (received : Bytes) :
    Keeps (Longer key) (flush env key start received) :=
  keeps_fsCall env (fun disk => onFile_write_longer start _ { disk with clock := disk.clock + 1 })
    (fun disk => onFile_write_longer start _ { disk with clock := disk.clock + 1 })

/-- A write does not cut the data file, whatever becomes of it. -/
theorem write_longer (stream : ByteStream) (range : Nat × Nat) :
    Keeps (Longer key) (write env key stream range) :=
  keeps_write env (tickCall_longer env) (openFile_longer env) (writeAll_longer env)
    (flush_longer env) (fun _ _ disk => .of_files (updateMetadata_keeps env key _ disk).sameFiles)
    stream range

end Longer

/-! ## Writes that succeed -/

section Succeeding

variable {env : Environment} (calm : env.Calm)
include calm

theorem loadMetadata_succeeds (key : Key) (disk : Disk) :
    ∃ loaded after, loadMetadata env key disk = (.ok loaded, after) := by
  unfold loadMetadata
  rw [bind_of_ok (fsQuery_calm calm _ disk)]
  cases disk.sidecars.lookup key with
  | none => exact ⟨_, _, rfl⟩
  | some document =>
    cases document with
    | malformed => exact ⟨_, _, rfl⟩
    | metadata metadata =>
      exact ⟨_, _, bind_of_ok (dataFileSize_calm calm key _) _⟩

/-- On a calm file system every update succeeds. -/
theorem updateMetadata_succeeds (key : Key) (edit : RangeMetadata → RangeMetadata × Bool)
    (disk : Disk) :
    ∃ after, updateMetadata env key edit disk = (.ok (), after) := by
  have current : ∃ metadata after, currentMetadata env key disk = (.ok metadata, after) := by
    unfold currentMetadata
    rw [bind_of_ok (gets_apply _ disk)]
    cases disk.index.lookup key with
    | some cached => exact ⟨_, _, rfl⟩
    | none =>
      obtain ⟨loaded, after, loads⟩ := loadMetadata_succeeds calm key disk
      exact ⟨_, _, bind_of_ok loads _⟩
  obtain ⟨metadata, middle, found⟩ := current
  unfold updateMetadata
  rw [bind_of_ok found]
  simp only
  split
  · obtain ⟨_, _, written⟩ := writeMetadata_calm calm key middle (stamp key (edit metadata).1)
    rw [bind_of_ok written]
    exact ⟨_, rfl⟩
  · exact ⟨_, rfl⟩

theorem persist_succeeds (key : Key) {start : Nat} {received : Bytes}
    (word : start + received.length ≤ u64Max) (disk : Disk) :
    ∃ after, persist env key start received disk = (.ok none, after) := by
  have flushes : (do flush env key start received; syncData env : DiskM Unit) disk = (.ok (), _) :=
    (bind_of_ok (fsCall_calm calm _ _ disk) _).trans (fsCall_calm calm _ _ _)
  unfold persist
  rw [bind_of_ok (attempt_of_ok flushes)]
  simp only [checkedAdd_of_le (show start + (received.length - 1) ≤ u64Max by
    omega)]
  obtain ⟨after, recorded⟩ := updateMetadata_succeeds calm key
    (completedEdit start (start + (received.length - 1))) _
  exact ⟨after, bind_of_ok recorded _⟩

/-- On a calm host a write whose stream is accepted to its end succeeds. -/
theorem write_succeeds (key : Key) {range : Nat × Nat} {stream : ByteStream}
    (feasible : Feasible range stream) {maximum : Option Nat}
    (declared : declaredLength range = .ok maximum) (complete : abortFrom range [] stream = none)
    (disk : Disk) :
    ∃ after, write env key stream range disk = (.ok (accepted range stream).length, after) := by
  obtain ⟨limit, bounded, fits⟩ : ∃ limit,
      (∀ file, disk.files.lookup key = some file → file.length ≤ limit) ∧
        range.1 + (accepted range stream).length ≤ limit := by
    refine ⟨((disk.files.lookup key).elim 0 SparseFile.length) +
      (range.1 + (accepted range stream).length), fun file found => ?_,
      Nat.le_add_left _ _⟩
    rw [found]
    exact Nat.le_add_right _ _
  have backed : Backed limit key disk Resource.empty := by
    refine ⟨fun _ _ absurdly => ?_, bounded, fun _ absurdly => ?_⟩
    · cases absurdly
    · cases absurdly
  have offsets := feasible.offsets
  obtain ⟨opened, opens, starts⟩ := openFile_calm calm (backed.tick (disk.clock + 1)) range.1
  obtain ⟨middle, receives, _⟩ := receive_calm calm declared stream
    feasible.chunks offsets (fun _ => fits) (starts.tick (opened.clock + 1))
  have word : range.1 + (accepted range stream).length ≤ u64Max := by
    unfold maxFileOffset at offsets
    unfold u64Max
    omega
  have settles : ∃ after, settle env key range.1
      ⟨accepted range stream, none, true⟩ middle = (.ok none, after) := by
    unfold settle
    split
    · exact persist_succeeds calm key word middle
    · exact ⟨_, rfl⟩
  obtain ⟨after, settled⟩ := settles
  have created : ensureDirExists env disk = (.ok (), { disk with clock := disk.clock + 1 }) :=
    fsCall_calm calm _ _ disk
  refine ⟨after, ?_⟩
  rw [complete] at receives
  unfold write
  rw [declared, ofExcept_ok, bind_of_ok (pure_apply maximum disk), bind_of_ok created, bind_of_ok
    opens, bind_of_ok (seek_calm calm (by omega) opened), bind_of_ok receives]
  change (settle env key range.1 ⟨accepted range stream, none, true⟩ >>= _) middle = _
  rw [bind_of_ok settled]
  rfl

end Succeeding

end DiskStorage
end VideoProxy
