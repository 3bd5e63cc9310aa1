import VideoProxy.Storage.Faults

/-!
# What successful operations commit

An operation that reports success has committed its document to the sidecar and
to the index, whatever the host did on the way.  After any sequence of them, an
index entry is a copy of the sidecar, every sidecar carries its key and version,
and a sidecar without a data file says something about the upstream.
-/

namespace VideoProxy
namespace DiskStorage

open Faulty

/-! ## Calls that succeed -/

section Successes

variable {env : Environment} {key : Key} {before after : Disk}

theorem keeps_of_eq {relation : Disk → Disk → Prop} {computation : DiskM α}
    {exit : Exit ProxyError α} (keeps : Keeps relation computation)
    (ended : computation before = (exit, after)) :
    relation before after := by
  have related := keeps before
  rw [ended] at related
  exact related

/-- Metadata that was written is in the sidecar. -/
theorem writeMetadata_eq_ok {metadata : RangeMetadata}
    (succeeded : writeMetadata env key metadata before = (.ok (), after)) :
    after.sidecars.lookup key = some (.metadata metadata) := by
  have failed {middle : Disk} {reason : ProxyError}
      (ended : (do dropTemporary env key; fail reason : DiskM Unit) middle =
        (.ok (), after)) : False := by
    obtain ⟨_, _, _, rest⟩ := exists_of_bind_eq_ok ended
    cases rest
  obtain ⟨_, first, _, rest⟩ := exists_of_bind_eq_ok succeeded
  obtain ⟨attempted, second, writes, rest⟩ := exists_of_bind_eq_ok rest
  cases attempted with
  | error reason => exact (failed rest).elim
  | ok written =>
    obtain ⟨attempted, third, renames, rest⟩ := exists_of_bind_eq_ok rest
    cases attempted with
    | error reason => exact (failed rest).elim
    | ok renamed =>
      cases rest
      have second_eq := fsCall_eq_ok (eq_of_attempt_ok writes)
      have after_eq := fsCall_eq_ok (eq_of_attempt_ok renames)
      have temporary : second.temporaries.lookup key = some (.metadata metadata) := by
        rw [second_eq]
        exact AList.lookup_insert _
      rw [after_eq]
      simp only [temporary]
      exact AList.lookup_insert _

/-- An update that succeeds changed nothing, or committed its edited document to
the sidecar and to the index. -/
theorem updateMetadata_eq_ok {edit : RangeMetadata → RangeMetadata × Bool}
    (succeeded : updateMetadata env key edit before = (.ok (), after)) :
    Unchanged before after ∨ ∃ metadata, (edit metadata).2 = true ∧
        after.index.lookup key = some (stamp key (edit metadata).1) ∧
        after.sidecars.lookup key = some (.metadata (stamp key (edit metadata).1)) := by
  obtain ⟨metadata, middle, current, rest⟩ := exists_of_bind_eq_ok succeeded
  have unchanged := keeps_of_eq (currentMetadata_unchanged env key) current
  cases changed : (edit metadata).2 with
  | false =>
    simp only [changed] at rest
    cases rest
    exact Or.inl unchanged
  | true =>
    simp only [changed] at rest
    obtain ⟨_, written, writes, rest⟩ := exists_of_bind_eq_ok rest
    have documented := writeMetadata_eq_ok writes
    cases rest
    exact Or.inr ⟨metadata, changed, indexInsert_lookup env key _ _, documented⟩

end Successes

/-! ## Committed documents -/

/-- A document as an update commits it. -/
structure Committed (key : Key) (disk : Disk) (metadata : RangeMetadata) : Prop where
  version : metadata.version = rangeMetadataVersion
  owner : metadata.key = some key
  informative : Opened key disk ∨ metadata.totalSize ≠ none ∨ metadata.contentType ≠ none

/-- The documents of a key between operations that succeed. -/
structure Settled (key : Key) (disk : Disk) : Prop where
  synced : ∀ metadata, disk.index.lookup key = some metadata →
    disk.sidecars.lookup key = some (.metadata metadata)
  committed : ∀ document, disk.sidecars.lookup key = some document →
    ∃ metadata, document = .metadata metadata ∧ Committed key disk metadata

section Settled

variable {env : Environment} {key : Key} {before after : Disk}

theorem Settled.of_same (settled : Settled key before) (index : after.index = before.index)
    (sidecars : after.sidecars = before.sidecars) (opened : Opened key before → Opened key after) :
    Settled key after := by
  refine ⟨fun metadata found => ?_, fun document found => ?_⟩
  · rw [index] at found
    rw [sidecars]
    exact settled.synced metadata found
  · rw [sidecars] at found
    obtain ⟨metadata, document_eq, committed⟩ :=
      settled.committed document found
    exact ⟨metadata, document_eq, committed.version, committed.owner,
      committed.informative.imp_left opened⟩

theorem Settled.frame {other : Key} (settled : Settled other before)
    (frame : Frame key before after) (ne : other ≠ key) :
    Settled other after := by
  refine ⟨fun metadata found => ?_, fun document found => ?_⟩
  · rw [frame.sidecars other ne]
    rcases frame.index other ne with same | dropped
    · exact settled.synced metadata (same ▸ found)
    · rw [dropped] at found
      cases found
  · rw [frame.sidecars other ne] at found
    obtain ⟨metadata, document_eq, committed⟩ :=
      settled.committed document found
    refine ⟨metadata, document_eq, committed.version, committed.owner, ?_⟩
    unfold Opened
    rw [frame.files other ne]
    exact committed.informative

theorem Settled.of_committed {metadata : RangeMetadata}
    (indexed : after.index.lookup key = some (stamp key metadata))
    (documented : after.sidecars.lookup key = some (.metadata (stamp key metadata)))
    (informative : Opened key after ∨ metadata.totalSize ≠ none ∨ metadata.contentType ≠ none) :
    Settled key after := by
  refine ⟨fun other found => ?_, fun document found => ?_⟩
  · rw [indexed] at found
    cases found
    exact documented
  · rw [documented] at found
    cases found
    refine ⟨_, rfl, stamp_version key metadata, stamp_key key metadata, ?_⟩
    rw [stamp_totalSize, stamp_contentType]
    exact informative

theorem updateMetadata_settled {edit : RangeMetadata → RangeMetadata × Bool}
    (settled : Settled key before)
    (succeeded : updateMetadata env key edit before = (.ok (), after))
    (informative : ∀ metadata, (edit metadata).2 = true →
      Opened key before ∨ (edit metadata).1.totalSize ≠ none ∨
        (edit metadata).1.contentType ≠ none) :
    Settled key after := by
  have files := (keeps_of_eq (updateMetadata_keeps env key edit) succeeded).sameFiles
  have opened : Opened key before → Opened key after := by
    unfold Opened
    rw [files]
    exact id
  rcases updateMetadata_eq_ok succeeded with
    unchanged | ⟨metadata, changed, indexed, documented⟩
  · exact settled.of_same unchanged.index unchanged.sidecars opened
  · exact Settled.of_committed indexed documented ((informative metadata changed).imp_left opened)

theorem upstreamEdit_informative {upstream : UpstreamMeta} {metadata : RangeMetadata}
    (changed : (upstreamEdit upstream metadata).2 = true) :
    (upstreamEdit upstream metadata).1.totalSize ≠ none ∨
      (upstreamEdit upstream metadata).1.contentType ≠ none := by
  rw [upstreamEdit_totalSize, upstreamEdit_contentType]
  cases type : upstream.contentType with
  | some contentType => exact Or.inr (by simp)
  | none =>
    left
    cases size : upstream.totalSize with
    | none => simp [upstreamEdit, type, size, totalSizeEdit,
        contentTypeEdit] at changed
    | some total =>
      by_cases positive : 0 < total
      · simp [Option.filter, positive]
      · simp [upstreamEdit, type, size, totalSizeEdit, contentTypeEdit, positive] at changed

theorem recordUpstreamMeta_settled {upstream : UpstreamMeta} (settled : Settled key before)
    (succeeded : recordUpstreamMeta env key upstream before = (.ok (), after)) :
    Settled key after := by
  unfold recordUpstreamMeta at succeeded
  split at succeeded
  · cases succeeded
    exact settled
  · exact updateMetadata_settled settled succeeded fun _ changed =>
      Or.inr (upstreamEdit_informative changed)

/-- The file of a key is there, and its documents are as they were. -/
structure Holding (key : Key) (before after : Disk) : Prop where
  opened : Opened key after
  sidecars : after.sidecars = before.sidecars
  index : after.index = before.index

variable {middle : Disk} {received : Bytes} {start : Nat} {stream : ByteStream}

theorem Holding.grows (holding : Holding key before middle) (grows : Grows key middle after) :
    Holding key before after :=
  ⟨grows.opened holding.opened, grows.sameSidecars.trans holding.sidecars,
    grows.sameIndex.trans holding.index⟩

theorem openFile_holding (succeeded : openFile env key before = (.ok (), after)) :
    Holding key before after := by
  have grows := keeps_of_eq (openFile_grows env) succeeded
  have opened := openFile_opened env (congrArg Prod.fst succeeded)
  rw [succeeded] at opened
  exact ⟨opened, grows.sameSidecars, grows.sameIndex⟩

theorem flush_holding (holding : Holding key before middle)
    (succeeded : flush env key start received middle = (.ok (), after)) :
    Holding key before after := by
  obtain ⟨file, found⟩ := holding.opened
  have frame := keeps_of_eq (flush_keeps env start received) succeeded
  refine ⟨?_, frame.sameSidecars.trans holding.sidecars, frame.sameIndex.trans holding.index⟩
  rw [fsCall_eq_ok succeeded]
  exact ⟨_, @onFile_lookup { middle with clock := middle.clock + 1 } key file found _⟩

theorem flush_reaches {file : SparseFile}
    (nonempty : received ≠ []) (opened : before.files.lookup key = some file)
    (succeeded : flush env key start received before = (.ok (), after)) :
    ∃ flushed, after.files.lookup key = some flushed ∧
      start + received.length ≤ flushed.length := by
  rw [fsCall_eq_ok succeeded]
  refine ⟨_, @onFile_lookup { before with clock := before.clock + 1 } key file opened _, ?_⟩
  rw [SparseFile.write_length _ _ nonempty]
  exact Nat.le_max_right _ _

/-- What was flushed and synced is recorded. -/
theorem persist_eq_ok (nonempty : received ≠ []) (holding : Holding key before middle)
    (succeeded : persist env key start received middle = (.ok none, after)) :
    ∃ flushed file, Holding key before flushed ∧ flushed.files.lookup key = some file ∧
      start + received.length ≤ file.length ∧
      recordCompletedRange env key start (start + (received.length - 1)) flushed =
        (.ok (), after) := by
  obtain ⟨attempted, synced, flushes, rest⟩ := exists_of_bind_eq_ok succeeded
  cases attempted with
  | error reason => cases rest
  | ok _ =>
    obtain ⟨_, flushed, flushes, syncs⟩ :=
      exists_of_bind_eq_ok (eq_of_attempt_ok flushes)
    have held := (flush_holding holding flushes).grows (keeps_of_eq (tickCall_grows env) syncs)
    obtain ⟨file, opened⟩ := holding.opened
    obtain ⟨grown, isGrown, reaches⟩ := flush_reaches nonempty opened flushes
    cases finish_eq : checkedAdd start (received.length - 1) with
    | none =>
      simp only [finish_eq] at rest
      cases rest
    | some finish =>
      simp only [finish_eq] at rest
      obtain ⟨_, recorded, records, rest⟩ := exists_of_bind_eq_ok rest
      cases rest
      rw [(checkedAdd_eq_some_iff.mp finish_eq).1]
      rw [fsCall_eq_ok syncs] at held records
      exact ⟨_, grown, held, isGrown, reaches, records⟩

/-- Bytes whose reception ended without a failure may be recorded. -/
theorem receive_recordable {maxLength : Option Nat} {reception : Reception}
    (receives : receive env key start maxLength received stream before = (.ok reception, after))
    (complete : reception.failure = none) :
    reception.recordable = true := by
  obtain ⟨_, -, whole⟩ := (yields_receive env (fun _ => True) (fun _ _ => True)
    (fun _ _ _ _ _ => yields_true _) trivial before trivial).2 reception (by rw [receives])
  exact (whole complete).2

theorem write_eq_ok {range : Nat × Nat} {written : Nat}
    (succeeded : write env key stream range before = (.ok written, after)) :
    written = 0 ∧ Holding key before after ∨
      0 < written ∧ ∃ middle file, Holding key before middle ∧
        middle.files.lookup key = some file ∧ range.1 + written ≤ file.length ∧
        recordCompletedRange env key range.1 (range.1 + (written - 1)) middle =
          (.ok (), after) := by
  obtain ⟨maximum, first, declared, rest⟩ := exists_of_bind_eq_ok succeeded
  obtain ⟨_, second, ensured, rest⟩ := exists_of_bind_eq_ok rest
  obtain ⟨_, third, opens, rest⟩ := exists_of_bind_eq_ok rest
  obtain ⟨_, fourth, seeks, rest⟩ := exists_of_bind_eq_ok rest
  obtain ⟨reception, fifth, receives, rest⟩ := exists_of_bind_eq_ok rest
  obtain ⟨syncFailure, sixth, settles, rest⟩ := exists_of_bind_eq_ok rest
  have checked : Grows key before first :=
    keeps_of_eq (keeps_ofExcept _) declared
  have ticked : Grows key before second := trans_of (Grows key) checked
    (keeps_of_eq (tickCall_grows env) ensured)
  have opened := openFile_holding opens
  have held : Holding key before fifth :=
    ((Holding.mk opened.opened (opened.sidecars.trans ticked.sameSidecars)
      (opened.index.trans ticked.sameIndex)).grows (keeps_of_eq (seek_grows env _) seeks)).grows
        (keeps_of_eq (receive_grows env _ _ _ _) receives)
  -- a failure of the stream or of the sync would be the result
  cases failure : reception.failure.or syncFailure with
  | some reason =>
    simp only [failure] at rest
    cases rest
  | none =>
    simp only [failure] at rest
    cases rest
    obtain ⟨complete, rfl⟩ := Option.or_eq_none_iff.mp failure
    have recordable := receive_recordable receives complete
    unfold settle at settles
    split at settles
    · rename_i persists
      exact Or.inr ⟨persists.1, persist_eq_ok (List.length_pos_iff.mp persists.1) held settles⟩
    · rename_i empty
      rw [recordable, and_iff_left rfl, Nat.not_lt, Nat.le_zero] at empty
      cases settles
      exact Or.inl ⟨empty, held⟩

theorem write_settled {range : Nat × Nat} {written : Nat} (settled : Settled key before)
    (succeeded : write env key stream range before = (.ok written, after)) :
    Settled key after := by
  rcases write_eq_ok succeeded with
    ⟨-, holding⟩ | ⟨-, middle, file, holding, -, -, records⟩
  · exact settled.of_same holding.index holding.sidecars fun _ => holding.opened
  · exact updateMetadata_settled
      (settled.of_same holding.index holding.sidecars fun _ => holding.opened)
      records fun _ _ => Or.inl holding.opened

theorem delete_eq_ok (succeeded : delete env key before = (.ok (), after)) :
    after.files.lookup key = none ∧ after.sidecars.lookup key = none ∧
      after.index.lookup key = none := by
  obtain ⟨_, first, updates, removals⟩ := exists_of_bind_eq_ok succeeded
  cases updates
  obtain ⟨_, second, removes, rest⟩ := exists_of_bind_eq_ok removals
  have second_eq := fsCall_eq_ok removes
  have after_eq := fsCall_eq_ok rest
  rw [after_eq, second_eq]
  exact ⟨AList.lookup_erase _ _, AList.lookup_erase _ _, AList.lookup_erase _ _⟩

end Settled

end DiskStorage
end VideoProxy
