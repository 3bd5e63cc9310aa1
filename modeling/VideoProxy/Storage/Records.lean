import VideoProxy.Storage.Commits

/-!
# What one write records

However a write ends, the offsets that its key has recorded since are a beginning
of the written range, and the data file holds the first bytes of the stream there.
This needs no more of the documents than that their ranges are in order, which
every operation keeps up, whatever fails.
-/

namespace VideoProxy
namespace DiskStorage

open Faulty IntervalTable

/-- An index entry or a sidecar of the key. -/
def IsDocument (disk : Disk) (key : Key) (metadata : RangeMetadata) : Prop :=
  disk.index.lookup key = some metadata ∨ disk.sidecars.lookup key = some (.metadata metadata)

/-- A document of the key lists the offset. -/
def Recorded (disk : Disk) (key : Key) (offset : Nat) : Prop :=
  ∃ metadata, IsDocument disk key metadata ∧ Covers metadata.completed offset

/-- A document whose ranges are in order and end in machine words. -/
structure Tidy (metadata : RangeMetadata) : Prop where
  coalesced : Coalesced metadata.completed
  words : ∀ range ∈ metadata.completed, range.2 ≤ u64Max

/-- The documents of a key are tidy. -/
abbrev AllTidy (key : Key) (disk : Disk) : Prop :=
  Known (fun _ => Tidy) key disk

/-- The offsets of a block that follows the start are recorded, and no other ones
that were not recorded before; the data file holds the block. -/
structure Appends (key : Key) (start : Nat) (block : Bytes) (before after : Disk) : Prop where
  recorded : ∀ offset, ¬Recorded before key offset → (Recorded after key offset ↔
      start ≤ offset ∧ offset < start + block.length)
  holds : ∀ index byte, block[index]? = some byte → ∃ file, after.files.lookup key = some file ∧
      file.cell (start + index) = some byte

theorem Known.of_isDocument {holds : Disk → RangeMetadata → Prop} {key : Key} {disk : Disk}
    {metadata : RangeMetadata} (known : Known holds key disk)
    (document : IsDocument disk key metadata) :
    holds disk metadata :=
  document.elim (known.indexed metadata) (known.documented metadata)

theorem tidy_initial : Tidy {} :=
  ⟨Coalesced.nil, fun _ absent => absurd absent List.not_mem_nil⟩

theorem Tidy.stamp {metadata : RangeMetadata} (tidy : Tidy metadata) (key : Key) :
    Tidy (stamp key metadata) := by
  refine ⟨?_, ?_⟩
  · rw [stamp_completed]
    exact tidy.coalesced
  · rw [stamp_completed]
    exact tidy.words

/-! ## The documents during a write -/

section Documents

variable {before after : Disk} {key : Key} {start length : Nat}
  {metadata : RangeMetadata}

/-- A document that lists the whole new range or nothing new. -/
structure Grown (before : Disk) (key : Key) (start length : Nat) (metadata : RangeMetadata) : Prop
    extends Tidy metadata where
  within : ∀ offset, Covers metadata.completed offset →
    Recorded before key offset ∨ (start ≤ offset ∧ offset < start + length)
  whole : (∀ offset, start ≤ offset → offset < start + length → Covers metadata.completed offset) ∨
    ∀ offset, Covers metadata.completed offset → Recorded before key offset

theorem grown_initial : Grown before key start length {} where
  toTidy := tidy_initial
  within offset covered := absurd covered (not_covers_nil offset)
  whole := .inr fun offset covered => absurd covered (not_covers_nil offset)

theorem Grown.of_isDocument (tidy : Tidy metadata) (document : IsDocument before key metadata) :
    Grown before key start length metadata where
  toTidy := tidy
  within _ covered := .inl ⟨metadata, document, covered⟩
  whole := .inr fun _ covered => ⟨metadata, document, covered⟩

theorem Tidy.completedEdit {finish : Nat} (tidy : Tidy metadata) (ordered : start ≤ finish)
    (word : finish ≤ u64Max) :
    Tidy (completedEdit start finish metadata).1 :=
  ⟨mergeRange_coalesced tidy.coalesced tidy.words ordered word,
    mergeRange_bounded tidy.coalesced tidy.words ordered word tidy.words word⟩

theorem Grown.completedEdit (grown : Grown before key start length metadata) (positive : 0 < length)
    (word : start + (length - 1) ≤ u64Max) :
    Grown before key start length
      (stamp key (completedEdit start (start + (length - 1)) metadata).1) := by
  have ordered : start ≤ start + (length - 1) := Nat.le_add_right _ _
  have covers := covers_mergeRange grown.coalesced grown.words ordered word
  refine ⟨(grown.toTidy.completedEdit ordered word).stamp key, ?_, .inl ?_⟩
  · intro offset covered
    rw [stamp_completed] at covered
    rcases (covers offset).mp covered with old | ⟨lower, upper⟩
    · exact grown.within offset old
    · exact .inr ⟨lower, by omega⟩
  · intro offset lower upper
    rw [stamp_completed]
    exact (covers offset).mpr (.inr ⟨lower, by omega⟩)

/-- Documents that have grown, with the block in the file: all of the block is
recorded, or nothing new. -/
theorem appends_of_grown {block : Bytes}
    (known : Known (fun _ => Grown before key start block.length) key after)
    (holds : ∀ index byte, block[index]? = some byte → ∃ file, after.files.lookup key = some file ∧
        file.cell (start + index) = some byte) :
    ∃ part, part <+: block ∧ Appends key start part before after := by
  by_cases whole : ∃ metadata, IsDocument after key metadata ∧
      ∀ offset, start ≤ offset → offset < start + block.length → Covers metadata.completed offset
  · obtain ⟨metadata, document, covers⟩ := whole
    refine ⟨block, List.prefix_refl block, fun offset fresh => ?_, holds⟩
    constructor
    · rintro ⟨other, otherDocument, covered⟩
      exact ((known.of_isDocument otherDocument).within offset covered).resolve_left fresh
    · rintro ⟨lower, upper⟩
      exact ⟨metadata, document, covers offset lower upper⟩
  · refine ⟨[], List.nil_prefix, fun offset fresh => ?_, fun index byte absent => ?_⟩
    · constructor
      · rintro ⟨other, otherDocument, covered⟩
        rcases (known.of_isDocument otherDocument).whole with covers | old
        · exact absurd ⟨other, otherDocument, covers⟩ whole
        · exact absurd (old offset covered) fresh
      · rintro ⟨lower, upper⟩
        exact absurd upper (Nat.not_lt.mpr lower)
    · cases absent

theorem FileFrame.appends (frame : FileFrame key before after) :
    Appends key start [] before after := by
  refine ⟨fun offset fresh => ?_, fun index byte absent => ?_⟩
  · constructor
    · rintro ⟨metadata, document, covered⟩
      refine absurd ⟨metadata, ?_, covered⟩ fresh
      unfold IsDocument
      rw [← frame.sameIndex, ← frame.sameSidecars]
      exact document
    · rintro ⟨lower, upper⟩
      exact absurd upper (Nat.not_lt.mpr lower)
  · cases absent

end Documents

/-! ## The write -/

section Writing

variable (env : Environment) {before : Disk} {key : Key}

variable {start : Nat} {stream : ByteStream} {block : Bytes} {range : Nat × Nat}

/-- The loop accepts a beginning of the stream that the range allows. -/
theorem receive_accepts {maxLength : Option Nat} {disk : Disk} {reception : Reception}
    (ended : (receive env key start maxLength [] stream disk).1 = .ok reception) :
    reception.received <+: delivered stream ∧ ∀ maximum, maxLength = some maximum →
        reception.received.length ≤ maximum := by
  obtain ⟨rest, ⟨whole, allowed⟩, -⟩ := (yields_receive env (fun _ => True)
    (fun received rest => received ++ delivered rest = delivered stream ∧
      ∀ maximum, maxLength = some maximum → received.length ≤ maximum)
    (fun received chunk rest held accepted => (yields_true _).weaken fun _ _ =>
      ⟨(List.append_assoc ..).trans held.1, fun maximum bound => by
        rw [bound] at accepted
        simpa using accepted⟩)
    ⟨rfl, fun _ _ => Nat.zero_le _⟩ disk trivial).2 reception ended
  exact ⟨whole ▸ List.prefix_append _ _, allowed⟩

/-- The data file holds the block, and the documents are those of before. -/
structure Flushed (before : Disk) (key : Key) (start : Nat) (block : Bytes) (disk : Disk) : Prop
    extends FileFrame key before disk where
  holds : ∀ index byte, block[index]? = some byte → ∃ file, disk.files.lookup key = some file ∧
      file.cell (start + index) = some byte

/-- A flush that succeeds brings the block to the file. -/
theorem flush_flushed (start : Nat) (block : Bytes) :
    Ensures (fun disk => FileFrame key before disk ∧ Opened key disk)
      (flush env key start block) fun exit disk =>
        FileFrame key before disk ∧ (exit = .ok () → Flushed before key start block disk) := by
  have kept {disk : Disk} (frame : FileFrame key before disk) :
      FileFrame key before (flush env key start block disk).2 :=
    trans_of (FileFrame key) frame (flush_keeps env start block disk)
  intro disk held
  refine ⟨kept held.1, fun ended => ⟨kept held.1, fun index byte found => ?_⟩⟩
  have after_eq := fsCall_eq_ok (Prod.ext ended rfl :
    flush env key start block disk = (.ok (), (flush env key start block disk).2))
  obtain ⟨file, opened⟩ := held.2
  obtain ⟨inside, _⟩ := List.getElem?_eq_some_iff.mp found
  refine ⟨file.write start block, ?_, ?_⟩
  · have ticked : ({ disk with clock := disk.clock + 1 } : Disk).files.lookup
        key = some file := opened
    rw [after_eq]
    exact onFile_lookup ticked _
  · rw [SparseFile.cell_write_inside file (Nat.le_add_right _ _) (by omega),
      Nat.add_sub_cancel_left]
    exact found

/-- A beginning of the block is recorded, and the documents stay tidy. -/
def Appended (before : Disk) (key : Key) (start : Nat) (block : Bytes) (after : Disk) : Prop :=
  AllTidy key after ∧ ∃ part, part <+: block ∧ Appends key start part before after

theorem FileFrame.appended {after : Disk} (tidy : AllTidy key before)
    (frame : FileFrame key before after) (start : Nat) (block : Bytes) :
    Appended before key start block after :=
  ⟨tidy.fileFrame frame, [], List.nil_prefix, frame.appends⟩

theorem recordCompletedRange_appended (tidy : AllTidy key before)
    (nonempty : block ≠ []) (word : start + (block.length - 1) ≤ u64Max) :
    Ensures (Flushed before key start block)
      (recordCompletedRange env key start (start + (block.length - 1)))
      fun _ => Appended before key start block := by
  intro disk flushed
  have positive : 0 < block.length := List.length_pos_iff.mpr nonempty
  have grown : Known (fun _ => Grown before key start block.length) key disk := by
    have documents {metadata : RangeMetadata} (document : IsDocument disk key metadata) :
        Grown before key start block.length metadata := by
      unfold IsDocument at document
      rw [flushed.sameIndex, flushed.sameSidecars] at document
      exact Grown.of_isDocument (tidy.of_isDocument document) document
    exact ⟨fun _ found => documents (.inl found), fun _ found => documents (.inr found)⟩
  have known := updateMetadata_known (documentProperty_const grown_initial) env
    (completedEdit start (start + (block.length - 1))) disk
    ⟨grown, fun metadata held => held.completedEdit positive word⟩
  have files := (updateMetadata_keeps env key
    (completedEdit start (start + (block.length - 1))) disk).sameFiles
  refine ⟨⟨fun metadata found => (known.indexed metadata found).toTidy,
    fun metadata found => (known.documented metadata found).toTidy⟩,
    appends_of_grown known ?_⟩
  intro index byte found
  rw [recordCompletedRange, files]
  exact flushed.holds index byte found

theorem persist_appended (tidy : AllTidy key before) (nonempty : block ≠ []) :
    Ensures (fun disk => FileFrame key before disk ∧ Opened key disk) (persist env key start block)
      fun _ => Appended before key start block := by
  have synced : Ensures (Flushed before key start block) (syncData env)
      fun _ => Flushed before key start block :=
    (tickCall_unchanged env).ensures fun _ _ unchanged held =>
      ⟨trans_of (FileFrame key) held.toFileFrame ⟨Frame.of_eq unchanged.files
        unchanged.sidecars unchanged.index, unchanged.sidecars,
        unchanged.index⟩, fun index byte found => by
          rw [unchanged.files]
          exact held.holds index byte found⟩
  refine ensures_persist env ((flush_flushed env start block).weaken (fun _ => id)
    fun _ _ held => ⟨held.1.appended tidy start block, held.2⟩) synced
    (fun _ held => held.toFileFrame.appended tidy start block) fun finish counted => ?_
  obtain ⟨rfl, word⟩ := checkedAdd_eq_some_iff.mp counted
  exact recordCompletedRange_appended env tidy nonempty word

/-- The bound of the loop is the length of the range. -/
theorem declaredLength_le {maxLength : Option Nat} (declared : declaredLength range = .ok maxLength)
    (allowed : ∀ maximum, maxLength = some maximum → block.length ≤ maximum)
    (fits : block ≠ [] → range.1 + block.length ≤ maxFileOffset) :
    block.length ≤ range.2 - range.1 + 1 := by
  unfold declaredLength at declared
  split at declared
  · rename_i unbounded
    by_cases empty : block = []
    · rw [empty]
      exact Nat.zero_le _
    · have fits := fits empty
      rw [unbounded]
      unfold maxFileOffset at fits
      unfold openEnded u64Max
      omega
  · cases length_eq : rangeLength range.1 range.2 with
    | error reason =>
      rw [length_eq] at declared
      cases declared
    | ok length =>
      rw [length_eq] at declared
      cases declared
      obtain ⟨_, _, rfl⟩ := rangeLength_eq_ok_iff.mp length_eq
      exact allowed _ rfl

/-- The state of a write that has opened its file. -/
abbrev Writing (before : Disk) (key : Key) (disk : Disk) : Prop :=
  FileFrame key before disk ∧ Opened key disk

/-- A beginning of the stream that the range allows is recorded, and the documents
stay tidy. -/
def Written (before : Disk) (key : Key) (stream : ByteStream) (range : Nat × Nat)
    (after : Disk) : Prop :=
  AllTidy key after ∧ ∃ part, part <+: delivered stream ∧
    part.length ≤ range.2 - range.1 + 1 ∧ Appends key range.1 part before after

theorem Writing.grows {computation : DiskM α} (keeps : Keeps (Grows key) computation) :
    Ensures (Writing before key) computation fun _ => Writing before key :=
  keeps.ensures fun _ _ grows held =>
    ⟨trans_of (FileFrame key) held.1 grows.toFileFrame, grows.opened held.2⟩

theorem FileFrame.written {after : Disk} (tidy : AllTidy key before)
    (frame : FileFrame key before after) (stream : ByteStream) (range : Nat × Nat) :
    Written before key stream range after :=
  ⟨tidy.fileFrame frame, [], List.nil_prefix, Nat.zero_le _, frame.appends⟩

theorem receive_writing {maximum : Option Nat} (declared : declaredLength range = .ok maximum) :
    Ensures (Writing before key) (receive env key range.1 maximum [] stream)
      fun exit disk => Writing before key disk ∧ ∀ reception, exit = .ok reception →
          reception.received <+: delivered stream ∧
            reception.received.length ≤ range.2 - range.1 + 1 := by
  intro disk held
  refine ⟨Writing.grows (receive_grows env range.1 maximum [] stream) disk held,
    fun reception ended => ?_⟩
  obtain ⟨beginning, allowed⟩ := receive_accepts env ended
  exact ⟨beginning, declaredLength_le declared allowed (receive_bounded env ended)⟩

theorem persist_written (tidy : AllTidy key before) (nonempty : block ≠ [])
    (beginning : block <+: delivered stream) (short : block.length ≤ range.2 - range.1 + 1) :
    Ensures (Writing before key) (persist env key range.1 block)
      fun _ => Written before key stream range := by
  refine (persist_appended env tidy nonempty).weaken (fun _ => id) ?_
  rintro _ after ⟨tidyAfter, part, partOf, appends⟩
  exact ⟨tidyAfter, part, partOf.trans beginning, partOf.length_le.trans short, appends⟩

/-- However a write ends, it has recorded a beginning of its stream. -/
theorem write_written (tidy : AllTidy key before) (stream : ByteStream) (range : Nat × Nat) :
    Written before key stream range (write env key stream range before).2 := by
  have carries (disk after : Disk) (grows : Grows key disk after)
      (frame : FileFrame key before disk) :
      FileFrame key before after :=
    trans_of (FileFrame key) frame grows.toFileFrame
  exact ensures_write env (fun received => received <+: delivered stream ∧
      received.length ≤ range.2 - range.1 + 1) ((tickCall_grows env).ensures carries)
    (fun disk frame => ⟨carries _ _ (openFile_grows env disk) frame, fun ended =>
      ⟨carries _ _ (openFile_grows env disk) frame, openFile_opened env ended⟩⟩)
    (Writing.grows (seek_grows env range.1)) (fun _ declared => receive_writing env declared)
    (fun _ nonempty accepted => persist_written env tidy nonempty accepted.1 accepted.2)
    (fun _ frame => frame.written tidy stream range)
    (fun _ held => held.1.written tidy stream range) before (refl_of (FileFrame key) before)

end Writing

/-! ## Runs -/

section Runs

variable (env : Environment) (config : StorageConfig)

theorem recordUpstreamMeta_tidy (key : Key) (upstream : UpstreamMeta) :
    Ensures (AllTidy key) (recordUpstreamMeta env key upstream) fun _ => AllTidy key := by
  unfold recordUpstreamMeta
  split
  · exact ensures_pure fun _ => id
  · refine (updateMetadata_known (documentProperty_const tidy_initial) env
      _).weaken (fun _ tidy => ⟨tidy, fun metadata held => ?_⟩) fun _ _ => id
    apply Tidy.stamp
    refine ⟨?_, ?_⟩
    · rw [upstreamEdit_completed]
      exact held.coalesced
    · rw [upstreamEdit_completed]
      exact held.words

/-- Every operation keeps the documents of every key tidy. -/
theorem perform_tidy {disk : Disk} (tidy : ∀ key, AllTidy key disk) (operation : Operation)
    (key : Key) :
    AllTidy key (operation.perform env config disk).2 := by
  have property : DocumentProperty fun _ : Disk => Tidy :=
    documentProperty_const tidy_initial
  by_cases same : key = operation.key
  · rw [same]
    cases operation with
    | write own stream range =>
      simp only [Operation.perform, bind_pure_state]
      exact (write_written env (tidy own) stream range).1
    | recordUpstreamMeta own upstream =>
      exact recordUpstreamMeta_tidy env own upstream disk (tidy own)
    | delete own => exact delete_known env disk (tidy own)
    | checkRange own range =>
      simp only [Operation.perform, bind_pure_state]
      exact checkRange_known property env range disk (tidy own)
    | upstreamMeta own =>
      simp only [Operation.perform, bind_pure_state]
      exact (withMetadata_known property env _ disk (tidy own)).1
    | read own range =>
      simp only [Operation.perform, bind_pure_state]
      exact read_known property env config range disk (tidy own)
  · exact (tidy key).frame (perform_keeps env config operation disk) same

theorem step_tidy {disk : Disk} (tidy : ∀ key, AllTidy key disk) (operation : Operation)
    (key : Key) :
    AllTidy key (operation.step env config disk) := by
  refine Operation.step_holds (AllTidy key) (perform_tidy env config tidy operation key)
    fun after kept => ?_
  refine ⟨fun metadata found => ?_, kept.documented⟩
  simp only [Disk.reopen, AList.lookup_empty] at found
  cases found

theorem run_tidy {disk : Disk} (tidy : ∀ key, AllTidy key disk) (operations : List Operation)
    (key : Key) :
    AllTidy key (Operation.run env config operations disk) := by
  induction operations generalizing disk with
  | nil => exact tidy key
  | cons operation operations inductionHypothesis =>
    exact inductionHypothesis (step_tidy env config tidy operation)

theorem tidy_empty (key : Key) : AllTidy key Disk.empty := by
  refine ⟨fun metadata found => ?_, fun metadata found => ?_⟩
  all_goals
    simp only [Disk.empty, AList.lookup_empty] at found
    cases found

end Runs

end DiskStorage
end VideoProxy
