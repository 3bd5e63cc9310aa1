import VideoProxy.Storage.Documents
import VideoProxy.Storage.Store

/-!
# Failures and interruptions

Any call to the file system may fail, and the process may stop at any of them
and start again over the same directory.  What has to survive is that every
range listed in a sidecar or in the index was written to the data file that is
there now.  All operations keep this up except one: a deletion that removes the
data file and then does not get to remove the sidecar leaves ranges behind that
count again once a later write has made the new file long enough.
-/

namespace VideoProxy
namespace DiskStorage

open Faulty IntervalTable

/-- The document lists only stored bytes. -/
structure Supported (disk : Disk) (key : Key) (metadata : RangeMetadata) : Prop where
  coalesced : Coalesced metadata.completed
  stored : ∀ offset, Covers metadata.completed offset → Stored disk key offset

/-- Everything that is remembered about a key is stored. -/
structure Sound (key : Key) (disk : Disk) : Prop
    extends Known (fun disk => Supported disk key) key disk where
  bounded : ∀ file, disk.files.lookup key = some file → file.length ≤ maxFileOffset

theorem supported_of_nil {disk : Disk} {key : Key} {metadata : RangeMetadata}
    (empty : metadata.completed = []) :
    Supported disk key metadata where
  coalesced := by
    rw [empty]
    exact Coalesced.nil
  stored := by
    intro offset covered
    rw [empty] at covered
    exact absurd covered (not_covers_nil offset)

section Transfer

variable {key : Key} {before after : Disk} {metadata : RangeMetadata}

theorem Supported.of_files (supported : Supported before key metadata)
    (files : after.files = before.files) :
    Supported after key metadata where
  coalesced := supported.coalesced
  stored := by
    unfold Stored
    rw [files]
    exact supported.stored

theorem Supported.of_completed {other : RangeMetadata} (supported : Supported before key metadata)
    (completed : other.completed = metadata.completed) :
    Supported before key other where
  coalesced := by
    rw [completed]
    exact supported.coalesced
  stored := by
    rw [completed]
    exact supported.stored

theorem Sound.unchanged (sound : Sound key before) (unchanged : Unchanged before after) :
    Sound key after where
  indexed := by
    rw [unchanged.index]
    exact fun metadata found =>
      (sound.indexed metadata found).of_files unchanged.files
  documented := by
    rw [unchanged.sidecars]
    exact fun metadata found =>
      (sound.documented metadata found).of_files unchanged.files
  bounded := by
    rw [unchanged.files]
    exact sound.bounded

theorem Sound.frame {other : Key} (sound : Sound other before) (frame : Frame key before after)
    (ne : other ≠ key) :
    Sound other after := by
  have supported (metadata : RangeMetadata) (held : Supported before other metadata) :
      Supported after other metadata := by
    refine ⟨held.coalesced, fun offset covered => ?_⟩
    unfold Stored
    rw [frame.files other ne]
    exact held.stored offset covered
  refine ⟨⟨fun metadata found => ?_, fun metadata found => ?_⟩, ?_⟩
  · rcases frame.index other ne with same | dropped
    · exact supported metadata (sound.indexed metadata (same ▸ found))
    · rw [dropped] at found
      cases found
  · rw [frame.sidecars other ne] at found
    exact supported metadata (sound.documented metadata found)
  · rw [frame.files other ne]
    exact sound.bounded

theorem Sound.of_known (sound : Sound key before)
    (known : Known (fun disk => Supported disk key) key after)
    (files : after.files = before.files) :
    Sound key after := by
  refine ⟨known, ?_⟩
  rw [files]
  exact sound.bounded

end Transfer

/-! ## Metadata -/

section Metadata

variable (env : Environment) {key : Key}

omit env in
theorem supported_property (key : Key) :
    DocumentProperty fun disk => Supported disk key where
  files := fun files supported => supported.of_files files
  initial := fun _ => supported_of_nil rfl

theorem updateMetadata_sound (edit : RangeMetadata → RangeMetadata × Bool) :
    Ensures (fun disk => Sound key disk ∧ ∀ metadata,
        Supported disk key metadata → Supported disk key (edit metadata).1)
      (updateMetadata env key edit) fun _ => Sound key := by
  intro disk ⟨sound, supports⟩
  have known := updateMetadata_known (supported_property key) env edit disk
    ⟨sound.toKnown, fun metadata supported =>
      (supports metadata supported).of_completed (stamp_completed key _)⟩
  exact sound.of_known known (updateMetadata_keeps env key edit disk).sameFiles

theorem withMetadata_sound (view : RangeMetadata → α) :
    Ensures (Sound key) (withMetadata env key view) fun exit disk =>
      Sound key disk ∧ ∀ value, exit = .ok value →
        ∃ metadata, Supported disk key metadata ∧ value = view metadata := by
  intro disk sound
  obtain ⟨known, shown⟩ :=
    withMetadata_known (supported_property key) env view disk sound.toKnown
  exact ⟨sound.of_known known (withMetadata_keeps env key view disk).sameFiles, shown⟩

end Metadata

/-! ## The data file -/

section Files

variable (env : Environment) {key : Key}

theorem Sound.grows {before after : Disk} (sound : Sound key before)
    (grows : Grows key before after) :
    Sound key after := by
  have supported (metadata : RangeMetadata) (held : Supported before key metadata) :
      Supported after key metadata :=
    ⟨held.coalesced, fun offset covered =>
      grows.stored offset (held.stored offset covered)⟩
  refine ⟨⟨?_, ?_⟩, grows.bounded sound.bounded⟩
  · rw [grows.sameIndex]
    exact fun metadata found => supported metadata (sound.indexed metadata found)
  · rw [grows.sameSidecars]
    exact fun metadata found =>
      supported metadata (sound.documented metadata found)

/-- A sound key with an open data file. -/
def Writable (key : Key) (disk : Disk) : Prop :=
  Sound key disk ∧ Opened key disk

theorem Writable.grows {before after : Disk} (writable : Writable key before)
    (grows : Grows key before after) :
    Writable key after :=
  ⟨writable.1.grows grows, grows.opened writable.2⟩

variable {disk : Disk} {received : Bytes} {start : Nat}

theorem writeAll_bounded :
    Yields (fun _ => True) (writeAll env key start received)
      fun _ => start + received.length ≤ maxFileOffset := by
  refine yields_bind (yields_true _) fun _ _ => ?_
  split
  · exact yields_fail _ _
  · exact yields_pure (by omega)

/-- What the loop accepted ends within the file offsets. -/
theorem receive_bounded {maxLength : Option Nat} {stream : ByteStream} {reception : Reception}
    (ended : (receive env key start maxLength [] stream disk).1 = .ok reception)
    (nonempty : reception.received ≠ []) :
    start + reception.received.length ≤ maxFileOffset := by
  obtain ⟨_, bounded, -⟩ := (yields_receive env (fun _ => True)
    (fun received _ => received ≠ [] → start + received.length ≤ maxFileOffset)
    (fun _ _ _ _ _ => (writeAll_bounded env).weaken fun _ bounded _ => bounded)
    (fun absurdly => absurd rfl absurdly) disk trivial).2 reception ended
  exact bounded nonempty

/-- After a flush that succeeded the received bytes are stored. -/
theorem flush_writable (fits : received ≠ [] → start + received.length ≤ maxFileOffset) :
    Ensures (Writable key) (flush env key start received) fun exit disk =>
      Sound key disk ∧ (exit = .ok () → ∀ offset, start ≤ offset →
        offset < start + received.length → Stored disk key offset) := by
  have done (disk : Disk) : Grows key disk
      (({ disk with clock := disk.clock + 1 } : Disk).onFile key
        fun file => file.write start received) :=
    trans_of (Grows key) (Grows.tick disk _) (Grows.onFile_write _ fits)
  apply ensures_fsCall
  · intro disk held
    refine ⟨held.1.grows (done disk), fun _ offset lower upper => ?_⟩
    obtain ⟨file, found⟩ := (held.grows (Grows.tick disk _)).2
    exact ⟨_, onFile_lookup found _, SparseFile.cell_write_inside_isSome file lower upper⟩
  · intro disk message held
    exact ⟨held.1.grows (landPart_grows env start received disk), fun ended => by cases ended⟩
  · intro disk held
    exact ⟨held.1.grows (done disk), fun ended => by cases ended⟩
  · intro disk held
    exact ⟨held.1.grows (landPart_grows env start received disk), fun ended => by cases ended⟩

/-- A range of stored bytes may be merged into a supported document. -/
theorem Supported.completedEdit {metadata : RangeMetadata} (sound : Sound key disk)
    (supported : Supported disk key metadata) {finish : Nat} (ordered : start ≤ finish)
    (stored : ∀ offset, start ≤ offset → offset ≤ finish → Stored disk key offset) :
    Supported disk key (completedEdit start finish metadata).1 := by
  have inFile {offset : Nat} (held : Stored disk key offset) :
      offset ≤ u64Max := by
    obtain ⟨file, found, isSome⟩ := held
    have inside := SparseFile.lt_length_of_isSome isSome
    have bounded := sound.bounded file found
    unfold maxFileOffset at bounded
    unfold u64Max
    omega
  have words : ∀ range ∈ metadata.completed, range.2 ≤ u64Max :=
    fun range member => inFile (supported.stored range.2 (supported.coalesced.covers_last member))
  have word : finish ≤ u64Max := inFile (stored finish ordered (Nat.le_refl _))
  refine ⟨mergeRange_coalesced supported.coalesced words ordered word, ?_⟩
  intro offset covered
  rcases (covers_mergeRange supported.coalesced words ordered word offset).mp covered with old | new
  · exact supported.stored offset old
  · exact stored offset new.1 new.2

/-- Bytes are recorded only after they are stored. -/
theorem persist_sound (nonempty : received ≠ []) (fits : start + received.length ≤ maxFileOffset) :
    Ensures (Writable key) (persist env key start received) fun _ => Sound key := by
  have positive : 0 < received.length := List.length_pos_iff.mpr nonempty
  let Flushed : Disk → Prop := fun disk => Sound key disk ∧
    ∀ offset, start ≤ offset → offset < start + received.length → Stored disk key offset
  have synced : Ensures Flushed (syncData env) fun _ => Flushed :=
    (tickCall_grows env).ensures fun _ _ grows held =>
      ⟨held.1.grows grows, fun offset lower upper =>
        grows.stored offset (held.2 offset lower upper)⟩
  refine ensures_persist env ((flush_writable env fun _ => fits).weaken (fun _ => id)
    fun _ _ held => ⟨held.1, fun ended => ⟨held.1, held.2 ended⟩⟩) synced
    (fun _ held => held.1) fun finish counted => ?_
  obtain ⟨finish_eq, _⟩ := checkedAdd_eq_some_iff.mp counted
  exact (updateMetadata_sound env _).weaken (fun _ held => ⟨held.1, fun _ supported =>
      supported.completedEdit held.1 (by omega) fun offset lower upper =>
        held.2 offset lower (by omega)⟩) fun _ _ => id

/-- A write keeps its key sound, however it ends. -/
theorem write_sound (stream : ByteStream) (range : Nat × Nat) :
    Ensures (Sound key) (write env key stream range) fun _ => Sound key :=
  ensures_write env
    (fun received => received ≠ [] → range.1 + received.length ≤ maxFileOffset)
    ((tickCall_grows env).ensures fun _ _ grows sound => sound.grows grows)
    (fun disk sound => ⟨sound.grows (openFile_grows env disk), fun ended =>
      ⟨sound.grows (openFile_grows env disk), openFile_opened env ended⟩⟩)
    ((seek_grows env range.1).ensures fun _ _ grows writable => Writable.grows writable grows)
    (fun maxLength _ disk writable =>
      ⟨writable.grows (receive_grows env range.1 maxLength [] stream disk),
        fun _ ended => receive_bounded env ended⟩)
    (fun _ nonempty fits => persist_sound env nonempty (fits nonempty))
    (fun _ => id) fun _ writable => writable.1

end Files

/-! ## Checks and deletions -/

section Operations

variable (env : Environment) {key : Key}

theorem recordUpstreamMeta_sound (upstream : UpstreamMeta) :
    Ensures (Sound key) (recordUpstreamMeta env key upstream) fun _ => Sound key := by
  unfold recordUpstreamMeta
  split
  · exact ensures_pure fun _ => id
  · exact (updateMetadata_sound env _).weaken (fun _ sound => ⟨sound, fun metadata supported =>
        supported.of_completed (upstreamEdit_completed upstream metadata)⟩)
      fun _ _ => id

theorem checkRange_sound (range : Nat × Nat) :
    Ensures (Sound key) (checkRange env key range) fun _ => Sound key :=
  fun disk sound => sound.of_known
    (checkRange_known (supported_property key) env range disk sound.toKnown)
    (checkRange_keeps env key range disk).sameFiles

theorem read_sound (config : StorageConfig) (range : Nat × Nat) :
    Ensures (Sound key) (read env config key range) fun _ => Sound key :=
  fun disk sound => sound.of_known
    (read_known (supported_property key) env config range disk sound.toKnown)
    (read_keeps env config key range disk).sameFiles

/-- A positive answer about a closed range is about stored bytes. -/
theorem checkRange_stored {disk : Disk} (sound : Sound key disk) {range : Nat × Nat}
    (closed : range.2 ≠ openEnded) (cached : (checkRange env key range disk).1 = .ok true) :
    ∀ offset, range.1 ≤ offset → offset ≤ range.2 → Stored disk key offset := by
  unfold checkRange requestedEnd at cached
  rw [if_neg closed, bind_of_ok (pure_apply _ disk)] at cached
  obtain ⟨covered, middle, viewed, rest⟩ := exists_of_bind_ok cached
  cases covered with
  | false => cases rest
  | true =>
    have shown := withMetadata_sound env (fun metadata : RangeMetadata => metadata.completed.any
        fun completed => decide (completed.1 ≤ range.1) &&
          decide (range.2 ≤ completed.2)) disk sound
    have frame := withMetadata_keeps env key (fun metadata : RangeMetadata => metadata.completed.any
        fun completed => decide (completed.1 ≤ range.1) && decide (range.2 ≤ completed.2)) disk
    rw [viewed] at shown frame
    obtain ⟨metadata, supported, covered⟩ := shown.2 true rfl
    obtain ⟨interval, member, bounds⟩ :=
      List.any_eq_true.mp covered.symm
    simp only [Bool.and_eq_true, decide_eq_true_eq] at bounds
    intro offset lower upper
    apply (supported.of_files frame.sameFiles.symm).stored
    exact ⟨interval, member, by omega, by omega⟩

/-- The outcome of a deletion that removes the data file of a key and leaves a
sidecar with ranges behind. -/
def TearsDelete (env : Environment) (key : Key) (disk : Disk) : Prop :=
  (∃ metadata, disk.sidecars.lookup key = some (.metadata metadata) ∧ metadata.completed ≠ []) ∧
  (env.outcome disk.clock = .stop true ∨ (env.outcome disk.clock = .success ∧
      env.outcome (disk.clock + 1) ≠ .success ∧
      env.outcome (disk.clock + 1) ≠ .stop true))

/-- A deletion that does not tear keeps its key sound. -/
theorem delete_sound {disk : Disk} (sound : Sound key disk) (whole : ¬TearsDelete env key disk) :
    Sound key (delete env key disk).2 := by
  have kept (clock : Nat) : Sound key
      { disk with index := disk.index.erase key, clock := clock } := by
    refine ⟨⟨fun metadata found => ?_, fun metadata found =>
      (sound.documented metadata found).of_files rfl⟩, sound.bounded⟩
    rw [AList.lookup_erase] at found
    cases found
  have torn (clock : Nat) (empty : ∀ metadata,
        disk.sidecars.lookup key = some (.metadata metadata) →
        metadata.completed = []) :
      Sound key { disk with
        index := disk.index.erase key
        files := disk.files.erase key
        clock := clock } := by
    refine ⟨⟨fun metadata found => ?_, fun metadata found =>
      supported_of_nil (empty metadata found)⟩, fun file found => ?_⟩
    · rw [AList.lookup_erase] at found
      cases found
    · rw [AList.lookup_erase] at found
      cases found
  have removed (clock : Nat) : Sound key { disk with
      index := disk.index.erase key
      files := disk.files.erase key
      sidecars := disk.sidecars.erase key
      clock := clock } := by
    refine ⟨⟨fun metadata found => ?_, fun metadata found => ?_⟩, fun file found => ?_⟩
    all_goals
      rw [AList.lookup_erase] at found
      cases found
  have emptyUnless (left : env.outcome disk.clock = .stop true ∨
        (env.outcome disk.clock = .success ∧ env.outcome (disk.clock + 1) ≠ .success ∧
          env.outcome (disk.clock + 1) ≠ .stop true))
      (metadata : RangeMetadata)
      (found : disk.sidecars.lookup key = some (.metadata metadata)) :
      metadata.completed = [] := by
    by_contra nonempty
    exact whole ⟨⟨metadata, found, nonempty⟩, left⟩
  unfold delete removeData removeSidecar
  rw [bind_of_ok (update_apply _ disk), bind_apply]
  cases first : env.outcome disk.clock with
  | failure message =>
    simp only [fsCall, first]
    exact kept _
  | stop done =>
    cases done with
    | false =>
      simp only [fsCall, first]
      exact kept _
    | true =>
      simp only [fsCall, first]
      exact torn _ (emptyUnless (Or.inl first))
  | success =>
    simp only [fsCall, first]
    cases second : env.outcome (disk.clock + 1) with
    | success => exact removed _
    | failure message =>
      exact torn _ (emptyUnless (Or.inr ⟨first, by simp [second]⟩))
    | stop done =>
      cases done with
      | true => exact removed _
      | false =>
        exact torn _ (emptyUnless (Or.inr ⟨first, by simp [second]⟩))

end Operations

/-! ## Runs -/

/-- Every key is sound. -/
def AllSound (disk : Disk) : Prop :=
  ∀ key, Sound key disk

/-- The operation is not a deletion that tears. -/
def Operation.Whole (env : Environment) : Operation → Disk → Prop
  | .delete key, disk => ¬TearsDelete env key disk
  | _, _ => True

section Runs

variable (env : Environment) (config : StorageConfig)

theorem AllSound.of_frame {key : Key} {before after : Disk} (sound : AllSound before)
    (frame : Frame key before after) (own : Sound key after) :
    AllSound after := by
  intro other
  by_cases equal : other = key
  · subst other
    exact own
  · exact (sound other).frame frame equal

variable {disk : Disk}

/-- An operation is about its own key. -/
theorem perform_keeps (operation : Operation) :
    Keeps (Frame operation.key) (operation.perform env config) := by
  have ends {α : Type} {computation : DiskM α} (keeps : Keeps (Frame operation.key) computation) :
      Keeps (Frame operation.key) (do let _ ← computation) :=
    keeps_bind keeps fun _ => keeps_pure ()
  cases operation with
  | write key stream range => exact ends (write_keeps env key stream range)
  | recordUpstreamMeta key upstream =>
    exact MetadataFrame.keeps key (recordUpstreamMeta_keeps env key upstream)
  | delete key => exact delete_keeps env key
  | checkRange key range => exact ends (MetadataFrame.keeps key (checkRange_keeps env key range))
  | upstreamMeta key => exact ends (MetadataFrame.keeps key (withMetadata_keeps env key _))
  | read key range => exact ends (MetadataFrame.keeps key (read_keeps env config key range))

theorem perform_sound {operation : Operation} (sound : AllSound disk)
    (whole : Operation.Whole env operation disk) :
    AllSound (operation.perform env config disk).2 := by
  refine sound.of_frame (perform_keeps env config operation disk) ?_
  cases operation with
  | write key stream range =>
    simp only [Operation.perform, bind_pure_state]
    exact write_sound env stream range disk (sound key)
  | recordUpstreamMeta key upstream =>
    exact recordUpstreamMeta_sound env upstream disk (sound key)
  | delete key => exact delete_sound env (sound key) whole
  | checkRange key range =>
    simp only [Operation.perform, bind_pure_state]
    exact checkRange_sound env range disk (sound key)
  | upstreamMeta key =>
    simp only [Operation.perform, bind_pure_state]
    exact (withMetadata_sound env _ disk (sound key)).1
  | read key range =>
    simp only [Operation.perform, bind_pure_state]
    exact read_sound env config range disk (sound key)

theorem AllSound.reopen (sound : AllSound disk) : AllSound disk.reopen := by
  intro key
  refine ⟨⟨fun metadata found => ?_, fun metadata found =>
    ((sound key).documented metadata found).of_files rfl⟩,
    (sound key).bounded⟩
  simp only [Disk.reopen, AList.lookup_empty] at found
  cases found

theorem step_sound {operation : Operation} (sound : AllSound disk)
    (whole : Operation.Whole env operation disk) :
    AllSound (operation.step env config disk) :=
  Operation.step_holds AllSound (perform_sound env config sound whole) fun _ => AllSound.reopen

/-- No deletion of the run tears. -/
def WholeRun : List Operation → Disk → Prop
  | [], _ => True
  | operation :: operations, disk =>
    Operation.Whole env operation disk ∧ WholeRun operations (operation.step env config disk)

theorem run_sound {operations : List Operation} (sound : AllSound disk)
    (whole : WholeRun env config operations disk) :
    AllSound (Operation.run env config operations disk) := by
  induction operations generalizing disk with
  | nil => exact sound
  | cons operation operations inductionHypothesis =>
    exact inductionHypothesis (step_sound env config sound whole.1) whole.2

theorem allSound_empty : AllSound Disk.empty := by
  intro key
  refine ⟨⟨fun metadata found => ?_, fun metadata found => ?_⟩, fun file found => ?_⟩
  all_goals
    simp only [Disk.empty, AList.lookup_empty] at found
    cases found

/-- After any run without a torn deletion, whatever failed or was interrupted in
it, a closed range that is reported as cached was written to the current data
file. -/
theorem stored_of_checkRange {operations : List Operation}
    (whole : WholeRun env config operations Disk.empty) {key : Key} {first last : Nat}
    (closed : last ≠ openEnded)
    (cached : (checkRange env key (first, last)
      (Operation.run env config operations Disk.empty)).1 = .ok true) :
    ∀ offset, first ≤ offset → offset ≤ last →
      Stored (Operation.run env config operations Disk.empty) key offset :=
  checkRange_stored env (run_sound env config allSound_empty whole key) closed cached

end Runs

/-- A host on which one call, by number, fails. -/
def hostFailingAt (call : Nat) : Environment :=
  { Environment.calmHost with
    outcome := fun now =>
      if now = call then .failure "Permission denied (os error 13)"
      else .success }

/-- A deletion that fails before it removes anything is whole, and the range it
left behind is still stored. -/
theorem stored_of_checkRange_failed_delete :
    let env := hostFailingAt 10
    let operations : List Operation :=
      [.write "asset" [.ok [1, 2, 3, 4]] (0, 3), .delete "asset",
        .write "asset" [.ok [5, 6, 7, 8]] (8, 11)]
    ∀ offset, 0 ≤ offset → offset ≤ 3 →
      Stored (Operation.run env ⟨4⟩ operations Disk.empty) "asset" offset := by
  intro env operations
  have whole : WholeRun env ⟨4⟩ operations Disk.empty := by
    refine ⟨trivial, ?_, trivial, trivial⟩
    rintro ⟨_, tears⟩
    revert tears
    decide +kernel
  exact stored_of_checkRange env ⟨4⟩ whole (by decide) (by decide +kernel)

/-- The sidecar of a torn deletion makes a hole count as cached once a later
write has made the new file long enough. -/
theorem checkRange_hole_after_torn_delete :
    let env := hostFailingAt 11
    let disk := Operation.run env ⟨4⟩ [.write "asset" [.ok [1, 2, 3, 4]] (0, 3), .delete "asset",
        .write "asset" [.ok [5, 6, 7, 8]] (8, 11)] Disk.empty
    (checkRange env "asset" (0, 3) disk).1 = .ok true ∧ ¬Stored disk "asset" 0 := by
  intro env disk
  have hole : (disk.files.lookup "asset").map (fun file => file.cell 0) = some none := by
    decide +kernel
  refine ⟨by decide +kernel, ?_⟩
  rintro ⟨file, found, stored⟩
  rw [found, Option.map_some, Option.some.injEq] at hole
  rw [hole] at stored
  cases stored

end DiskStorage
end VideoProxy
