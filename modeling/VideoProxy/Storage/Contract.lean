import VideoProxy.Storage.Manager
import VideoProxy.Storage.Mirror

/-!
# What a cache promises

The contract of a storage engine: as long as what is written to it meets some
terms, what it returns meets others, and the totals that it knows are those of
the resources.  The manager passes the contract on.  The disk engine fulfils two
contracts: about totals alone, whatever goes wrong, and about all the bytes of
the resources, when only its writes go wrong.
-/

namespace VideoProxy

open Faulty

/-- What an engine may rely on and what it promises: the length of each
resource, the blocks that may be written to an offset, and the streams that may
be returned for a range. -/
structure CacheTerms where
  length : Key → Nat
  accepts : Key → Nat → Bytes → Prop
  returns : Key → Nat × Nat → ByteStream → Prop

/-- The operations of an engine keep up a state, and with it the terms. -/
structure StorageEngine.Meets (engine : StorageEngine σ) (terms : CacheTerms)
    (holds : σ → Prop) : Prop where
  write : ∀ key stream range, terms.accepts key range.1 (delivered stream) →
    Yields holds (engine.write key stream range) fun _ => True
  read : ∀ key range, Yields holds (engine.read key range) (terms.returns key range)
  getSize : ∀ key, Yields holds (engine.getSize key) fun _ => True
  checkRange : ∀ key range, Yields holds (engine.checkRange key range) fun _ => True
  delete : ∀ key, Yields holds (engine.delete key) fun _ => True
  recordUpstreamMeta : ∀ key upstream, DiskStorage.TotalIs (terms.length key) upstream.totalSize →
    Yields holds (engine.recordUpstreamMeta key upstream) fun _ => True
  upstreamMeta : ∀ key, Yields holds (engine.upstreamMeta key) fun upstream =>
    DiskStorage.TotalIs (terms.length key) upstream.totalSize

/-! ## The manager -/

namespace StorageManager

/-- A property of the engine, as one of the manager. -/
def OverEngine (holds : σ → Prop) (manager : Manager σ) : Prop :=
  holds manager.engine

theorem onEngine_yields {holds : σ → Prop} {operation : Faulty σ ProxyError α} {property : α → Prop}
    (yields : Yields holds operation property) :
    Yields (OverEngine holds) (onEngine operation) property :=
  fun manager kept => yields manager.engine kept

theorem bookkeeping_yields {holds : σ → Prop} {change : Manager σ → Manager σ}
    (sameEngine : ∀ manager, (change manager).engine = manager.engine) :
    Yields (OverEngine holds) (update change : ManagerM σ Unit) fun _ => True := by
  apply yields_update
  intro manager kept
  unfold OverEngine
  rw [sameEngine]
  exact kept

section Operations

variable {engine : StorageEngine σ} {terms : CacheTerms}
  {holds : σ → Prop} (meets : engine.Meets terms holds)
include meets

theorem write_yields (now : Nat) {key : Key} {stream : ByteStream} {range : Nat × Nat}
    (accepted : terms.accepts key range.1 (delivered stream)) :
    Yields (OverEngine holds) (write engine now key stream range) fun _ => True := by
  refine yields_bind (onEngine_yields (meets.write key stream range accepted)) fun written _ => ?_
  exact yields_bind (bookkeeping_yields (Manager.recordWrite_engine key _ now))
    fun _ _ => yields_pure trivial

theorem read_yields (now : Nat) (key : Key) (range : Nat × Nat) :
    Yields (OverEngine holds) (read engine now key range) (terms.returns key range) :=
  yields_bind (bookkeeping_yields (Manager.touch_engine key now)) fun _ _ =>
    onEngine_yields (meets.read key range)

theorem getSize_yields (key : Key) :
    Yields (OverEngine holds) (getSize engine key) fun _ => True := by
  refine yields_bind (yields_gets _) fun entry _ => ?_
  cases entry with
  | some entry => exact yields_pure trivial
  | none => exact onEngine_yields (meets.getSize key)

theorem checkRange_yields (key : Key) (range : Nat × Nat) :
    Yields (OverEngine holds) (checkRange engine key range) fun _ => True :=
  onEngine_yields (meets.checkRange key range)

theorem recordUpstreamMeta_yields {key : Key} {upstream : UpstreamMeta}
    (faithful : DiskStorage.TotalIs (terms.length key) upstream.totalSize) :
    Yields (OverEngine holds) (recordUpstreamMeta engine key upstream) fun _ => True :=
  onEngine_yields (meets.recordUpstreamMeta key upstream faithful)

theorem upstreamMeta_yields (key : Key) :
    Yields (OverEngine holds) (upstreamMeta engine key) fun upstream =>
      DiskStorage.TotalIs (terms.length key) upstream.totalSize :=
  onEngine_yields (meets.upstreamMeta key)

theorem evict_yields (entry : CacheEntry) :
    Yields (OverEngine holds) (evict engine entry) fun _ => True := by
  refine yields_bind (yields_gets _) fun current _ => ?_
  split
  · refine yields_bind (yields_attempt
      (onEngine_yields (meets.delete entry.key))) fun deleted _ => ?_
    cases deleted with
    | ok _ => exact bookkeeping_yields (Manager.forget_engine entry.key)
    | error reason => exact yields_pure trivial
  · exact yields_pure trivial

end Operations

end StorageManager

/-! ## The disk engine -/

namespace DiskStorage

theorem yields_of_frame {holds : Key → Disk → Prop}
    (framed : ∀ {key other before after}, Frame key before after →
      other ≠ key → holds other before → holds other after)
    {key : Key} {operation : DiskM α} {property : α → Prop} (keeps : Keeps (Frame key) operation)
    (own : Yields (holds key) operation property) :
    Yields (fun disk => ∀ key, holds key disk) operation property := by
  intro disk all
  obtain ⟨kept, returned⟩ := own disk (all key)
  refine ⟨fun other => ?_, returned⟩
  by_cases same : other = key
  · subst same
    exact kept
  · exact framed (keeps disk) same (all other)

theorem yields_of_ensures {invariant : Disk → Prop} {operation : DiskM α}
    (ensures : Ensures invariant operation fun _ => invariant) :
    Yields invariant operation fun _ => True :=
  fun disk held => ⟨ensures disk held, fun _ _ => trivial⟩

/-! ### Totals -/

/-- The terms about totals alone. -/
def totalTerms (length : Key → Nat) : CacheTerms where
  length := length
  accepts := fun _ _ _ => True
  returns := fun _ _ _ => True

/-- No key knows another total than its own. -/
def AllKnowTotal (length : Key → Nat) (disk : Disk) : Prop :=
  ∀ key, KnowsTotal (length key) key disk

/-- Totals are kept up whatever the file system does. -/
theorem engine_meets_totalTerms (env : Environment) (config : StorageConfig) (length : Key → Nat) :
    (engine env config).Meets (totalTerms length) (AllKnowTotal length) := by
  have framed {key other : Key} {before after : Disk}
      (frame : Frame key before after) (ne : other ≠ key)
      (known : KnowsTotal (length other) other before) :
      KnowsTotal (length other) other after := known.frame frame ne
  have property (key : Key) : DocumentProperty
      fun (_ : Disk) metadata => TotalIs (length key) metadata.totalSize :=
    documentProperty_const totalIs_initial
  constructor
  · exact fun key stream range _ => yields_of_frame framed (write_keeps env key stream range)
      (yields_of_ensures (write_knowsTotal env stream range))
  · exact fun key range => yields_of_frame framed
      (MetadataFrame.keeps key (read_keeps env config key range))
      (yields_of_ensures (read_known (property key) env config range))
  · exact fun key => yields_of_frame framed (MetadataFrame.keeps key (dataFileSize_keeps env key))
      (yields_of_ensures (dataFileSize_known (property key) env))
  · exact fun key range => yields_of_frame framed
      (MetadataFrame.keeps key (checkRange_keeps env key range))
      (yields_of_ensures (checkRange_known (property key) env range))
  · exact fun key => yields_of_frame framed (delete_keeps env key)
      (yields_of_ensures (delete_known env))
  · exact fun key upstream faithful => yields_of_frame framed
      (MetadataFrame.keeps key (recordUpstreamMeta_keeps env key upstream))
      (yields_of_ensures (recordUpstreamMeta_knowsTotal env faithful))
  · exact fun key => yields_of_frame framed (MetadataFrame.keeps key (withMetadata_keeps env key _))
      (upstreamMeta_knowsTotal env)

/-! ### Resources -/

/-- The terms about the resources themselves: pieces of them are written and
returned. -/
def resourceTerms (resources : Key → Bytes) : CacheTerms where
  length := fun key => (resources key).length
  accepts := fun key start block => block <+: (resources key).drop start
  returns := fun key range stream => range.1 ≤ range.2 → range.2 ≠ openEnded →
    contents stream = .ok (slice (resources key) range.1 range.2)

/-- Every key of the disk mirrors its resource. -/
def AllMirror (resources : Key → Bytes) (disk : Disk) : Prop :=
  ∀ key, Mirrors (resources key) key disk

theorem Mirrors.empty (content : Bytes) (key : Key) : Mirrors content key Disk.empty := by
  refine ⟨allSound_empty key, fun file found => ?_, fun metadata found => ?_,
    fun metadata found => ?_⟩
  all_goals cases found

/-- The disk engine where calls of writes may fail while the other operations
go well. -/
def engineWriting (env writing : Environment) (config : StorageConfig) : StorageEngine Disk :=
  { engine env config with write := DiskStorage.write writing }

/-- The disk engine returns only pieces of the resources that it was given
pieces of. -/
theorem engineWriting_meets_resourceTerms {env : Environment} (calm : env.Calm)
    (writing : Environment) {config : StorageConfig} (positive : 0 < config.chunkSize)
    (resources : Key → Bytes) :
    (engineWriting env writing config).Meets (resourceTerms resources) (AllMirror resources) := by
  have framed {key other : Key} {before after : Disk}
      (frame : Frame key before after) (ne : other ≠ key)
      (mirrors : Mirrors (resources other) other before) :
      Mirrors (resources other) other after := mirrors.frame frame ne
  constructor
  · exact fun key stream range piece => yields_of_frame framed
      (write_keeps writing key stream range)
      (yields_of_ensures (write_mirrors writing piece))
  · exact fun key range => yields_of_frame framed
      (MetadataFrame.keeps key (read_keeps env config key range))
      (read_mirrors env calm positive)
  · exact fun key => yields_of_frame framed (MetadataFrame.keeps key (dataFileSize_keeps env key))
      (yields_of_ensures (dataFileSize_mirrors env))
  · exact fun key range => yields_of_frame framed
      (MetadataFrame.keeps key (checkRange_keeps env key range))
      (yields_of_ensures (checkRange_mirrors env range))
  · exact fun key => yields_of_frame framed (delete_keeps env key)
      (yields_of_ensures (delete_mirrors env calm))
  · exact fun key upstream faithful => yields_of_frame framed
      (MetadataFrame.keeps key (recordUpstreamMeta_keeps env key upstream))
      (yields_of_ensures (recordUpstreamMeta_mirrors env faithful))
  · exact fun key => yields_of_frame framed (MetadataFrame.keeps key (withMetadata_keeps env key _))
      (upstreamMeta_mirrors env)

/-! ### Runs with failures -/

/-- What the operation gives to a key comes from one resource. -/
def Operation.Feeds (content : Bytes) (key : Key) : Operation → Prop
  | .write other stream range => other = key → delivered stream <+: content.drop range.1
  | .recordUpstreamMeta other upstream => other = key → TotalIs content.length upstream.totalSize
  | _ => True

section Runs

variable (env : Environment) (config : StorageConfig) {content : Bytes} {key : Key} {disk : Disk}

/-- A deletion that fails half-way has removed the data file or left it. -/
theorem delete_agrees :
    Ensures (Agrees content key) (delete env key) fun _ => Agrees content key := by
  have removed (disk : Disk) (_ : Agrees content key disk) :
      Agrees content key { disk with files := disk.files.erase key, clock := disk.clock + 1 } := by
    intro file found
    rw [AList.lookup_erase] at found
    cases found
  refine ensures_bind_invariant (ensures_update fun _ => id) fun _ =>
    ensures_bind_invariant ?_ fun _ => ?_
  · exact ensures_fsCall env removed (fun _ _ => id) removed fun _ => id
  · exact ensures_fsCall env (fun _ => id) (fun _ _ => id) (fun _ => id) fun _ => id

theorem perform_mirrors {operation : Operation} (mirrors : Mirrors content key disk)
    (feeds : Operation.Feeds content key operation) (whole : Operation.Whole env operation disk) :
    Mirrors content key (operation.perform env config disk).2 := by
  by_cases same : key = operation.key
  · subst same
    cases operation with
    | write key stream range =>
      simp only [Operation.perform, bind_pure_state]
      exact write_mirrors env (feeds rfl) disk mirrors
    | recordUpstreamMeta key upstream =>
      exact recordUpstreamMeta_mirrors env (feeds rfl) disk mirrors
    | delete key =>
      exact ⟨delete_sound env mirrors.toSound whole, delete_agrees env disk mirrors.agrees,
        delete_known env disk mirrors.totals⟩
    | checkRange key range =>
      simp only [Operation.perform, bind_pure_state]
      exact checkRange_mirrors env range disk mirrors
    | upstreamMeta key =>
      simp only [Operation.perform, bind_pure_state]
      exact (upstreamMeta_mirrors env disk mirrors).1
    | read key range =>
      simp only [Operation.perform, bind_pure_state]
      exact mirrors.of_known (read_sound env config range disk mirrors.toSound)
        (read_known (documentProperty_const totalIs_initial) env config range disk mirrors.totals)
        (read_keeps env config key range disk).sameFiles
  · exact mirrors.frame (perform_keeps env config operation disk) same

theorem run_mirrors {operations : List Operation} (sound : AllSound disk)
    (mirrors : Mirrors content key disk)
    (feeds : ∀ operation ∈ operations, Operation.Feeds content key operation)
    (whole : WholeRun env config operations disk) :
    Mirrors content key (Operation.run env config operations disk) := by
  induction operations generalizing disk with
  | nil => exact mirrors
  | cons operation operations inductionHypothesis =>
    have sound := step_sound env config sound whole.1
    refine inductionHypothesis sound ?_ (fun other member => feeds other (.tail _ member)) whole.2
    have performed := perform_mirrors env config mirrors (feeds _ (.head _)) whole.1
    -- the new process starts without an index
    obtain ⟨agrees, totals⟩ := Operation.step_holds
      (fun disk => Agrees content key disk ∧ KnowsTotal content.length key disk)
      ⟨performed.agrees, performed.totals⟩
      fun _ held => ⟨held.1, ⟨(fun _ found => nomatch found), held.2.documented⟩⟩
    exact ⟨sound key, agrees, totals⟩

/-- After any run that gave a key only pieces of one resource, whatever failed or
was interrupted in it, a closed range that can be read is that piece of the
resource. -/
theorem contents_of_faulty_run {operations : List Operation}
    (feeds : ∀ operation ∈ operations, Operation.Feeds content key operation)
    (whole : WholeRun env config operations Disk.empty) {reading : Environment}
    (calm : reading.Calm) (positive : 0 < config.chunkSize) {first last : Nat}
    (ordered : first ≤ last) (closed : last ≠ openEnded) {stream : ByteStream}
    (reads : (read reading config key (first, last)
      (Operation.run env config operations Disk.empty)).1 = .ok stream) :
    contents stream = .ok (slice content first last) := by
  have mirrors := run_mirrors env config allSound_empty (.empty content key) feeds whole
  exact (read_mirrors reading calm positive _ mirrors).2 stream reads ordered closed

end Runs

/-- The sidecar of a first write cannot be renamed; the bytes of a second one are
read. -/
theorem contents_of_faulty_run_renaming :
    let operations : List Operation :=
      [.write "asset" [.ok [3, 4]] (2, 3), .delete "other", .write "asset" [.ok [1, 2, 3]] (0, 2)]
    (read .calmHost ⟨1⟩ "asset" (1, 2) (Operation.run (hostFailingAt 9) ⟨1⟩ operations
        Disk.empty)).1 = .ok [.ok [2], .ok [3]] ∧
      contents [.ok [2], .ok [3]] = .ok (slice [1, 2, 3, 4] 1 2) := by
  intro operations
  have feeds : ∀ operation ∈ operations, Operation.Feeds [1, 2, 3, 4] "asset" operation := by
    simp only [operations, List.forall_mem_cons, List.not_mem_nil, false_implies, implies_true,
      and_true]
    exact ⟨fun _ => by decide, trivial, fun _ => by decide⟩
  have absent : (Operation.step (hostFailingAt 9) ⟨1⟩ Disk.empty
      (.write "asset" [.ok [3, 4]] (2, 3))).sidecars.lookup "other" = none := by
    decide +kernel
  have whole : WholeRun (hostFailingAt 9) ⟨1⟩ operations Disk.empty := by
    refine ⟨trivial, ?_, trivial, trivial⟩
    rintro ⟨⟨metadata, found, -⟩, -⟩
    cases absent.symm.trans found
  have reads : (read .calmHost ⟨1⟩ "asset" (1, 2) (Operation.run (hostFailingAt 9) ⟨1⟩ operations
      Disk.empty)).1 = .ok [.ok [2], .ok [3]] := by
    decide +kernel
  exact ⟨reads, contents_of_faulty_run _ _ feeds whole Environment.calmHost_calm (by decide)
    (by decide) (by decide) reads⟩

end DiskStorage
end VideoProxy
