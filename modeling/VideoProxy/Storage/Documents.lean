import VideoProxy.Storage.Frame

/-!
# Properties of the documents of a key

The documents of a key are its index entry and its sidecar.  A property that
every document has, that the default document has, and that depends on the
directory only through the data files, is kept by every operation on the
metadata, whatever fails and wherever the process stops: an update commits only
documents that it edited from such documents, and a reader inserts only what the
sidecar holds.
-/

namespace VideoProxy
namespace DiskStorage

open Faulty

/-! ## Calls -/

section Calls

variable (env : Environment) {key : Key}

/-- A call ends with one of its two effects. -/
theorem ensures_fsCall {precondition : Disk → Prop} {done broken : Disk → Disk}
    {postcondition : Exit ProxyError Unit → Disk → Prop}
    (success : ∀ disk : Disk, precondition disk →
      postcondition (.ok ()) (done { disk with clock := disk.clock + 1 }))
    (failure : ∀ (disk : Disk) message, precondition disk → postcondition (.error (.io message))
        (broken { disk with clock := disk.clock + 1 }))
    (stopDone : ∀ disk : Disk, precondition disk →
      postcondition .stopped (done { disk with clock := disk.clock + 1 }))
    (stopBroken : ∀ disk : Disk, precondition disk →
      postcondition .stopped (broken { disk with clock := disk.clock + 1 })) :
    Ensures precondition (fsCall env done broken) postcondition := by
  intro disk holds
  unfold fsCall
  simp only
  split
  · exact success disk holds
  · exact failure disk _ holds
  · exact stopDone disk holds
  · exact stopBroken disk holds

theorem fsQuery_eq_some {view : Disk → α} {disk after : Disk} {value : α}
    (answered : fsQuery env view disk = (.ok (some value), after)) :
    value = view disk := by
  unfold fsQuery at answered
  simp only at answered
  split at answered
  · cases answered
    rfl
  · cases answered
  · cases answered

theorem loadMetadata_eq_some {disk : Disk} {metadata : RangeMetadata}
    (loaded : (loadMetadata env key disk).1 = .ok (some metadata)) :
    disk.sidecars.lookup key = some (.metadata metadata) := by
  obtain ⟨document, middle, queried, rest⟩ := exists_of_bind_ok loaded
  split at rest
  · rename_i found
    obtain ⟨size, _, _, checked⟩ := exists_of_bind_ok rest
    have found_eq := fsQuery_eq_some env queried
    rw [← found_eq]
    simp only [pure_apply, Exit.ok.injEq] at checked
    split at checked
    · cases checked
      rfl
    · cases checked
  · cases rest

end Calls

/-! ## Documents -/

/-- A property of documents that looks at the directory only through the data
files, and that the default document has. -/
structure DocumentProperty (holds : Disk → RangeMetadata → Prop) : Prop where
  files : ∀ {before after : Disk} {metadata : RangeMetadata},
    after.files = before.files → holds before metadata → holds after metadata
  initial : ∀ disk, holds disk {}

/-- Every document of the key has the property. -/
structure Known (holds : Disk → RangeMetadata → Prop) (key : Key) (disk : Disk) : Prop where
  indexed : ∀ metadata, disk.index.lookup key = some metadata → holds disk metadata
  documented : ∀ metadata, disk.sidecars.lookup key = some (.metadata metadata) →
    holds disk metadata

/-- Every document of the key has the property, and so has another one. -/
structure Committable (holds : Disk → RangeMetadata → Prop) (key : Key) (metadata : RangeMetadata)
    (disk : Disk) : Prop extends Known holds key disk where
  candidate : holds disk metadata

section Documents

variable {holds : Disk → RangeMetadata → Prop}
  (property : DocumentProperty holds) (env : Environment) {key : Key}
include property

omit env in
variable {after before : Disk} {metadata : RangeMetadata}

theorem Known.unchanged (known : Known holds key before) (unchanged : Unchanged before after) :
    Known holds key after where
  indexed := by
    rw [unchanged.index]
    exact fun metadata found =>
      property.files unchanged.files (known.indexed metadata found)
  documented := by
    rw [unchanged.sidecars]
    exact fun metadata found =>
      property.files unchanged.files (known.documented metadata found)

/-- An update starts from a document with the property. -/
theorem currentMetadata_known {disk : Disk}
    (known : Known holds key disk) (current : (currentMetadata env key disk).1 = .ok metadata) :
    holds disk metadata := by
  obtain ⟨cached, middle, looked, rest⟩ := exists_of_bind_ok current
  cases looked
  cases found : disk.index.lookup key with
  | some entry =>
    simp only [found] at rest
    cases rest
    exact known.indexed metadata found
  | none =>
    simp only [found] at rest
    obtain ⟨loaded, after, loads, chosen⟩ := exists_of_bind_ok rest
    cases chosen
    cases loaded with
    | none => exact property.initial disk
    | some metadata =>
      apply known.documented
      apply loadMetadata_eq_some env
      rw [loads]
      rfl

omit env in
theorem Committable.unchanged
    (committable : Committable holds key metadata before) (unchanged : Unchanged before after) :
    Committable holds key metadata after :=
  ⟨committable.toKnown.unchanged property unchanged,
    property.files unchanged.files committable.candidate⟩

omit env in
theorem Committable.insert_sidecar
    (committable : Committable holds key metadata before) (files : after.files = before.files)
    (index : after.index = before.index)
    (sidecars : after.sidecars = before.sidecars.insert key (.metadata metadata)) :
    Committable holds key metadata after := by
  have candidate := property.files files committable.candidate
  refine ⟨⟨?_, ?_⟩, candidate⟩
  · rw [index]
    exact fun entry found =>
      property.files files (committable.indexed entry found)
  · intro entry found
    rw [sidecars, AList.lookup_insert] at found
    cases found
    exact candidate

theorem Committable.indexInsert {disk : Disk} (committable : Committable holds key metadata disk) :
    Known holds key (indexInsert env key metadata disk) := by
  have files : (DiskStorage.indexInsert env key metadata disk).files = disk.files := rfl
  refine ⟨fun entry found => ?_, fun entry found =>
    property.files files (committable.documented entry found)⟩
  rw [indexInsert_lookup] at found
  cases found
  exact property.files files committable.candidate

theorem writeTemporary_committable (metadata : RangeMetadata) :
    Ensures (Committable holds key metadata) (writeTemporary env key metadata)
      fun exit disk => Committable holds key metadata disk ∧ (exit = .ok () →
          disk.temporaries.lookup key = some (.metadata metadata)) := by
  apply ensures_fsCall
  · intro disk held
    exact ⟨held.unchanged property ⟨rfl, rfl, rfl⟩, fun _ => AList.lookup_insert _⟩
  · intro disk message held
    exact ⟨held.unchanged property ⟨rfl, rfl, rfl⟩, fun ended => by cases ended⟩
  · intro disk held
    exact ⟨held.unchanged property ⟨rfl, rfl, rfl⟩, fun ended => by cases ended⟩
  · intro disk held
    exact ⟨held.unchanged property ⟨rfl, rfl, rfl⟩, fun ended => by cases ended⟩

theorem renameTemporary_committable (metadata : RangeMetadata) :
    Ensures (fun disk => Committable holds key metadata disk ∧
        disk.temporaries.lookup key = some (.metadata metadata))
      (renameTemporary env key) fun _ => Committable holds key metadata := by
  apply ensures_fsCall
  · intro disk held
    rw [held.2]
    exact held.1.insert_sidecar property rfl rfl rfl
  · exact fun disk _ held => held.1.unchanged property ⟨rfl, rfl, rfl⟩
  · intro disk held
    rw [held.2]
    exact held.1.insert_sidecar property rfl rfl rfl
  · exact fun disk held => held.1.unchanged property ⟨rfl, rfl, rfl⟩

theorem writeMetadata_committable (metadata : RangeMetadata) :
    Ensures (Committable holds key metadata) (writeMetadata env key metadata)
      fun _ => Committable holds key metadata := by
  have carries : ∀ before after, Unchanged before after → Committable holds key metadata before →
      Committable holds key metadata after :=
    fun _ _ unchanged held => held.unchanged property unchanged
  have cleanup (reason : ProxyError) :
      Ensures (Committable holds key metadata) (do
        dropTemporary env key
        fail reason : DiskM Unit) fun _ => Committable holds key metadata :=
    ensures_bind_invariant ((dropTemporary_unchanged env key).ensures carries)
      fun _ => ensures_fail fun _ => id
  refine ensures_bind_invariant ((tickCall_unchanged env).ensures carries) fun _ => ?_
  refine ensures_attempt_bind (writeTemporary_committable property env metadata) (fun _ => ?_)
    (fun reason => (cleanup reason).weaken (fun _ held => held.1) fun _ _ => id)
    fun _ held => held.1
  exact ensures_attempt_bind ((renameTemporary_committable property env metadata).weaken
      (fun _ held => ⟨held.1, held.2 rfl⟩) fun _ _ => id)
    (fun _ => ensures_pure fun _ => id) cleanup fun _ => id

/-- An update keeps the property when its edit does. -/
theorem updateMetadata_known (edit : RangeMetadata → RangeMetadata × Bool) :
    Ensures (fun disk => Known holds key disk ∧ ∀ metadata,
        holds disk metadata → holds disk (stamp key (edit metadata).1))
      (updateMetadata env key edit) fun _ => Known holds key := by
  intro disk ⟨known, keeps⟩
  have unchanged := currentMetadata_unchanged env key disk
  have current (metadata : RangeMetadata) :
      (currentMetadata env key disk).1 = .ok metadata → holds disk metadata :=
    currentMetadata_known property env known
  unfold updateMetadata
  rw [bind_apply]
  generalize currentMetadata env key disk = ended at unchanged current
  rcases ended with ⟨exit, middle⟩
  cases exit with
  | error reason => exact known.unchanged property unchanged
  | stopped => exact known.unchanged property unchanged
  | ok metadata =>
    simp only
    split
    · have edited := keeps metadata (current metadata rfl)
      have committable :
          Committable holds key (stamp key (edit metadata).1) middle :=
        ⟨known.unchanged property unchanged, property.files unchanged.files edited⟩
      have recorded : Ensures (Committable holds key (stamp key (edit metadata).1)) (do
            writeMetadata env key (stamp key (edit metadata).1)
            update (indexInsert env key (stamp key (edit metadata).1)) :
            DiskM Unit)
          fun _ => Known holds key :=
        ensures_bind (writeMetadata_committable property env _)
          (fun _ => ensures_update fun _ held =>
            held.indexInsert property env)
          (fun _ _ held => held.1) (fun _ held => held.1)
      exact recorded middle committable
    · exact known.unchanged property unchanged

/-- Looking at the metadata keeps the property, and shows only documents that
have it. -/
theorem withMetadata_known (view : RangeMetadata → α) :
    Ensures (Known holds key) (withMetadata env key view) fun exit disk =>
      Known holds key disk ∧ ∀ value, exit = .ok value →
        ∃ metadata, holds disk metadata ∧ value = view metadata := by
  intro disk known
  unfold withMetadata
  rw [bind_of_ok (gets_apply _ disk)]
  cases cached : disk.index.lookup key with
  | some metadata =>
    refine ⟨known, fun value ended => ?_⟩
    cases ended
    exact ⟨metadata, known.indexed metadata cached, rfl⟩
  | none =>
    have unchanged := loadMetadata_unchanged env key disk
    have found (metadata : RangeMetadata) :
        (loadMetadata env key disk).1 = .ok (some metadata) →
          disk.sidecars.lookup key = some (.metadata metadata) :=
      loadMetadata_eq_some env
    simp only
    rw [bind_apply]
    generalize loadMetadata env key disk = loaded at unchanged found
    rcases loaded with ⟨exit, middle⟩
    have knownMiddle := known.unchanged property unchanged
    cases exit with
    | error reason => exact ⟨knownMiddle, fun _ ended => by cases ended⟩
    | stopped => exact ⟨knownMiddle, fun _ ended => by cases ended⟩
    | ok loaded =>
      cases loaded with
      | none =>
        refine ⟨knownMiddle, fun value ended => ?_⟩
        cases ended
        exact ⟨{}, property.initial middle, rfl⟩
      | some metadata =>
        have holdsLoaded := property.files unchanged.files
          (known.documented metadata (found metadata rfl))
        have committable : Committable holds key metadata middle :=
          ⟨knownMiddle, holdsLoaded⟩
        have files : (indexInsert env key metadata middle).files = middle.files := rfl
        refine ⟨committable.indexInsert property env, fun value ended => ?_⟩
        cases ended
        exact ⟨metadata, property.files files holdsLoaded, rfl⟩

theorem dataFileSize_known :
    Ensures (Known holds key) (dataFileSize env key) fun _ => Known holds key :=
  (dataFileSize_unchanged env key).ensures
    fun _ _ unchanged known => known.unchanged property unchanged

/-- Checking a range changes no document. -/
theorem checkRange_known (range : Nat × Nat) :
    Ensures (Known holds key) (checkRange env key range) fun _ => Known holds key := by
  have viewed {α : Type} (view : RangeMetadata → α) :
      Ensures (Known holds key) (withMetadata env key view) fun _ => Known holds key :=
    (withMetadata_known property env view).weaken (fun _ => id) fun _ _ held => held.1
  have requested : Ensures (Known holds key) (requestedEnd env key range)
      fun _ => Known holds key := by
    unfold requestedEnd
    split
    · refine ensures_bind_invariant (viewed _) fun total => ?_
      split
      · exact ensures_pure fun _ => id
      · exact ensures_bind_invariant (dataFileSize_known property env)
          fun _ => ensures_pure fun _ => id
    · exact ensures_pure fun _ => id
  refine ensures_bind_invariant requested fun finish => ?_
  split
  · exact ensures_pure fun _ => id
  · refine ensures_bind_invariant (viewed _) fun covered => ?_
    split
    · exact ensures_bind_invariant (dataFileSize_known property env)
        fun _ => ensures_pure fun _ => id
    · exact ensures_pure fun _ => id

theorem read_known (config : StorageConfig) (range : Nat × Nat) :
    Ensures (Known holds key) (read env config key range) fun _ => Known holds key := by
  refine ensures_bind_invariant (checkRange_known property env range) fun cached => ?_
  split
  · exact (openAndRead_unchanged env config key range).ensures
      fun _ _ unchanged known => known.unchanged property unchanged
  · exact ensures_fail fun _ => id

end Documents

/-! ## Properties of documents alone -/

section Constant

variable {holds : RangeMetadata → Prop} (env : Environment) {key : Key}

theorem documentProperty_const (initial : holds {}) :
    DocumentProperty fun _ : Disk => holds where
  files := fun _ held => held
  initial := fun _ => initial

theorem Known.fileFrame {before after : Disk} (known : Known (fun _ => holds) key before)
    (frame : FileFrame key before after) :
    Known (fun _ => holds) key after := by
  refine ⟨fun metadata found => ?_, fun metadata found => ?_⟩
  · rw [frame.sameIndex] at found
    exact known.indexed metadata found
  · rw [frame.sameSidecars] at found
    exact known.documented metadata found

theorem Known.frame {other : Key} {before after : Disk}
    (known : Known (fun _ => holds) other before) (frame : Frame key before after)
    (ne : other ≠ key) :
    Known (fun _ => holds) other after := by
  refine ⟨fun metadata found => ?_, fun metadata found => ?_⟩
  · rcases frame.index other ne with same | absent
    · rw [same] at found
      exact known.indexed metadata found
    · rw [absent] at found
      cases found
  · rw [frame.sidecars other ne] at found
    exact known.documented metadata found

/-- A write only adds ranges to the documents. -/
theorem write_known (initial : holds {}) (extended : ∀ metadata start finish, holds metadata →
      holds (stamp key (completedEdit start finish metadata).1))
    (stream : ByteStream) (range : Nat × Nat) :
    Ensures (Known (fun _ => holds) key) (write env key stream range)
      fun _ => Known (fun _ => holds) key := by
  have files {computation : DiskM Unit} (keeps : Keeps (FileFrame key) computation) :
      Ensures (Known (fun _ => holds) key) computation fun _ => Known (fun _ => holds) key :=
    keeps.ensures fun _ _ frame known => known.fileFrame frame
  have grows {α : Type} {computation : DiskM α} (keeps : Keeps (Grows key) computation) :
      Ensures (Known (fun _ => holds) key) computation fun _ => Known (fun _ => holds) key :=
    keeps.ensures fun _ _ grows known => known.fileFrame grows.toFileFrame
  have recorded (start finish : Nat) : Ensures (Known (fun _ => holds) key)
      (recordCompletedRange env key start finish)
      fun _ => Known (fun _ => holds) key :=
    (updateMetadata_known (documentProperty_const initial) env _).weaken
      (fun _ known => ⟨known, fun metadata held =>
        extended metadata start finish held⟩) fun _ _ => id
  exact invariant_write env (fun _ => True) (grows (tickCall_grows env))
    (grows (openFile_grows env))
    (fun maxLength disk known =>
      ⟨grows (receive_grows env range.1 maxLength [] stream) disk known, fun _ _ => trivial⟩)
    (fun received _ => files (flush_keeps env range.1 received)) recorded

/-- A deletion removes documents, as far as it gets. -/
theorem delete_known :
    Ensures (Known (fun _ => holds) key) (delete env key) fun _ => Known (fun _ => holds) key := by
  have erased (disk : Disk) (known : Known (fun _ => holds) key disk) :
      Known (fun _ => holds) key
        { disk with index := disk.index.erase key } := by
    refine ⟨fun metadata found => ?_, known.documented⟩
    rw [AList.lookup_erase] at found
    cases found
  have unlinked (disk : Disk) (known : Known (fun _ => holds) key disk) :
      Known (fun _ => holds) key
        { disk with
          files := disk.files.erase key
          clock := disk.clock + 1 } :=
    ⟨known.indexed, known.documented⟩
  have removed (disk : Disk) (known : Known (fun _ => holds) key disk) :
      Known (fun _ => holds) key
        { disk with
          sidecars := disk.sidecars.erase key
          clock := disk.clock + 1 } := by
    refine ⟨known.indexed, fun metadata found => ?_⟩
    rw [AList.lookup_erase] at found
    cases found
  have ticked (disk : Disk) (known : Known (fun _ => holds) key disk) :
      Known (fun _ => holds) key { disk with clock := disk.clock + 1 } :=
    ⟨known.indexed, known.documented⟩
  refine ensures_bind_invariant (ensures_update erased) fun _ => ?_
  refine ensures_bind_invariant (ensures_fsCall env unlinked
    (fun disk _ => ticked disk) unlinked ticked) fun _ => ?_
  exact ensures_fsCall env removed (fun disk _ => ticked disk) removed ticked

end Constant

/-! ## The total length of a resource -/

/-- A known total is the length of the resource, and a machine word. -/
def TotalIs (length : Nat) (total : Option Nat) : Prop :=
  ∀ size, total = some size → size = length ∧ size ≤ u64Max

/-- The documents of a key know no other total than the length of its
resource. -/
abbrev KnowsTotal (length : Nat) (key : Key) (disk : Disk) : Prop :=
  Known (fun _ metadata => TotalIs length metadata.totalSize) key disk

section Totals

variable (env : Environment) {length : Nat} {key : Key}

theorem totalIs_initial : TotalIs length ({} : RangeMetadata).totalSize :=
  fun _ absurdly => by cases absurdly

theorem totalIs_stamp {metadata : RangeMetadata} (holds : TotalIs length metadata.totalSize) :
    TotalIs length (stamp key metadata).totalSize := by
  rw [stamp_totalSize]
  exact holds

theorem write_knowsTotal (stream : ByteStream) (range : Nat × Nat) :
    Ensures (KnowsTotal length key) (write env key stream range) fun _ => KnowsTotal length key :=
  @write_known (fun metadata => TotalIs length metadata.totalSize) env key
    totalIs_initial (fun _ _ _ holds => totalIs_stamp holds) stream range

theorem recordUpstreamMeta_knowsTotal {upstream : UpstreamMeta}
    (faithful : TotalIs length upstream.totalSize) :
    Ensures (KnowsTotal length key) (recordUpstreamMeta env key upstream)
      fun _ => KnowsTotal length key := by
  unfold recordUpstreamMeta
  split
  · exact ensures_pure fun _ => id
  · refine (updateMetadata_known (documentProperty_const totalIs_initial) env
      _).weaken (fun disk known => ⟨known, fun metadata holds => ?_⟩) fun _ _ => id
    apply totalIs_stamp
    intro size size_eq
    rw [upstreamEdit_totalSize, Option.or_eq_some_iff] at size_eq
    rcases size_eq with declared | ⟨_, kept⟩
    · exact faithful size (Option.filter_eq_some_iff.mp declared).1
    · exact holds size kept

theorem upstreamMeta_knowsTotal :
    Yields (KnowsTotal length key) (upstreamMeta env key) fun upstream =>
      TotalIs length upstream.totalSize := by
  intro disk known
  obtain ⟨kept, shown⟩ := withMetadata_known (documentProperty_const totalIs_initial) env
    (fun metadata => (⟨metadata.totalSize, metadata.contentType⟩ :
      UpstreamMeta)) disk known
  refine ⟨kept, fun upstream ended => ?_⟩
  obtain ⟨metadata, holds, rfl⟩ := shown upstream ended
  exact holds

end Totals

end DiskStorage
end VideoProxy
