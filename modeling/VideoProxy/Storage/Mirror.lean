import VideoProxy.Storage.Faults
import VideoProxy.Storage.Refinement

/-!
# A cache of one resource

When everything that is written to the cache comes from one resource, each byte
to its own offset, the cache mirrors that resource: a stored byte is the byte of
the resource at that offset, and a recorded total is the length of the resource.
Every operation keeps this up, and a read that succeeds returns a piece of the
resource.
-/

namespace VideoProxy

namespace DiskStorage

open Faulty

/-- Stored bytes are those of the resource. -/
def Agrees (content : Bytes) (key : Key) (disk : Disk) : Prop :=
  ∀ file, disk.files.lookup key = some file → ∀ offset byte, file.cell offset = some byte →
      content[offset]? = some byte

/-- The cache holds only bytes and totals of the resource, and lists as completed
what it holds. -/
structure Mirrors (content : Bytes) (key : Key) (disk : Disk) : Prop
    extends Sound key disk where
  agrees : Agrees content key disk
  totals : KnowsTotal content.length key disk

section Files

variable {content : Bytes} {key : Key} {before after : Disk}

theorem Agrees.of_files (agrees : Agrees content key before) (files : after.files = before.files) :
    Agrees content key after := by
  unfold Agrees
  rw [files]
  exact agrees

/-- A piece of the resource is written to its place. -/
theorem onFile_write_agrees (disk : Disk) (agrees : Agrees content key disk) {start : Nat}
    {block : Bytes} (piece : block <+: content.drop start) :
    Agrees content key (disk.onFile key fun file => file.write start block) := by
  intro other other_eq offset byte stored
  cases found : disk.files.lookup key with
  | none =>
    simp only [Disk.onFile, found] at other_eq
    cases other_eq
  | some file =>
    rw [onFile_lookup found] at other_eq
    cases other_eq
    by_cases inside : start ≤ offset ∧ offset < start + block.length
    · rw [SparseFile.cell_write_inside file inside.1 inside.2] at stored
      obtain ⟨rest, split⟩ := piece
      have place : (content.drop start)[offset - start]? = some byte := by
        rw [← split, List.getElem?_append_left (by omega)]
        exact stored
      rw [List.getElem?_drop] at place
      rwa [show start + (offset - start) = offset by omega] at place
    · rw [SparseFile.cell_write_outside file inside] at stored
      exact agrees file found offset byte stored

end Files

/-! ## Writing -/

section Writing

variable (env : Environment) {content : Bytes} {key : Key}

theorem openFile_agrees :
    Ensures (Agrees content key) (openFile env key) fun _ => Agrees content key := by
  have created (disk : Disk) :
      Agrees content key
        { disk with
          files := disk.files.insert key .empty
          clock := disk.clock + 1 } := by
    intro file found offset byte stored
    rw [AList.lookup_insert] at found
    cases found
    cases stored
  apply ensures_fsCall
  · intro disk agrees
    split
    · exact agrees
    · exact created disk
  · exact fun _ _ => id
  · intro disk agrees
    split
    · exact agrees
    · exact created disk
  · exact fun _ => id

variable {received : Bytes} {start : Nat}

theorem landPart_agrees (piece : received <+: content.drop start)
    (disk : Disk) (agrees : Agrees content key disk) :
    Agrees content key (landPart env key start received
        { disk with clock := disk.clock + 1 }) :=
  onFile_write_agrees { disk with clock := disk.clock + 1 } agrees
    ((List.take_prefix _ _).trans piece)

theorem writeAll_agrees (piece : received <+: content.drop start) :
    Ensures (Agrees content key) (writeAll env key start received) fun _ => Agrees content key := by
  refine ensures_bind_invariant (ensures_fsCall env
    (landPart_agrees env piece) (fun disk _ => landPart_agrees env piece disk)
    (landPart_agrees env piece) (landPart_agrees env piece)) fun _ => ?_
  split
  · exact ensures_fail fun _ => id
  · exact ensures_pure fun _ => id

/-- The write loop accepts a piece of the resource. -/
theorem receive_agrees (maxLength : Option Nat) {stream : ByteStream}
    (piece : delivered stream <+: content.drop start) :
    Yields (Agrees content key) (receive env key start maxLength [] stream)
      fun reception => reception.received <+: content.drop start := by
  refine (yields_receive env (Agrees content key)
    (fun received rest => received ++ delivered rest <+: content.drop start)
    (fun received chunk rest piece _ disk agrees => ?_) piece).weaken
      fun reception ⟨_, piece, _⟩ => (List.prefix_append _ _).trans piece
  have longer : received ++ chunk ++ delivered rest <+: content.drop start := by
    rw [List.append_assoc]
    exact piece
  exact ⟨writeAll_agrees env ((List.prefix_append _ _).trans longer) disk agrees,
    fun _ _ => longer⟩

theorem flush_agrees (piece : received <+: content.drop start) :
    Ensures (Agrees content key) (flush env key start received) fun _ => Agrees content key := by
  have landed (disk : Disk) (agrees : Agrees content key disk) :
      Agrees content key (landPart env key start received
        { disk with clock := disk.clock + 1 }) :=
    landPart_agrees env piece disk agrees
  have written (disk : Disk) (agrees : Agrees content key disk) :
      Agrees content key (({ disk with clock := disk.clock + 1 } : Disk).onFile
        key fun file => file.write start received) :=
    onFile_write_agrees { disk with clock := disk.clock + 1 } agrees piece
  exact ensures_fsCall env written (fun disk _ => landed disk) written landed

theorem agrees_of_metadataFrame {computation : DiskM α}
    (keeps : Keeps (MetadataFrame key) computation) :
    Ensures (Agrees content key) computation fun _ => Agrees content key :=
  keeps.ensures fun _ _ frame agrees => agrees.of_files frame.sameFiles

/-- A write of a piece of the resource to its place. -/
theorem write_agrees {stream : ByteStream} {range : Nat × Nat}
    (piece : delivered stream <+: content.drop range.1) :
    Ensures (Agrees content key) (write env key stream range) fun _ => Agrees content key :=
  invariant_write env (fun received => received <+: content.drop range.1)
    (agrees_of_metadataFrame (Unchanged.metadataFrame key (tickCall_unchanged env)))
    (openFile_agrees env) (fun maxLength => receive_agrees env maxLength piece)
    (fun _ part => flush_agrees env part)
    fun _ _ => agrees_of_metadataFrame (updateMetadata_keeps env key _)

end Writing

/-! ## The other operations -/

section Operations

variable (env : Environment) {content : Bytes} {key : Key}

theorem Mirrors.of_known {before after : Disk} (mirrors : Mirrors content key before)
    (sound : Sound key after) (totals : KnowsTotal content.length key after)
    (files : after.files = before.files) :
    Mirrors content key after where
  toSound := sound
  agrees := mirrors.agrees.of_files files
  totals := totals

theorem Mirrors.frame {other : Key} {before after : Disk} (mirrors : Mirrors content other before)
    (frame : Frame key before after) (ne : other ≠ key) :
    Mirrors content other after where
  toSound := mirrors.toSound.frame frame ne
  agrees := by
    unfold Agrees
    rw [frame.files other ne]
    exact mirrors.agrees
  totals := mirrors.totals.frame frame ne

theorem write_mirrors {stream : ByteStream} {range : Nat × Nat}
    (piece : delivered stream <+: content.drop range.1) :
    Ensures (Mirrors content key) (write env key stream range) fun _ => Mirrors content key :=
  fun disk mirrors => ⟨write_sound env stream range disk mirrors.toSound,
    write_agrees env piece disk mirrors.agrees,
    write_knowsTotal env stream range disk mirrors.totals⟩

theorem recordUpstreamMeta_mirrors {upstream : UpstreamMeta}
    (faithful : TotalIs content.length upstream.totalSize) :
    Ensures (Mirrors content key) (recordUpstreamMeta env key upstream)
      fun _ => Mirrors content key :=
  fun disk mirrors => mirrors.of_known (recordUpstreamMeta_sound env upstream disk mirrors.toSound)
    (recordUpstreamMeta_knowsTotal env faithful disk mirrors.totals)
    (recordUpstreamMeta_keeps env key upstream disk).sameFiles

theorem upstreamMeta_mirrors :
    Yields (Mirrors content key) (upstreamMeta env key) fun upstream =>
      TotalIs content.length upstream.totalSize := by
  intro disk mirrors
  obtain ⟨totals, shown⟩ := upstreamMeta_knowsTotal env disk mirrors.totals
  exact ⟨mirrors.of_known (withMetadata_sound env _ disk mirrors.toSound).1
    totals (withMetadata_keeps env key _ disk).sameFiles, shown⟩

theorem checkRange_mirrors (range : Nat × Nat) :
    Ensures (Mirrors content key) (checkRange env key range) fun _ => Mirrors content key :=
  fun disk mirrors => mirrors.of_known (checkRange_sound env range disk mirrors.toSound)
    (checkRange_known (documentProperty_const totalIs_initial) env range disk mirrors.totals)
    (checkRange_keeps env key range disk).sameFiles

theorem dataFileSize_mirrors :
    Ensures (Mirrors content key) (dataFileSize env key) fun _ => Mirrors content key :=
  fun disk mirrors =>
    have unchanged := dataFileSize_unchanged env key disk
    mirrors.of_known (mirrors.toSound.unchanged unchanged)
      (mirrors.totals.unchanged (documentProperty_const totalIs_initial) unchanged) unchanged.files

/-- Stored bytes read back as a piece of the resource. -/
theorem Mirrors.read_eq_slice {disk : Disk} (mirrors : Mirrors content key disk) {file : SparseFile}
    (found : disk.files.lookup key = some file) {first last : Nat} (ordered : first ≤ last)
    (stored : ∀ offset, first ≤ offset → offset ≤ last → Stored disk key offset) :
    file.read first (last - first + 1) = slice content first last ∧ last < file.length := by
  have cells (offset : Nat) (lower : first ≤ offset) (upper : offset ≤ last) :
      ∃ byte, file.cell offset = some byte ∧ content[offset]? = some byte := by
    obtain ⟨other, other_eq, isSome⟩ := stored offset lower upper
    rw [found] at other_eq
    cases other_eq
    obtain ⟨byte, cell_eq⟩ := Option.isSome_iff_exists.mp isSome
    exact ⟨byte, cell_eq, mirrors.agrees file found offset byte cell_eq⟩
  obtain ⟨byte, cell_eq, place⟩ := cells last ordered le_rfl
  have inside : last < content.length :=
    (List.getElem?_eq_some_iff.mp place).1
  have reaches : last < file.length :=
    SparseFile.lt_length_of_isSome (by rw [cell_eq]; rfl)
  refine ⟨?_, reaches⟩
  rw [SparseFile.read_eq_map file (by omega)]
  apply List.ext_getElem
  · rw [List.length_map, List.length_range', slice_length inside]
    omega
  · intro index small _
    rw [List.length_map, List.length_range'] at small
    obtain ⟨byte, cell_eq, place⟩ :=
      cells (first + index) (by omega) (by omega)
    have content_eq := (List.getElem?_eq_some_iff.mp place).2
    simp only [slice, List.getElem_map, List.getElem_range', List.getElem_take, List.getElem_drop,
      Nat.one_mul, SparseFile.byteAt, cell_eq, Option.getD_some, content_eq]

/-- A closed range that is read without a failure of the disk is a piece of the
resource. -/
theorem read_mirrors (calm : env.Calm) {config : StorageConfig} (positive : 0 < config.chunkSize)
    {range : Nat × Nat} :
    Yields (Mirrors content key) (read env config key range) fun stream =>
      range.1 ≤ range.2 → range.2 ≠ openEnded →
      contents stream = .ok (slice content range.1 range.2) := by
  intro disk mirrors
  refine ⟨mirrors.of_known (read_sound env config range disk mirrors.toSound)
    (read_known (documentProperty_const totalIs_initial) env config range disk mirrors.totals)
    (read_keeps env config key range disk).sameFiles,
    fun stream ended ordered closed => ?_⟩
  obtain ⟨cached, first, checked, opened⟩ := exists_of_bind_ok ended
  cases cached with
  | false => cases opened
  | true =>
    have stored := checkRange_stored env mirrors.toSound closed (by rw [checked])
    have files : first.files = disk.files := by
      have same := (checkRange_keeps env key range disk).sameFiles
      rwa [checked] at same
    cases found : disk.files.lookup key with
    | none =>
      obtain ⟨_, absent, _⟩ := stored range.1 le_rfl ordered
      rw [found] at absent
      cases absent
    | some file =>
      obtain ⟨read_eq, reaches⟩ :=
        mirrors.read_eq_slice found ordered stored
      obtain ⟨served, after, reads, contents_eq⟩ := readFile_calm calm
        positive ordered closed reaches (mirrors.bounded file found)
        { first with clock := first.clock + 1 }
      have opens : openAndRead env config key range first = (.ok served, after) := by
        unfold openAndRead
        rw [bind_of_ok (fsCall_calm calm _ _ _), bind_of_ok (gets_apply _ _)]
        rw [← files] at found
        simp only [id_eq, found]
        exact reads
      simp only [if_true, opens, Exit.ok.injEq] at opened
      subst opened
      rw [contents_eq, read_eq]

theorem delete_mirrors (calm : env.Calm) :
    Ensures (Mirrors content key) (delete env key) fun _ => Mirrors content key := by
  intro disk mirrors
  have whole : ¬TearsDelete env key disk := by
    intro ⟨_, torn⟩
    simp [calm _] at torn
  have deleted : (delete env key disk).2.files.lookup key = none := by
    unfold delete removeData removeSidecar
    rw [bind_of_ok (update_apply _ _), bind_of_ok (fsCall_calm calm _ _ _), fsCall_calm calm]
    exact AList.lookup_erase _ _
  refine ⟨delete_sound env mirrors.toSound whole, fun file found => ?_,
    delete_known env disk mirrors.totals⟩
  rw [deleted] at found
  cases found

end Operations

end DiskStorage
end VideoProxy
