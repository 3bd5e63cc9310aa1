import VideoProxy.Storage.Refinement

/-!
# Soundness and completeness of the cache over whole runs

Operations that run one after the other over a calm file system keep the
directory and the index a representation of the store.  So after any run
`check_range` reports a closed range as cached exactly when every offset of it
was recorded since the last deletion, and `read` then returns the bytes that
were recorded last.
-/

namespace VideoProxy
namespace DiskStorage

open Faulty IntervalTable

variable {limit : Key → Nat} {store : Store} {operations : List Operation}

theorem Represents.of_metadataFrame {before after : Disk}
    {key : Key} (represents : Represents limit before store)
    (frame : MetadataFrame key before after) (documented : Documented key after (store key)) :
    Represents limit after store := by
  have updated := represents.update frame.toFrame documented
    ((represents key).2.metadataFrame frame)
  rwa [Function.update_eq_self] at updated

theorem Represents.unchanged {before after : Disk}
    (represents : Represents limit before store) (unchanged : Unchanged before after) :
    Represents limit after store := by
  intro key
  refine ⟨(represents key).1.unchanged unchanged, ?_, ?_, ?_⟩
  · rw [unchanged.files]
    exact (represents key).2.stored
  · rw [unchanged.files]
    exact (represents key).2.bounded
  · exact (represents key).2.sized

theorem Represents.reopen {disk : Disk} (represents : Represents limit disk store) :
    Represents limit disk.reopen store := by
  intro key
  obtain ⟨documented, backed⟩ := represents key
  refine ⟨⟨?_, documented.missing, documented.described⟩,
    backed.stored, backed.bounded, backed.sized⟩
  intro metadata indexed
  simp only [Disk.reopen, AList.lookup_empty] at indexed
  cases indexed

theorem represents_empty (limit : Key → Nat) : Represents limit Disk.empty Store.empty := by
  intro key
  refine ⟨⟨?_, fun _ => describes_default, ?_⟩, ?_, ?_, ?_⟩
  · intro metadata indexed
    simp only [Disk.empty, AList.lookup_empty] at indexed
    cases indexed
  · intro document found
    simp only [Disk.empty, AList.lookup_empty] at found
    cases found
  · intro offset byte recorded
    cases recorded
  · intro file found
    simp only [Disk.empty, AList.lookup_empty] at found
    cases found
  · intro total declared
    cases declared

/-- What a run asks of an operation: writes are feasible and end within the
limit of their key, and declared totals are not below it. -/
def Admissible (limit : Key → Nat) : Operation → Prop
  | .write key stream range =>
    Feasible range stream ∧ (accepted range stream ≠ [] →
      range.1 + (accepted range stream).length ≤ limit key)
  | .recordUpstreamMeta key upstream =>
    ∀ total, upstream.totalSize = some total → 0 < total → limit key ≤ total
  | _ => True

section Runs

variable {env : Environment} (calm : env.Calm)
include calm

variable {limit : Key → Nat} (small : ∀ key, limit key ≤ maxFileOffset)
include small

variable {disk : Disk} {store : Store} (represents : Represents limit disk store)
include represents

theorem write_represents {key : Key} {stream : ByteStream} {range : Nat × Nat}
    (feasible : Feasible range stream)
    (fits : accepted range stream ≠ [] → range.1 + (accepted range stream).length ≤ limit key) :
    ∃ after, write env key stream range disk = (writeResult range stream, after) ∧
      Represents limit after ((Operation.write key stream range).apply store) := by
  obtain ⟨documented, backed⟩ := represents key
  obtain ⟨after, writes, documentedAfter, backedAfter⟩ :=
    write_calm calm feasible fits (small key) documented backed
  have frame := write_keeps env key stream range disk
  rw [writes] at frame
  exact ⟨after, writes, represents.update frame documentedAfter backedAfter⟩

theorem recordUpstreamMeta_represents {key : Key} {upstream : UpstreamMeta}
    (sized : ∀ total, upstream.totalSize = some total → 0 < total → limit key ≤ total) :
    ∃ after, recordUpstreamMeta env key upstream disk = (.ok (), after) ∧ Represents limit after
        ((Operation.recordUpstreamMeta key upstream).apply store) := by
  obtain ⟨documented, backed⟩ := represents key
  obtain ⟨after, recorded, documentedAfter, backedAfter⟩ :=
    recordUpstreamMeta_calm calm (small key) documented backed sized
  have frame := recordUpstreamMeta_keeps env key upstream disk
  rw [recorded] at frame
  exact ⟨after, recorded, represents.update frame.toFrame documentedAfter backedAfter⟩

omit small in
theorem delete_represents (key : Key) :
    ∃ after, delete env key disk = (.ok (), after) ∧
      Represents limit after ((Operation.delete key).apply store) := by
  obtain ⟨after, deleted, documentedAfter, backedAfter⟩ := delete_calm calm
  have frame := delete_keeps env key disk
  rw [deleted] at frame
  exact ⟨after, deleted, represents.update frame documentedAfter backedAfter⟩

theorem upstreamMeta_represents (key : Key) :
    ∃ after, upstreamMeta env key disk = (.ok (store key).upstream, after) ∧
      Represents limit after store := by
  obtain ⟨documented, backed⟩ := represents key
  let view : RangeMetadata → UpstreamMeta := fun metadata =>
    { totalSize := metadata.totalSize, contentType := metadata.contentType }
  obtain ⟨metadata, after, viewed, describes, documentedAfter⟩ :=
    withMetadata_calm calm (documented.readable backed (fun _ => id) rfl (small key)) view
  have frame := withMetadata_keeps env key view disk
  rw [viewed] at frame
  refine ⟨after, ?_, represents.of_metadataFrame frame documentedAfter⟩
  rw [describes.upstream]
  exact viewed

/-- The answer of a check about a range that starts before its end. -/
theorem checkRange_represents (key : Key) (range : Nat × Nat) :
    ∃ answer after, checkRange env key range disk = (.ok answer, after) ∧
      Represents limit after store ∧
      (range.1 ≤ range.2 → range.2 ≠ openEnded →
        (answer = true ↔ ∀ offset, range.1 ≤ offset → offset ≤ range.2 →
          ((store key).bytes offset).isSome)) ∧
      (range.2 = openEnded → ∀ total,
        (store key).upstream.totalSize = some total → range.1 < total →
        (answer = true ↔ ∀ offset, range.1 ≤ offset → offset < total →
          ((store key).bytes offset).isSome)) := by
  obtain ⟨documented, backed⟩ := represents key
  obtain ⟨answer, after, finish, checked, documentedAfter, closedEnd, openEnd, _, answer_iff⟩ :=
    checkRange_calm calm (small key) documented backed range
  have frame := checkRange_keeps env key range disk
  rw [checked] at frame
  refine ⟨answer, after, checked, represents.of_metadataFrame frame documentedAfter, ?_, ?_⟩
  · intro ordered closed
    exact answer_iff range.2 (closedEnd closed) ordered
  · intro unbounded total declared inside
    have last_eq : finish = some (total - 1) := by
      rw [openEnd unbounded total declared, checkedSub_eq_some_iff]
      omega
    rw [answer_iff (total - 1) last_eq (by omega)]
    constructor
    · exact fun recorded offset lower upper =>
        recorded offset lower (by omega)
    · exact fun recorded offset lower upper =>
        recorded offset lower (by omega)

omit calm small represents in
theorem read_unchanged (config : StorageConfig) {key : Key} {range : Nat × Nat} {answer : Bool}
    {first : Disk} (checked : checkRange env key range disk = (.ok answer, first)) :
    Unchanged first (read env config key range disk).2 := by
  unfold read
  rw [bind_of_ok checked]
  cases answer with
  | false => exact refl_of Unchanged first
  | true => exact openAndRead_unchanged env config key range first

theorem read_represents (config : StorageConfig) (key : Key) (range : Nat × Nat) :
    Represents limit (read env config key range disk).2 store := by
  obtain ⟨answer, after, checked, representsAfter, _⟩ :=
    checkRange_represents calm small represents key range
  exact representsAfter.unchanged (read_unchanged config checked)

/-- Every operation refines its abstract counterpart. -/
theorem perform_represents (config : StorageConfig) {operation : Operation}
    (admissible : Admissible limit operation) :
    Represents limit (operation.perform env config disk).2 (operation.apply store) := by
  cases operation with
  | write key stream range =>
    obtain ⟨after, writes, representsAfter⟩ := write_represents calm small
      represents admissible.1 admissible.2
    simpa only [Operation.perform, bind_pure_state, writes] using representsAfter
  | recordUpstreamMeta key upstream =>
    obtain ⟨after, recorded, representsAfter⟩ :=
      recordUpstreamMeta_represents calm small represents admissible
    simpa only [Operation.perform, recorded] using representsAfter
  | delete key =>
    obtain ⟨after, deleted, representsAfter⟩ :=
      delete_represents calm represents key
    simpa only [Operation.perform, deleted] using representsAfter
  | checkRange key range =>
    obtain ⟨_, after, checked, representsAfter, _⟩ :=
      checkRange_represents calm small represents key range
    simpa only [Operation.perform, Operation.apply, bind_pure_state, checked] using representsAfter
  | upstreamMeta key =>
    obtain ⟨after, viewed, representsAfter⟩ :=
      upstreamMeta_represents calm small represents key
    simpa only [Operation.perform, Operation.apply, bind_pure_state, viewed] using representsAfter
  | read key range =>
    simpa only [Operation.perform, Operation.apply, bind_pure_state] using
      read_represents calm small represents config key range

theorem step_represents (config : StorageConfig) {operation : Operation}
    (admissible : Admissible limit operation) :
    Represents limit (operation.step env config disk) (operation.apply store) :=
  Operation.step_holds (fun disk => Represents limit disk (operation.apply store))
    (perform_represents calm small represents config admissible) fun _ => Represents.reopen

end Runs

theorem run_represents {env : Environment} (calm : env.Calm)
    (small : ∀ key, limit key ≤ maxFileOffset) (config : StorageConfig)
    (admissible : ∀ operation ∈ operations, Admissible limit operation) {disk : Disk}
    (represents : Represents limit disk store) :
    Represents limit (Operation.run env config operations disk)
      (Operation.applyAll operations store) := by
  induction operations generalizing disk store with
  | nil => exact represents
  | cons operation operations inductionHypothesis =>
    have first := admissible operation List.mem_cons_self
    exact inductionHypothesis (fun other member => admissible other (List.mem_cons_of_mem _ member))
      (step_represents calm small represents config first)

/-! ## The cache over a run -/

/-- The end of the bytes that an operation records for a key. -/
def writeEnd (key : Key) : Operation → Nat
  | .write other stream range =>
    if other = key ∧ accepted range stream ≠ [] then
      range.1 + (accepted range stream).length
    else 0
  | _ => 0

/-- The end of all the bytes that a run records for a key. -/
def runLimit (operations : List Operation) (key : Key) : Nat :=
  (operations.map (writeEnd key)).foldr max 0

theorem runLimit_le_iff {key : Key} {bound : Nat} :
    runLimit operations key ≤ bound ↔ ∀ operation ∈ operations, writeEnd key operation ≤ bound := by
  unfold runLimit
  induction operations with
  | nil => simp
  | cons operation operations inductionHypothesis =>
    simp only [List.map_cons, List.foldr_cons, List.forall_mem_cons, ← inductionHypothesis]
    omega

/-- Writes that are feasible, with totals that are not below the end of what is
written, are admissible for the limit of the run. -/
theorem admissible_runLimit (feasible : ∀ key stream range,
      .write key stream range ∈ operations → Feasible range stream)
    (totals : ∀ key upstream total, .recordUpstreamMeta key upstream ∈ operations →
      upstream.totalSize = some total → 0 < total →
      ∀ stream range, .write key stream range ∈ operations → accepted range stream ≠ [] →
        range.1 + (accepted range stream).length ≤ total)
    {operation : Operation} (member : operation ∈ operations) :
    Admissible (runLimit operations) operation := by
  cases operation with
  | write key stream range =>
    refine ⟨feasible key stream range member, fun nonempty => ?_⟩
    have counted : writeEnd key (.write key stream range) ≤ runLimit operations key :=
      runLimit_le_iff.mp (Nat.le_refl _) _ member
    simpa only [writeEnd, true_and, if_pos nonempty] using counted
  | recordUpstreamMeta key upstream =>
    intro total declared positive
    apply runLimit_le_iff.mpr
    intro other otherMember
    cases other with
    | write otherKey stream range =>
      simp only [writeEnd]
      split
      · rename_i same
        obtain ⟨rfl, nonempty⟩ := same
        exact totals otherKey upstream total member declared positive
          stream range otherMember nonempty
      · exact Nat.zero_le _
    | _ => exact Nat.zero_le _
  | _ => trivial

theorem runLimit_le_maxFileOffset (feasible : ∀ key stream range,
      .write key stream range ∈ operations → Feasible range stream)
    (key : Key) :
    runLimit operations key ≤ maxFileOffset := by
  apply runLimit_le_iff.mpr
  intro operation member
  cases operation with
  | write other stream range =>
    simp only [writeEnd]
    split
    · exact (feasible other stream range member).offsets
    · exact Nat.zero_le _
  | _ => exact Nat.zero_le _

/-- After any run a closed range is reported as cached exactly when every offset
of it was recorded since the last deletion of its key, and it is then read back
as it was recorded last. -/
theorem checkRange_iff_recorded {env : Environment} (calm : env.Calm) {config : StorageConfig}
    (positive : 0 < config.chunkSize) {operations : List Operation}
    (feasible : ∀ key stream range, .write key stream range ∈ operations → Feasible range stream)
    (totals : ∀ key upstream total, .recordUpstreamMeta key upstream ∈ operations →
      upstream.totalSize = some total → 0 < total →
      ∀ stream range, .write key stream range ∈ operations → accepted range stream ≠ [] →
        range.1 + (accepted range stream).length ≤ total)
    (key : Key) {first last : Nat} (ordered : first ≤ last) (closed : last < u64Max) :
    let disk := Operation.run env config operations Disk.empty
    let recorded := (Operation.applyAll operations Store.empty key).bytes
    ∃ answer after, checkRange env key (first, last) disk = (.ok answer, after) ∧
      (answer = true ↔ ∀ offset, first ≤ offset → offset ≤ last → (recorded offset).isSome) ∧
      (answer = true → ∃ stream after block,
        read env config key (first, last) disk = (.ok stream, after) ∧
        contents stream = .ok block ∧
        block.map some = (List.range' first (last - first + 1)).map recorded) := by
  intro disk recorded
  have small := runLimit_le_maxFileOffset feasible
  have represents : Represents (runLimit operations) disk
      (Operation.applyAll operations Store.empty) :=
    run_represents calm small config (fun _ member => admissible_runLimit feasible totals member)
      (represents_empty _)
  have notOpen : last ≠ openEnded := Nat.ne_of_lt closed
  obtain ⟨answer, after, checked, _, answer_iff, _⟩ :=
    checkRange_represents calm small represents key (first, last)
  refine ⟨answer, after, checked, answer_iff ordered notOpen, ?_⟩
  intro positiveAnswer
  exact read_calm calm (small key) (represents key).1 (represents key).2
    positive ordered notOpen ((answer_iff ordered notOpen).mp positiveAnswer)

/-- A tail written before the total is known is found again and read back. -/
theorem checkRange_iff_recorded_tail :
    let operations : List Operation :=
      [.write "asset" [.ok [116, 97], .ok [105, 108]] (8, 11),
        .recordUpstreamMeta "asset" { totalSize := some 12 }]
    let disk := Operation.run .calmHost ⟨4⟩ operations Disk.empty
    let recorded := (Operation.applyAll operations Store.empty "asset").bytes
    ∃ answer after, checkRange .calmHost "asset" (8, 11) disk = (.ok answer, after) ∧
      (answer = true ↔ ∀ offset, 8 ≤ offset → offset ≤ 11 → (recorded offset).isSome) ∧
      (answer = true → ∃ stream after block,
        read .calmHost ⟨4⟩ "asset" (8, 11) disk = (.ok stream, after) ∧
        contents stream = .ok block ∧
        block.map some = (List.range' 8 4).map recorded) := by
  apply checkRange_iff_recorded Environment.calmHost_calm (by decide)
  · intro key stream range member
    simp only [List.mem_cons, Operation.write.injEq, reduceCtorEq,
      List.not_mem_nil, or_false] at member
    obtain ⟨rfl, rfl, rfl⟩ := member
    refine ⟨by decide, ?_, by decide⟩
    intro chunk chunkMember
    simp only [List.mem_cons, Except.ok.injEq, List.not_mem_nil, or_false] at chunkMember
    rcases chunkMember with rfl | rfl <;> decide
  · intro key upstream total member declared positive stream range written _
    simp only [List.mem_cons, Operation.write.injEq, reduceCtorEq,
      Operation.recordUpstreamMeta.injEq, List.not_mem_nil, or_false, false_or] at member written
    obtain ⟨rfl, rfl⟩ := member
    obtain ⟨_, rfl, rfl⟩ := written
    cases declared
    decide
  · decide
  · decide

end DiskStorage
end VideoProxy
