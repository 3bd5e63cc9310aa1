import Mathlib.Data.List.Basic
import VideoProxy.Lib.Faulty
import VideoProxy.Utils.Error

/-!
# Assembling the metadata of a torrent

A peer that has the dictionary `info` of a torrent sends it in pieces of 16 KiB.
The assembler has a slot for each piece and takes a piece only with the length that
its place asks for and never a second one of other contents.  What it holds depends on
the pieces that it took and not on their order.
-/

namespace VideoProxy
namespace P2pNetwork

open Faulty

/-- `MetadataExtensionResponse`. -/
inductive MetadataExtensionResponse
  | data (piece : UInt32) (totalSize : Nat) (bytes : List UInt8)
  | reject (piece : UInt32)

/-- The number of pieces of 16 KiB: `div_ceil`. -/
def metadataPieces (size : Nat) : Nat :=
  (size + (16 * 1024 - 1)) / (16 * 1024)

/-- `MetadataAssembler`. -/
structure MetadataAssembler where
  infoHash : List UInt8
  totalSize : Nat
  pieces : List (Option (List UInt8))

namespace MetadataAssembler

/-- `MetadataAssembler::new`. -/
def new (infoHash : List UInt8) (totalSize : Nat) :
    Exit ProxyError MetadataAssembler :=
  if totalSize = 0 ∨ totalSize > 4 * 1024 * 1024 then
    .error (.request "invalid metadata size")
  else
    .ok { infoHash, totalSize, pieces := List.replicate (metadataPieces totalSize) none }

/-- The length of a piece. -/
def expected (assembler : MetadataAssembler) (index : Nat) : Nat :=
  if index + 1 = assembler.pieces.length then
    assembler.totalSize - index * (16 * 1024)
  else 16 * 1024

/-- `MetadataAssembler::insert`. -/
def insert : MetadataExtensionResponse → Faulty MetadataAssembler ProxyError Bool
  | .reject _ => fail (.request "metadata piece was rejected")
  | .data piece totalSize bytes => do
    let assembler ← gets id
    if totalSize ≠ assembler.totalSize then
      fail (.request "metadata total size changed")
    else
      match assembler.pieces[piece.toNat]? with
      | none => fail (.request "metadata piece index out of range")
      | some slot =>
        if bytes.length ≠ assembler.expected piece.toNat then
          fail (.request "metadata piece has wrong length")
        else
          match slot with
          | some existing =>
            if existing ≠ bytes then fail (.request "metadata piece changed")
            else gets fun assembler => assembler.pieces.all Option.isSome
          | none => do
            update fun assembler =>
              { assembler with pieces := assembler.pieces.set piece.toNat (some bytes) }
            gets fun assembler => assembler.pieces.all Option.isSome

/-- The bytes of the pieces. -/
def contents (assembler : MetadataAssembler) : List UInt8 :=
  (assembler.pieces.filterMap id).flatten

/-- `MetadataAssembler::finish`. -/
def finish (sha1 : List UInt8 → List UInt8)
    (assembler : MetadataAssembler) : Exit ProxyError (List UInt8) :=
  if assembler.pieces.any Option.isNone then
    .error (.request "metadata is incomplete")
  else if sha1 assembler.contents ≠ assembler.infoHash then
    .error (.request "metadata InfoHash mismatch")
  else .ok assembler.contents

/-! ## One insertion -/

/-- A piece that is taken is in its slot afterwards, whether it was there before or
not. -/
def place (assembler : MetadataAssembler) (index : Nat) (bytes : List UInt8) :
    MetadataAssembler :=
  { assembler with pieces := assembler.pieces.set index (some bytes) }

/-- A call fails and changes nothing, or takes a piece that fits. -/
theorem insert_cases (response : MetadataExtensionResponse) (assembler : MetadataAssembler) :
    (∃ reason, insert response assembler = (.error reason, assembler)) ∨
      ∃ piece bytes slot, response = .data piece assembler.totalSize bytes ∧
        assembler.pieces[piece.toNat]? = some slot ∧ (slot = none ∨ slot = some bytes) ∧
        bytes.length = assembler.expected piece.toNat ∧
        insert response assembler =
          (.ok ((assembler.place piece.toNat bytes).pieces.all Option.isSome),
            assembler.place piece.toNat bytes) := by
  cases response with
  | reject piece => exact .inl ⟨_, rfl⟩
  | data piece totalSize bytes =>
    by_cases sameSize : totalSize = assembler.totalSize
    · subst sameSize
      cases found : assembler.pieces[piece.toNat]? with
      | none =>
        exact .inl ⟨.request "metadata piece index out of range",
          by simp [insert, bind_apply, fail, found]⟩
      | some slot =>
        by_cases fits : bytes.length = assembler.expected piece.toNat
        · cases slot with
          | none =>
            refine .inr ⟨piece, bytes, none, rfl, found, .inl rfl, fits, ?_⟩
            simp [insert, bind_apply, found, fits, place]
          | some existing =>
            by_cases same : existing = bytes
            · subst same
              refine .inr ⟨piece, existing, some existing, rfl, found, .inr rfl, fits, ?_⟩
              have unchanged : assembler.pieces.set piece.toNat (some existing) =
                  assembler.pieces := by
                obtain ⟨inside, here⟩ := List.getElem?_eq_some_iff.mp found
                rw [← here, List.set_getElem_self]
              simp [insert, bind_apply, found, fits, place, unchanged]
            · exact .inl ⟨.request "metadata piece changed",
                by simp [insert, bind_apply, fail, found, fits, same]⟩
        · exact .inl ⟨.request "metadata piece has wrong length",
            by simp [insert, bind_apply, fail, found, fits]⟩
    · exact .inl ⟨.request "metadata total size changed",
        by simp [insert, bind_apply, fail, sameSize]⟩

/-! ## Runs -/

/-- The effect of a call on the assembler and on the list of the pieces that were
taken. -/
def take (run : List (Nat × List UInt8) × MetadataAssembler)
    (response : MetadataExtensionResponse) : List (Nat × List UInt8) × MetadataAssembler :=
  match response, insert response run.2 with
  | .data piece _ bytes, (.ok _, after) => (run.1 ++ [(piece.toNat, bytes)], after)
  | _, (_, after) => (run.1, after)

/-- Calls from an assembler on. -/
def inserts (start : MetadataAssembler) (responses : List MetadataExtensionResponse) :
    List (Nat × List UInt8) × MetadataAssembler :=
  responses.foldl take ([], start)

/-- The slots have exactly the pieces that were taken, with the lengths of their
places. -/
structure Holds (start : MetadataAssembler) (run : List (Nat × List UInt8) × MetadataAssembler) :
    Prop where
  infoHash_eq : run.2.infoHash = start.infoHash
  totalSize_eq : run.2.totalSize = start.totalSize
  length_eq : run.2.pieces.length = start.pieces.length
  stored : ∀ index bytes, run.2.pieces[index]? = some (some bytes) ↔ (index, bytes) ∈ run.1
  fits : ∀ index bytes, (index, bytes) ∈ run.1 → bytes.length = start.expected index

variable {run : List (Nat × List UInt8) × MetadataAssembler} {start : MetadataAssembler}

theorem take_holds (holds : Holds start run) (response : MetadataExtensionResponse) :
    Holds start (take run response) := by
  rcases insert_cases response run.2 with ⟨reason, failed⟩ |
    ⟨piece, bytes, slot, rfl, found, slot_eq, fits, taken⟩
  · have same : take run response = run := by
      unfold take
      rw [failed]
      cases response with
      | data piece totalSize bytes => rfl
      | reject piece => rfl
    rwa [same]
  · have after : take run (.data piece run.2.totalSize bytes) =
        (run.1 ++ [(piece.toNat, bytes)], run.2.place piece.toNat bytes) := by
      unfold take
      rw [taken]
    obtain ⟨inside, -⟩ := List.getElem?_eq_some_iff.mp found
    rw [after]
    refine ⟨holds.infoHash_eq, holds.totalSize_eq, ?_, fun index other => ?_,
      fun index other member => ?_⟩
    · exact List.length_set.trans holds.length_eq
    · rw [List.mem_append, List.mem_singleton, ← holds.stored index other]
      change (run.2.pieces.set piece.toNat (some bytes))[index]? = some (some other) ↔ _
      by_cases same : piece.toNat = index
      · subst same
        rw [List.getElem?_set_self inside, found]
        rcases slot_eq with rfl | rfl
        · simp [eq_comm]
        · simp [eq_comm]
      · rw [List.getElem?_set_ne same]
        simp [Ne.symm same]
    · rcases List.mem_append.mp member with old | new
      · exact holds.fits index other old
      · cases List.mem_singleton.mp new
        rw [fits, expected, expected, holds.length_eq, holds.totalSize_eq]

variable {totalSize : Nat}

theorem new_eq_ok {infoHash : List UInt8}
    (begun : new infoHash totalSize = .ok start) :
    0 < totalSize ∧ start =
      ⟨infoHash, totalSize, List.replicate (metadataPieces totalSize) none⟩ := by
  unfold new at begun
  split at begun
  · cases begun
  · rename_i allowed
    cases begun
    exact ⟨by omega, rfl⟩

theorem inserts_holds {infoHash : List UInt8}
    (begun : new infoHash totalSize = .ok start) (responses : List MetadataExtensionResponse) :
    Holds start (inserts start responses) := by
  have begins : Holds start ([], start) := by
    refine ⟨rfl, rfl, rfl, fun index bytes => ?_, fun index bytes member => nomatch member⟩
    obtain ⟨-, rfl⟩ := new_eq_ok begun
    simp [List.getElem?_replicate]
  unfold inserts
  generalize ([], start) = run at begins
  induction responses generalizing run with
  | nil => exact begins
  | cons response responses inductionHypothesis =>
    exact inductionHypothesis _ (take_holds begins response)

/-- The pieces that were taken determine the state. -/
theorem Holds.eq_of_same
    {other : List (Nat × List UInt8) × MetadataAssembler} (holds : Holds start run)
    (otherHolds : Holds start other) (same : ∀ piece, piece ∈ run.1 ↔ piece ∈ other.1) :
    run.2 = other.2 := by
  have pieces_eq : run.2.pieces = other.2.pieces := by
    apply List.ext_getElem?
    intro index
    have length_eq := holds.length_eq.trans otherHolds.length_eq.symm
    by_cases inside : index < run.2.pieces.length
    · have stored : ∀ bytes, run.2.pieces[index]? = some (some bytes) ↔
          other.2.pieces[index]? = some (some bytes) := fun bytes => by
        rw [holds.stored, otherHolds.stored, same]
      rw [List.getElem?_eq_getElem inside,
        List.getElem?_eq_getElem (length_eq ▸ inside)] at stored ⊢
      rw [Option.some.injEq]
      apply Option.ext
      intro bytes
      simpa only [Option.some.injEq] using stored bytes
    · rw [List.getElem?_eq_none (by omega), List.getElem?_eq_none (by omega)]
  have infoHash_eq := holds.infoHash_eq.trans otherHolds.infoHash_eq.symm
  have totalSize_eq := holds.totalSize_eq.trans otherHolds.totalSize_eq.symm
  rcases run with ⟨_, _, _, _⟩
  rcases other with ⟨_, _, _, _⟩
  cases pieces_eq
  cases infoHash_eq
  cases totalSize_eq
  rfl

theorem Holds.complete_iff (holds : Holds start run) :
    none ∉ run.2.pieces ↔ ∀ index < start.pieces.length, ∃ bytes, (index, bytes) ∈ run.1 := by
  simp only [← holds.stored, ← holds.length_eq]
  constructor
  · intro complete index inside
    rw [List.getElem?_eq_getElem inside]
    cases here : run.2.pieces[index] with
    | none => exact absurd (here ▸ List.getElem_mem inside) complete
    | some bytes => exact ⟨bytes, rfl⟩
  · intro complete missing
    obtain ⟨index, inside, here⟩ := List.getElem_of_mem missing
    obtain ⟨bytes, stored⟩ := complete index inside
    rw [List.getElem?_eq_getElem inside, here] at stored
    cases stored

/-! ## The length of the metadata -/

theorem flatten_length {width : Nat} {chunks : List (List UInt8)} {size : Nat}
    (nonempty : chunks ≠ []) (enough : (chunks.length - 1) * width ≤ size)
    (lengths : ∀ index chunk, chunks[index]? = some chunk →
      chunk.length = if index + 1 = chunks.length then size - index * width else width) :
    chunks.flatten.length = size := by
  induction chunks generalizing size with
  | nil => exact absurd rfl nonempty
  | cons chunk rest inductionHypothesis =>
    have first := lengths 0 chunk rfl
    rw [List.flatten_cons, List.length_append]
    cases rest with
    | nil => simpa using first
    | cons second rest =>
      simp only [List.length_cons] at first enough lengths
      rw [if_neg (by omega)] at first
      have wide : width + rest.length * width ≤ size := by
        rw [Nat.add_sub_cancel, Nat.add_mul, Nat.one_mul] at enough
        omega
      have later : (second :: rest).flatten.length = size - width := by
        refine inductionHypothesis (List.cons_ne_nil _ _) ?_ fun index piece found => ?_
        · simp only [List.length_cons, Nat.add_sub_cancel]
          omega
        · have here := lengths (index + 1) piece found
          rw [Nat.add_mul, Nat.one_mul] at here
          simp only [List.length_cons]
          split
          · rw [here, if_pos (by omega)]
            omega
          · rw [here, if_neg (by omega)]
      rw [later, first]
      omega

theorem pieces_eq_map_some
    {pieces : List (Option (List UInt8))}
    (complete : none ∉ pieces) :
    pieces = (pieces.filterMap id).map some := by
  induction pieces with
  | nil => rfl
  | cons piece pieces inductionHypothesis =>
    rw [List.mem_cons, not_or] at complete
    cases piece with
    | none => exact absurd rfl complete.1
    | some bytes => exact congrArg (some bytes :: ·) (inductionHypothesis complete.2)

theorem length_contents (holds : Holds start run)
    (complete : none ∉ run.2.pieces) (nonempty : start.pieces ≠ [])
    (enough : (start.pieces.length - 1) * (16 * 1024) ≤ start.totalSize) :
    run.2.contents.length = start.totalSize := by
  have chunks_eq := pieces_eq_map_some complete
  have length_eq := holds.length_eq
  rw [chunks_eq, List.length_map] at length_eq
  refine flatten_length ?_ (length_eq ▸ enough) fun index chunk found => ?_
  · intro empty
    rw [empty] at length_eq
    exact nonempty (List.length_eq_zero_iff.mp length_eq.symm)
  · have stored : run.2.pieces[index]? = some (some chunk) := by
      rw [chunks_eq, List.getElem?_map, found, Option.map_some]
    rw [holds.fits index chunk ((holds.stored index chunk).mp stored), expected, length_eq]

theorem all_isSome_iff (pieces : List (Option (List UInt8))) :
    pieces.all Option.isSome = true ↔ none ∉ pieces := by
  rw [List.all_eq_true]
  constructor
  · intro all missing
    cases all none missing
  · intro complete piece member
    cases piece with
    | none => exact absurd member complete
    | some bytes => rfl

theorem finish_eq_ok_iff (sha1 : List UInt8 → List UInt8) (assembler : MetadataAssembler)
    (metadata : List UInt8) :
    finish sha1 assembler = .ok metadata ↔ none ∉ assembler.pieces ∧
      metadata = assembler.contents ∧ sha1 metadata = assembler.infoHash := by
  have incomplete_iff : assembler.pieces.any Option.isNone = true ↔ none ∈ assembler.pieces := by
    simp [List.any_eq_true]
  unfold finish
  by_cases missing : none ∈ assembler.pieces
  · rw [if_pos (incomplete_iff.mpr missing)]
    exact iff_of_false (fun equal => nomatch equal) fun all => all.1 missing
  · have complete := mt incomplete_iff.mp missing
    by_cases hash : sha1 assembler.contents = assembler.infoHash
    · rw [if_neg complete, if_neg (not_not_intro hash)]
      constructor
      · intro ended
        cases ended
        exact ⟨missing, rfl, hash⟩
      · rintro ⟨-, rfl, -⟩
        rfl
    · rw [if_neg complete, if_pos hash]
      refine iff_of_false (fun equal => nomatch equal) ?_
      rintro ⟨-, rfl, same⟩
      exact hash same

/-- There is a piece for every place. -/
def Complete (totalSize : Nat) (taken : List (Nat × List UInt8)) : Prop :=
  ∀ index < metadataPieces totalSize, ∃ bytes, (index, bytes) ∈ taken

/-- The pieces one after the other, in the order of their places. -/
def Joins
    (totalSize : Nat)
    (taken : List (Nat × List UInt8))
    (metadata : List UInt8) : Prop :=
  ∃ chunks : List (List UInt8), chunks.length = metadataPieces totalSize ∧
    (∀ index chunk, chunks[index]? = some chunk → (index, chunk) ∈ taken) ∧
    metadata = chunks.flatten

/-- What the slots hold is the pieces in the order of their places. -/
theorem Holds.joins_iff
    (holds : Holds start run)
    (count : start.pieces.length = metadataPieces totalSize)
    (metadata : List UInt8) :
    Joins totalSize run.1 metadata ↔
      none ∉ run.2.pieces ∧ metadata = run.2.contents := by
  constructor
  · rintro ⟨chunks, length_eq, taken, rfl⟩
    have pieces_eq : run.2.pieces = chunks.map some := by
      apply List.ext_getElem?
      intro index
      rw [List.getElem?_map]
      cases found : chunks[index]? with
      | none =>
        have outside := List.getElem?_eq_none_iff.mp found
        exact List.getElem?_eq_none (by rw [holds.length_eq, count, ← length_eq]; exact outside)
      | some chunk => exact (holds.stored index chunk).mpr (taken index chunk found)
    rw [contents, pieces_eq]
    refine ⟨by simp, ?_⟩
    rw [List.filterMap_map]
    simp
  · rintro ⟨complete, rfl⟩
    have chunks_eq := pieces_eq_map_some complete
    refine ⟨run.2.pieces.filterMap id, ?_, fun index chunk found => ?_, rfl⟩
    · rw [← count, ← holds.length_eq]
      conv_rhs => rw [chunks_eq, List.length_map]
    · refine (holds.stored index chunk).mp ?_
      rw [chunks_eq, List.getElem?_map, found, Option.map_some]

theorem eq_of_insert_error {response : MetadataExtensionResponse}
    {state after : MetadataAssembler} {reason : ProxyError}
    (failed : insert response state = (.error reason, after)) :
    after = state := by
  rcases insert_cases response state with ⟨_, same⟩ | ⟨_, _, _, _, _, _, _, placed⟩
  · rw [failed] at same
    exact (Prod.mk.inj same).2
  · rw [failed] at placed
    cases (Prod.mk.inj placed).1

/-- One more call that succeeds. -/
theorem inserts_concat_of_ok {start after : MetadataAssembler}
    {responses : List MetadataExtensionResponse} {response : MetadataExtensionResponse}
    {complete : Bool}
    (inserted : insert response (start.inserts responses).2 = (.ok complete, after)) :
    (start.inserts (responses ++ [response])).2 = after ∧
      complete = after.pieces.all Option.isSome := by
  rcases insert_cases response (start.inserts responses).2 with ⟨_, failed⟩ |
    ⟨piece, bytes, _, rfl, _, _, _, placed⟩
  · rw [inserted] at failed
    cases (Prod.mk.inj failed).1
  · rw [inserts, List.foldl_append]
    change (take (start.inserts responses) _).2 = after ∧ _
    unfold take
    rw [inserted] at placed ⊢
    obtain ⟨complete_eq, rfl⟩ := Prod.mk.inj placed
    exact ⟨rfl, Exit.ok.inj complete_eq⟩

/-- For every size that an assembler is made for, and after any calls: a call that
fails changes nothing, and one that succeeds tells whether there is a piece for
every place among those taken; the slots have just the pieces that were taken,
which determine the state; and the metadata comes out exactly when there is a piece
for every place and the pieces, in the order of their places, have the hash: just
these bytes come out, as many as the size says. -/
theorem metadata_assembly
    {infoHash : List UInt8} {totalSize : Nat} {start : MetadataAssembler}
    (begun : new infoHash totalSize = .ok start)
    (sha1 : List UInt8 → List UInt8)
    (responses : List MetadataExtensionResponse) :
    let taken := (start.inserts responses).1
    let state := (start.inserts responses).2
    (∀ response reason after, insert response state = (.error reason, after) →
        after = state) ∧
    (∀ response complete after, insert response state = (.ok complete, after) →
        after = (start.inserts (responses ++ [response])).2 ∧
        (complete = true ↔
          Complete totalSize (start.inserts (responses ++ [response])).1)) ∧
    (∀ index bytes, state.pieces[index]? = some (some bytes) ↔ (index, bytes) ∈ taken) ∧
    (∀ others, (∀ piece, piece ∈ taken ↔ piece ∈ (start.inserts others).1) →
        state = (start.inserts others).2) ∧
    (Complete totalSize taken ↔ ∃ metadata, Joins totalSize taken metadata) ∧
    (∀ metadata, finish sha1 state = .ok metadata ↔
      Joins totalSize taken metadata ∧ sha1 metadata = infoHash) ∧
    ∀ metadata, finish sha1 state = .ok metadata → metadata.length = totalSize := by
  intro taken state
  have holds := inserts_holds begun responses
  obtain ⟨positive, start_eq⟩ := new_eq_ok begun
  have count : start.pieces.length = metadataPieces totalSize := by
    rw [start_eq, List.length_replicate]
  have complete_iff {run : List (Nat × List UInt8) × MetadataAssembler}
      (held : Holds start run) : none ∉ run.2.pieces ↔ Complete totalSize run.1 := by
    rw [held.complete_iff, count]
    rfl
  refine ⟨fun _ _ _ => eq_of_insert_error, ?_, holds.stored, ?_, ?_, ?_, ?_⟩
  · intro response complete after inserted
    obtain ⟨after_eq, complete_eq⟩ := inserts_concat_of_ok inserted
    refine ⟨after_eq.symm, ?_⟩
    rw [← complete_iff (inserts_holds begun _), after_eq, ← all_isSome_iff, complete_eq]
  · exact fun others same => holds.eq_of_same (inserts_holds begun others) same
  · rw [← complete_iff holds]
    constructor
    · exact fun complete => ⟨_, (holds.joins_iff count _).mpr ⟨complete, rfl⟩⟩
    · exact fun ⟨_, joins⟩ => ((holds.joins_iff count _).mp joins).1
  · intro metadata
    have infoHash_eq : state.infoHash = infoHash := by
      rw [holds.infoHash_eq, start_eq]
    rw [finish_eq_ok_iff, holds.joins_iff count, infoHash_eq, and_assoc]
  · intro metadata finished
    obtain ⟨complete, rfl, _⟩ := (finish_eq_ok_iff sha1 _ metadata).mp finished
    have size_eq : start.totalSize = totalSize := by rw [start_eq]
    rw [length_contents holds complete, size_eq]
    · intro empty
      rw [empty] at count
      unfold metadataPieces at count
      simp only [List.length_nil] at count
      omega
    · rw [count, size_eq, metadataPieces]
      omega

/-- Two pieces that come in the wrong order, the second one twice. -/
theorem metadata_assembly_swapped :
    let first : List UInt8 := List.replicate (16 * 1024) 7
    ∃ start, new [1] (16 * 1024 + 1) = .ok start ∧
      finish (fun _ => [1]) (start.inserts [.data 1 (16 * 1024 + 1) [9], .reject 0,
          .data 0 (16 * 1024 + 1) first, .data 1 (16 * 1024 + 1) [9]]).2 =
        .ok (first ++ [9]) := by
  intro first
  have long : first.length = 16 * 1024 := List.length_replicate
  clear_value first
  have begun : new [1] (16 * 1024 + 1) = .ok ⟨[1], 16 * 1024 + 1, [none, none]⟩ := rfl
  refine ⟨_, begun, ?_⟩
  refine ((metadata_assembly begun (fun _ => [1]) _).2.2.2.2.2.1 (first ++ [9])).mpr
    ⟨⟨[first, [9]], rfl, ?_, ?_⟩, rfl⟩
  · have taken : (inserts ⟨[1], 16 * 1024 + 1, [none, none]⟩
        [.data 1 (16 * 1024 + 1) [9], .reject 0, .data 0 (16 * 1024 + 1) first,
          .data 1 (16 * 1024 + 1) [9]]).1 = [(1, [9]), (0, first), (1, [9])] := by
      simp [inserts, take, insert, expected, bind_apply, fail, long]
    rw [taken]
    rintro (_ | _ | index) chunk found
    · cases found
      simp
    · cases found
      simp
    · cases found
  · simp

end MetadataAssembler
end P2pNetwork
end VideoProxy
