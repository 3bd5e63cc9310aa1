import VideoProxy.Lib.Tally
import VideoProxy.P2p.PieceCache

/-!
# The bookkeeping of verified pieces in memory

The cache has the pieces in a map, the order of their arrival in a queue and the
number of their bytes.  The three agree after every call, and for that reason the
eviction loop ends with room for the new piece before the queue is empty.
-/

namespace VideoProxy
namespace VerifiedPieceCache

/-- The queue and the number of bytes are those of the map. -/
structure Tracked (cache : VerifiedPieceCache) : Prop where
  nodup : cache.order.Nodup
  listed : ∀ index, index ∈ cache.order ↔ index ∈ cache.entries
  total : cache.bytes = tally List.length cache.entries

/-! ## Making room -/

/-- A piece leaves the front of the queue. -/
theorem Tracked.evict {entries : AList fun _ : Nat => Bytes} {oldest bytes : Nat}
    {order : List Nat} {removed : Bytes} (tracked : Tracked ⟨entries, oldest :: order, bytes⟩)
    (found : entries.lookup oldest = some removed) :
    Tracked ⟨entries.erase oldest, order, bytes - removed.length⟩ where
  nodup := (List.nodup_cons.mp tracked.nodup).2
  listed := by
    intro index
    have fresh := (List.nodup_cons.mp tracked.nodup).1
    have listed := tracked.listed index
    rw [List.mem_cons] at listed
    rw [AList.mem_erase, ← listed]
    constructor
    · intro member
      exact ⟨fun same => fresh (same ▸ member), .inr member⟩
    · rintro ⟨ne, same | member⟩
      · exact absurd same ne
      · exact member
  total := by
    have erased := tally_erase List.length entries oldest
    have total := tracked.total
    rw [tallyAt_of_lookup List.length found] at erased
    simp only at total ⊢
    omega

/-- What the eviction loop leaves: the pieces that it dropped were first in the
queue, and there is room for the new one. -/
structure Roomy (cache room : VerifiedPieceCache) (length : Nat) (evicted : List Nat) :
    Prop where
  tracked : room.Tracked
  fits : room.bytes + length ≤ maxVerifiedPieceCacheBytes
  order_eq : cache.order = evicted ++ room.order
  lookup_eq : ∀ index, room.entries.lookup index =
    if index ∈ evicted then none else cache.entries.lookup index

theorem exists_makeRoom {length : Nat} (small : length ≤ maxVerifiedPieceCacheBytes)
    {entries : AList fun _ : Nat => Bytes} {order : List Nat} {bytes : Nat}
    (tracked : Tracked ⟨entries, order, bytes⟩) :
    ∃ evicted, Roomy ⟨entries, order, bytes⟩ (makeRoom length entries order bytes) length
      evicted := by
  induction order generalizing entries bytes with
  | nil =>
    have none : tally List.length entries = 0 :=
      tally_eq_sum List.length List.nodup_nil fun index member =>
        (tracked.listed index).mpr member
    have total := tracked.total
    refine ⟨[], tracked, ?_, rfl, fun index => (if_neg List.not_mem_nil).symm⟩
    simp only [none] at total
    rw [makeRoom, total, Nat.zero_add]
    exact small
  | cons oldest order inductionHypothesis =>
    rw [makeRoom]
    split
    · obtain ⟨removed, found⟩ := Option.isSome_iff_exists.mp
        (AList.lookup_isSome.mpr ((tracked.listed oldest).mp List.mem_cons_self))
      obtain ⟨evicted, roomy⟩ := inductionHypothesis (tracked.evict found)
      simp only [found]
      refine ⟨oldest :: evicted, roomy.tracked, roomy.fits,
        congrArg (oldest :: ·) roomy.order_eq, fun index => ?_⟩
      rw [roomy.lookup_eq index]
      by_cases same : index = oldest
      · subst same
        simp only [AList.lookup_erase, List.mem_cons_self, if_true, ite_self]
      · simp only [AList.lookup_erase_ne same, List.mem_cons, same, false_or]
    · rename_i enough
      refine ⟨[], tracked, ?_, rfl, fun index => (if_neg List.not_mem_nil).symm⟩
      have limit : maxVerifiedPieceCacheBytes < u64Max := by decide
      simp only [saturatingAdd] at enough ⊢
      omega

variable {index : Nat} {cache : VerifiedPieceCache}

/-- A new piece goes to the end of the queue. -/
theorem Tracked.add {room : VerifiedPieceCache} (tracked : room.Tracked)
    (missing : room.entries.lookup index = none) (piece : Bytes) :
    Tracked ⟨room.entries.insert index piece, room.order ++ [index],
      room.bytes + piece.length⟩ where
  nodup := by
    rw [← List.concat_eq_append, List.nodup_concat]
    refine ⟨fun member => ?_, tracked.nodup⟩
    have stored := AList.lookup_isSome.mpr ((tracked.listed index).mp member)
    rw [missing] at stored
    cases stored
  listed := by
    intro other
    rw [AList.mem_insert, ← tracked.listed other, List.mem_append, List.mem_singleton, or_comm]
  total := by
    have inserted := tally_insert List.length room.entries index piece
    rw [tallyAt_of_none List.length missing] at inserted
    exact (congrArg (· + piece.length) tracked.total).trans inserted.symm

/-! ## Calls -/

theorem insert_of_stored {existing : Bytes}
    (stored : cache.get index = some existing) (piece : Bytes) :
    cache.insert index piece = (existing, cache) := by
  unfold get at stored
  rw [insert, stored]

theorem insert_of_large {piece : Bytes}
    (missing : cache.get index = none) (large : maxVerifiedPieceCacheBytes < piece.length) :
    cache.insert index piece = (piece, cache) := by
  unfold get at missing
  rw [insert, missing]
  exact if_pos large

/-- A piece that is stored: pieces at the front of the queue made room for it. -/
theorem Tracked.insert_new (tracked : cache.Tracked)
    {piece : Bytes} (missing : cache.get index = none)
    (small : piece.length ≤ maxVerifiedPieceCacheBytes) :
    (cache.insert index piece).1 = piece ∧ (cache.insert index piece).2.Tracked ∧
      (cache.insert index piece).2.bytes ≤ maxVerifiedPieceCacheBytes ∧
      ∃ evicted kept, cache.order = evicted ++ kept ∧
        (cache.insert index piece).2.order = kept ++ [index] ∧
        ∀ other, (cache.insert index piece).2.get other =
          if other = index then some piece else if other ∈ evicted then none
          else cache.get other := by
  obtain ⟨evicted, roomy⟩ := exists_makeRoom small (show Tracked ⟨_, _, _⟩ from tracked)
  have insert_eq : cache.insert index piece =
      (piece, ⟨(makeRoom piece.length cache.entries cache.order cache.bytes).entries.insert
          index piece,
        (makeRoom piece.length cache.entries cache.order cache.bytes).order ++ [index],
        (makeRoom piece.length cache.entries cache.order cache.bytes).bytes + piece.length⟩) := by
    unfold get at missing
    rw [insert, missing]
    exact if_neg (Nat.not_lt.mpr small)
  have gone : (makeRoom piece.length cache.entries cache.order cache.bytes).entries.lookup
      index = none := by
    rw [roomy.lookup_eq index, show cache.entries.lookup index = none from missing, ite_self]
  rw [insert_eq]
  refine ⟨rfl, roomy.tracked.add gone piece, roomy.fits, evicted, _, roomy.order_eq, rfl,
    fun other => ?_⟩
  by_cases same : other = index
  · subst same
    rw [if_pos rfl]
    exact AList.lookup_insert _
  · rw [if_neg same]
    exact (AList.lookup_insert_ne same).trans (roomy.lookup_eq other)

/-- The calls of the cache. -/
inductive Call
  | insert (index : Nat) (piece : Bytes)
  | get (index : Nat)

/-- The effect of a call on the cache and on the list of the pieces that were stored
so far. -/
def call (state : VerifiedPieceCache × List Nat) : Call → VerifiedPieceCache × List Nat
  | .insert index piece =>
    ((state.1.insert index piece).2,
      if state.1.get index = none ∧ piece.length ≤ maxVerifiedPieceCacheBytes then
        state.2 ++ [index]
      else state.2)
  | .get _ => state

/-- Calls from the empty cache on. -/
def calls (made : List Call) : VerifiedPieceCache × List Nat :=
  made.foldl call (empty, [])

/-- What holds after every call. -/
structure Kept (state : VerifiedPieceCache × List Nat) : Prop where
  tracked : state.1.Tracked
  bounded : state.1.bytes ≤ maxVerifiedPieceCacheBytes
  latest : ∃ evicted, state.2 = evicted ++ state.1.order

theorem call_kept {state : VerifiedPieceCache × List Nat} (kept : Kept state) (made : Call) :
    Kept (call state made) := by
  cases made with
  | get index => exact kept
  | insert index piece =>
    rw [call]
    cases found : state.1.get index with
    | some existing =>
      rw [insert_of_stored found, if_neg (fun both => nomatch both.1)]
      exact kept
    | none =>
      by_cases small : piece.length ≤ maxVerifiedPieceCacheBytes
      · obtain ⟨-, tracked, bounded, evicted, rest, order_eq, newOrder, -⟩ :=
          kept.tracked.insert_new found small
        obtain ⟨earlier, stored_eq⟩ := kept.latest
        rw [if_pos ⟨rfl, small⟩]
        refine ⟨tracked, bounded, earlier ++ evicted, ?_⟩
        simp only [newOrder, stored_eq, order_eq, List.append_assoc]
      · rw [insert_of_large found (Nat.lt_of_not_le small), if_neg (fun both => small both.2)]
        exact kept

theorem calls_kept (made : List Call) : Kept (calls made) := by
  have start : Kept (empty, []) :=
    ⟨⟨List.nodup_nil, fun index => iff_of_false List.not_mem_nil (AList.notMem_empty index), rfl⟩,
      Nat.zero_le _, [], rfl⟩
  unfold calls
  generalize (empty, []) = state at start
  induction made generalizing state with
  | nil => exact start
  | cons first made inductionHypothesis =>
    exact inductionHypothesis _ (call_kept start first)

/-- After any calls the queue has exactly the stored pieces, each once, and is the
end of the list of all pieces stored so far; the bytes are counted and bounded.  The
next insertion gives back what is stored for the index, or else the given piece,
which is stored after the front of the queue has made room. -/
theorem pieceCache_bookkeeping (made : List Call) :
    Kept (calls made) ∧
    ∀ index piece, ((calls made).1.insert index piece).1 = ((calls made).1.get index).getD piece ∧
      ((calls made).1.get index = none → piece.length ≤ maxVerifiedPieceCacheBytes →
        (makeRoom piece.length (calls made).1.entries (calls made).1.order
          (calls made).1.bytes).bytes + piece.length ≤ maxVerifiedPieceCacheBytes ∧
        ∃ evicted kept, (calls made).1.order = evicted ++ kept ∧
          ((calls made).1.insert index piece).2.order = kept ++ [index] ∧
          ∀ other, ((calls made).1.insert index piece).2.get other =
            if other = index then some piece else if other ∈ evicted then none
            else (calls made).1.get other) := by
  have kept := calls_kept made
  refine ⟨kept, fun index piece => ⟨?_, fun missing small => ?_⟩⟩
  · cases found : (calls made).1.get index with
    | some existing => rw [insert_of_stored found, Option.getD_some]
    | none =>
      by_cases small : piece.length ≤ maxVerifiedPieceCacheBytes
      · exact (kept.tracked.insert_new found small).1
      · rw [insert_of_large found (Nat.lt_of_not_le small), Option.getD_none]
  · obtain ⟨_, roomy⟩ := exists_makeRoom small (show Tracked ⟨_, _, _⟩ from kept.tracked)
    exact ⟨roomy.fits, (kept.tracked.insert_new missing small).2.2.2⟩

end VerifiedPieceCache
end VideoProxy
