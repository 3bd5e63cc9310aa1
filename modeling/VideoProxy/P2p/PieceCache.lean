import Mathlib.Data.List.AList
import VideoProxy.Lib.Text
import VideoProxy.Utils.Stream

/-!
# The cache of verified pieces

A registered source keeps verified pieces in memory, up to a number of bytes.
The piece that was inserted first makes room for a new one.
-/

namespace VideoProxy

/-- `MAX_VERIFIED_PIECE_CACHE_BYTES`. -/
def maxVerifiedPieceCacheBytes : Nat := 16 * 1024 * 1024

/-- `VerifiedPieceCache`. -/
structure VerifiedPieceCache where
  entries : AList fun _ : Nat => Bytes
  order : List Nat
  bytes : Nat

namespace VerifiedPieceCache

/-- The default cache. -/
def empty : VerifiedPieceCache where
  entries := ∅
  order := []
  bytes := 0

/-- `VerifiedPieceCache::get`. -/
def get (cache : VerifiedPieceCache) (index : Nat) : Option Bytes :=
  cache.entries.lookup index

/-- The eviction loop of `insert`: the oldest pieces are dropped until there is
room. -/
def makeRoom (length : Nat) (entries : AList fun _ : Nat => Bytes) :
    List Nat → Nat → VerifiedPieceCache
  | [], bytes => ⟨entries, [], bytes⟩
  | oldest :: order, bytes =>
    if saturatingAdd bytes length > maxVerifiedPieceCacheBytes then
      match entries.lookup oldest with
      | some removed =>
        makeRoom length (entries.erase oldest) order (bytes - removed.length)
      | none => makeRoom length entries order bytes
    else ⟨entries, oldest :: order, bytes⟩

/-- `VerifiedPieceCache::insert`: the piece that is in use from now on, and the
cache. -/
def insert (cache : VerifiedPieceCache) (index : Nat)
    (piece : Bytes) : Bytes × VerifiedPieceCache :=
  match cache.entries.lookup index with
  | some existing => (existing, cache)
  | none =>
    if piece.length > maxVerifiedPieceCacheBytes then (piece, cache)
    else
      let room := makeRoom piece.length cache.entries cache.order cache.bytes
      (piece, {
        entries := room.entries.insert index piece
        order := room.order ++ [index]
        bytes := room.bytes + piece.length })

end VerifiedPieceCache

/-- The directory of a manifest identity. -/
abbrev Directory := Text

end VideoProxy
