import VideoProxy.P2pNetwork.Bencode

/-!
# Queries to the distributed hash table

A query is a dictionary with a transaction, its kind, the name of the query and
the dictionary of its arguments.  The encoders put the bytes together by hand.
-/

namespace VideoProxy
namespace P2pNetwork

open Faulty

/-- `encode_dht_get_peers`. -/
def encodeDhtGetPeers (transaction : List UInt8)
    (nodeId infoHash : Vector UInt8 20) : Except ProxyError (List UInt8) :=
  if transaction.isEmpty ∨ transaction.length > 32 then
    .error (.parse "invalid DHT transaction ID")
  else
    .ok (Text.ascii "d1:ad2:id20:".toList ++ nodeId.toList ++
      Text.ascii "9:info_hash20:".toList ++ infoHash.toList ++
      Text.ascii "1:q9:get_peers1:t".toList ++
      Text.ascii (Text.decimal transaction.length) ++ [58] ++ transaction ++
      Text.ascii "1:y1:qe".toList)

/-- `encode_dht_ping`. -/
def encodeDhtPing (transaction : List UInt8) :
    Except ProxyError (List UInt8) :=
  if transaction.isEmpty ∨ transaction.length > 32 then
    .error (.parse "invalid DHT transaction ID")
  else
    .ok (Text.ascii "d1:ad2:id20:".toList ++ List.replicate 20 0 ++
      Text.ascii "1:q4:ping1:t".toList ++
      Text.ascii (Text.decimal transaction.length) ++ [58] ++ transaction ++
      Text.ascii "1:y1:qe".toList)

/-- A message that the parser takes as a query with these arguments. -/
def IsQuery (transaction : List UInt8) (name : String) (arguments : List (List UInt8 × BValue))
    (message : List UInt8) : Prop :=
  ∃ entries, BencodeParser.value BencodeParser.maxDepth (.new message) =
      (.ok (.dict entries), ⟨message.length, []⟩) ∧
    entries.lookup (Text.ascii "t".toList) = some (.bytes transaction) ∧
    entries.lookup (Text.ascii "y".toList) = some (.bytes (Text.ascii "q".toList)) ∧
    entries.lookup (Text.ascii "q".toList) = some (.bytes (Text.ascii name.toList)) ∧
    entries.lookup (Text.ascii "a".toList) = some (.dict arguments)

/-! ## Arguments that are not closed -/

/-- What the parser sees after the key of the arguments: the rest of the query is
part of them. -/
def seenArguments (arguments : List (List UInt8 × BValue)) (name : String)
    (transaction : List UInt8) : List (List UInt8 × BValue) :=
  arguments ++ [(Text.ascii "q".toList, .bytes (Text.ascii name.toList)),
    (Text.ascii "t".toList, .bytes transaction),
    (Text.ascii "y".toList, .bytes (Text.ascii "q".toList))]

/-- The arguments of `get_peers`. -/
def getPeersArguments (nodeId infoHash : Vector UInt8 20) :
    List (List UInt8 × BValue) :=
  [(Text.ascii "id".toList, .bytes nodeId.toList),
    (Text.ascii "info_hash".toList, .bytes infoHash.toList)]

/-- The arguments of `ping`. -/
def pingArguments : List (List UInt8 × BValue) :=
  [(Text.ascii "id".toList, .bytes (List.replicate 20 0))]

theorem encodeBytes_twenty {content : List UInt8} (twenty : content.length = 20) :
    BValue.encodeBytes content = Text.ascii "20:".toList ++ content := by
  rw [BValue.encodeBytes, twenty]
  rfl

theorem ascii_opening :
    Text.ascii "d1:ad2:id20:".toList = 100 :: (BValue.encodeBytes (Text.ascii "a".toList) ++
        100 :: (BValue.encodeBytes (Text.ascii "id".toList) ++ Text.ascii "20:".toList)) := by
  decide

theorem ascii_closing :
    Text.ascii "1:y1:qe".toList = BValue.encodeBytes (Text.ascii "y".toList) ++
        (BValue.encodeBytes (Text.ascii "q".toList) ++ [101]) := by
  decide

variable {transaction : List UInt8}

theorem encodeBytes_transaction : BValue.encodeBytes transaction =
    Text.ascii (Text.decimal transaction.length) ++ 58 :: transaction :=
  rfl

theorem encodeDhtGetPeers_eq (accepted : ¬(transaction.isEmpty ∨ transaction.length > 32))
    (nodeId infoHash : Vector UInt8 20) :
    encodeDhtGetPeers transaction nodeId infoHash =
      .ok (100 :: BValue.encodeEntries [(Text.ascii "a".toList,
        .dict (seenArguments (getPeersArguments nodeId infoHash) "get_peers" transaction))]) := by
  have hash : Text.ascii "9:info_hash20:".toList =
      BValue.encodeBytes (Text.ascii "info_hash".toList) ++ Text.ascii "20:".toList := by
    decide
  have query : Text.ascii "1:q9:get_peers1:t".toList = BValue.encodeBytes (Text.ascii "q".toList) ++
        (BValue.encodeBytes (Text.ascii "get_peers".toList) ++
          BValue.encodeBytes (Text.ascii "t".toList)) := by
    decide
  rw [encodeDhtGetPeers, if_neg accepted, ascii_opening, hash, query, ascii_closing]
  simp only [seenArguments, getPeersArguments, BValue.encodeEntries, BValue.encode,
    encodeBytes_twenty nodeId.length_toList, encodeBytes_twenty infoHash.length_toList,
    encodeBytes_transaction, List.append_assoc, List.cons_append, List.nil_append,
    List.append_nil]

theorem encodeDhtPing_eq (accepted : ¬(transaction.isEmpty ∨ transaction.length > 32)) :
    encodeDhtPing transaction = .ok (100 :: BValue.encodeEntries [(Text.ascii "a".toList,
        .dict (seenArguments pingArguments "ping" transaction))]) := by
  have query : Text.ascii "1:q4:ping1:t".toList = BValue.encodeBytes (Text.ascii "q".toList) ++
        (BValue.encodeBytes (Text.ascii "ping".toList) ++
          BValue.encodeBytes (Text.ascii "t".toList)) := by
    decide
  rw [encodeDhtPing, if_neg accepted, ascii_opening, query, ascii_closing]
  simp only [seenArguments, pingArguments, BValue.encodeEntries, BValue.encode,
    encodeBytes_twenty List.length_replicate, encodeBytes_transaction, List.append_assoc,
    List.cons_append, List.nil_append, List.append_nil]

/-! ## The parser refuses the queries -/

/-- An entry of a query: a short key and a short byte string. -/
def Short (entry : List UInt8 × BValue) : Prop :=
  entry.1.length ≤ 32 ∧ ∃ content, entry.2 = .bytes content ∧ content.length ≤ 32

theorem length_encodeBytes_le {content : List UInt8} (short : content.length ≤ 32) :
    (BValue.encodeBytes content).length ≤ 35 := by
  have digits : ∀ length ≤ 32, (Text.decimal length).length ≤ 2 := by decide
  have few := digits content.length short
  rw [BValue.encodeBytes, List.length_append, Text.ascii, List.length_map, List.length_cons]
  omega

theorem length_encodeEntries_le {entries : List (List UInt8 × BValue)}
    (short : ∀ entry ∈ entries, Short entry) :
    (BValue.encodeEntries entries).length ≤ 70 * entries.length := by
  induction entries with
  | nil => exact Nat.le_refl 0
  | cons entry entries inductionHypothesis =>
    obtain ⟨keyShort, content, value_eq, contentShort⟩ :=
      short entry List.mem_cons_self
    have others := inductionHypothesis
      fun entry member => short entry (List.mem_cons_of_mem _ member)
    have key := length_encodeBytes_le keyShort
    have value := length_encodeBytes_le contentShort
    rw [BValue.encodeEntries, value_eq, BValue.encode, List.length_append,
      List.length_append, List.length_cons]
    omega

/-- A query that lacks the end mark of its arguments is refused. -/
theorem value_query_refused {entries : List (List UInt8 × BValue)} (ordered : Ordered entries)
    (short : ∀ entry ∈ entries, Short entry) (few : entries.length ≤ 5) :
    ∃ after, BencodeParser.value BencodeParser.maxDepth (.new (100 :: BValue.encodeEntries
          [(Text.ascii "a".toList, .dict entries)])) =
      (.error (.parse "invalid bencode byte string"), after) := by
  have word : 1000 ≤ u64Max := by decide
  have bound := length_encodeEntries_le short
  apply BencodeParser.value_unclosed
  · intro entry member
    rw [List.mem_singleton.mp member]
    have key : (Text.ascii "a".toList).length ≤ u64Max := by decide
    refine ⟨key, ordered, fun entry member => ?_⟩
    obtain ⟨keyShort, content, value_eq, contentShort⟩ := short entry member
    refine ⟨by omega, ?_⟩
    rw [value_eq]
    change content.length ≤ u64Max
    omega
  · have key : (BValue.encodeBytes (Text.ascii "a".toList)).length = 3 := by
      decide
    simp only [BValue.encodeEntries, BValue.encode, List.append_nil,
      List.length_append, List.length_cons, List.length_nil, key]
    omega

theorem seenArguments_short {arguments : List (List UInt8 × BValue)} {name : String}
    (short : ∀ entry ∈ arguments, Short entry) (nameShort : (Text.ascii name.toList).length ≤ 32)
    (transactionShort : transaction.length ≤ 32) :
    ∀ entry ∈ seenArguments arguments name transaction, Short entry := by
  intro entry member
  rcases List.mem_append.mp member with argument | other
  · exact short entry argument
  · simp only [List.mem_cons, List.not_mem_nil, or_false] at other
    rcases other with rfl | rfl | rfl
    · exact ⟨show (Text.ascii "q".toList).length ≤ 32 by decide, _, rfl, nameShort⟩
    · exact ⟨show (Text.ascii "t".toList).length ≤ 32 by decide, _, rfl, transactionShort⟩
    · exact ⟨show (Text.ascii "y".toList).length ≤ 32 by decide, _, rfl, by decide⟩

/-- An encoder that leaves its arguments open emits well-formed queries just for
the transactions for which it emits none. -/
theorem wellFormed_iff_rejected
    {arguments : List (List UInt8 × BValue)} {name : String}
    {emitted : Except ProxyError (List UInt8)} {reason : ProxyError}
    (rejects : transaction.isEmpty ∨ transaction.length > 32 → emitted = .error reason)
    (emits : ¬(transaction.isEmpty ∨ transaction.length > 32) →
      emitted = .ok (100 :: BValue.encodeEntries [(Text.ascii "a".toList,
        .dict (seenArguments arguments name transaction))]))
    (ordered : Ordered (seenArguments arguments name transaction))
    (short : ∀ entry ∈ arguments, Short entry)
    (nameShort : (Text.ascii name.toList).length ≤ 32)
    (few : arguments.length ≤ 2) :
    (∀ message, emitted = .ok message → IsQuery transaction name arguments message) ↔
      transaction.isEmpty ∨ transaction.length > 32 := by
  constructor
  · intro wellFormed
    by_contra accepted
    have seenShort := seenArguments_short short nameShort
      (show transaction.length ≤ 32 by omega)
    have seenFew : (seenArguments arguments name transaction).length ≤ 5 := by
      rw [seenArguments, List.length_append]
      exact Nat.add_le_add_right few 3
    obtain ⟨after, refused⟩ := value_query_refused ordered seenShort seenFew
    obtain ⟨entries, parsed, -⟩ := wellFormed _ (emits accepted)
    rw [refused] at parsed
    cases parsed
  · intro rejected message accepted
    rw [rejects rejected] at accepted
    cases accepted

theorem short_twenty {key content : List UInt8} (keyShort : key.length ≤ 32)
    (twenty : content.length = 20) : Short (key, .bytes content) :=
  ⟨keyShort, content, rfl, by omega⟩

/-- The queries that the encoders emit are well formed just for the transactions
for which they emit none. -/
theorem emitted_queries_wellFormed_iff (transaction : List UInt8)
    (nodeId infoHash : Vector UInt8 20) :
    ((∀ message, encodeDhtGetPeers transaction nodeId infoHash = .ok message →
          IsQuery transaction "get_peers" (getPeersArguments nodeId infoHash) message) ↔
      transaction.isEmpty ∨ transaction.length > 32) ∧
    ((∀ message, encodeDhtPing transaction = .ok message →
        IsQuery transaction "ping" pingArguments message) ↔
      transaction.isEmpty ∨ transaction.length > 32) := by
  have id : (Text.ascii "id".toList).length ≤ 32 := by decide
  constructor
  · have keys : ([Text.ascii "id".toList, Text.ascii "info_hash".toList,
        Text.ascii "q".toList, Text.ascii "t".toList,
        Text.ascii "y".toList] : List (List UInt8)).Pairwise (· < ·) := by
      decide
    refine wellFormed_iff_rejected (fun rejected => if_pos rejected)
      (encodeDhtGetPeers_eq · nodeId infoHash) (List.pairwise_map.mp keys) ?_ (by decide)
      (Nat.le_refl 2)
    simp only [getPeersArguments, List.mem_cons, List.not_mem_nil, or_false]
    rintro entry (rfl | rfl)
    · exact short_twenty id nodeId.length_toList
    · exact short_twenty (by decide) infoHash.length_toList
  · have keys : ([Text.ascii "id".toList, Text.ascii "q".toList, Text.ascii "t".toList,
        Text.ascii "y".toList] : List (List UInt8)).Pairwise (· < ·) := by
      decide
    refine wellFormed_iff_rejected (fun rejected => if_pos rejected) encodeDhtPing_eq
      (List.pairwise_map.mp keys) ?_ (by decide) (Nat.le_succ 1)
    simp only [pingArguments, List.mem_singleton]
    rintro entry rfl
    exact short_twenty id List.length_replicate

/-- The queries for the transaction `aa` are refused. -/
theorem queries_unclosed :
    ((encodeDhtGetPeers (Text.ascii "aa".toList) (.replicate 20 1)
        (.replicate 20 2)).map fun message =>
      (BencodeParser.value BencodeParser.maxDepth (.new message)).1.error?) =
        .ok (some (.parse "invalid bencode byte string")) ∧
    ((encodeDhtPing (Text.ascii "aa".toList)).map fun message =>
      (BencodeParser.value BencodeParser.maxDepth (.new message)).1.error?) =
        .ok (some (.parse "invalid bencode byte string")) := by
  decide +kernel

end P2pNetwork
end VideoProxy
