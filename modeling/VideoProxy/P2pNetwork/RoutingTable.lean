import Mathlib.Data.List.Lex
import Mathlib.Data.List.Perm.Basic
import VideoProxy.Lib.Nearest
import VideoProxy.P2pNetwork.PublicSocket

/-!
# The routing table of the hash table

The table keeps the nodes nearest to its own identifier, where the distance of two
identifiers is the bits in which they differ, read as a number.  A full table gives
up its farthest node for a nearer one.
-/

namespace VideoProxy
namespace P2pNetwork

open NetworkPolicy

/-- `DhtNode`. -/
structure DhtNode where
  id : Vector UInt8 20
  address : SocketAddr
deriving DecidableEq

/-- `xor_distance`. -/
def xorDistance (left right : Vector UInt8 20) : Vector UInt8 20 :=
  Vector.zipWith (· ^^^ ·) left right

/-- Arrays are compared byte by byte. -/
def distance (target id : Vector UInt8 20) : List Nat :=
  (xorDistance id target).toList.map UInt8.toNat

/-- `max_by_key` of an enumeration: the last of the elements with the largest key. -/
def maxByKey (key : α → List Nat) : List α → Option (Nat × α)
  | [] => none
  | first :: rest =>
    match maxByKey key rest with
    | none => some (0, first)
    | some (index, largest) =>
      if key largest < key first then some (0, first) else some (index + 1, largest)

/-- `Vec::swap_remove`. -/
def swapRemove (values : List α) (index : Nat) : List α :=
  match values.getLast? with
  | none => values
  | some last => (values.set index last).dropLast

/-- The address of a node that is there is overwritten. -/
def updateAddress (node : DhtNode) : List DhtNode → Option (List DhtNode)
  | [] => none
  | existing :: rest =>
    if existing.id = node.id then some ({ existing with address := node.address } :: rest)
    else (updateAddress node rest).map (existing :: ·)

/-- `DhtRoutingTable`. -/
structure DhtRoutingTable where
  localId : Vector UInt8 20
  nodes : List DhtNode
  capacity : Nat

namespace DhtRoutingTable

/-- `DhtRoutingTable::new`. -/
def new (localId : Vector UInt8 20) (capacity : Nat) : Except ProxyError DhtRoutingTable :=
  if capacity = 0 ∨ capacity > 4096 then
    .error (.request "invalid DHT routing capacity")
  else .ok ⟨localId, [], capacity⟩

/-- `DhtRoutingTable::insert`; there is no result where it panics. -/
def insert (table : DhtRoutingTable) (node : DhtNode) : Option (Bool × DhtRoutingTable) :=
  if node.id = table.localId ∨ ¬isPublicSocket node.address then some (false, table)
  else
    match updateAddress node table.nodes with
    | some nodes => some (true, { table with nodes })
    | none =>
      if table.nodes.length = table.capacity then
        match maxByKey (fun node => distance table.localId node.id) table.nodes with
        | none => none
        | some (index, farthest) =>
          if distance table.localId node.id ≥ distance table.localId farthest.id then
            some (false, table)
          else
            some (true, { table with nodes := swapRemove table.nodes index ++ [node] })
      else some (true, { table with nodes := table.nodes ++ [node] })

/-- The order of the keys of `sort_by_key`. -/
def byDistance (target : Vector UInt8 20) (left right : DhtNode) : Bool :=
  distance target left.id ≤ distance target right.id

/-- `DhtRoutingTable::closest`. -/
def closest (table : DhtRoutingTable) (target : Vector UInt8 20) (limit : Nat) : List DhtNode :=
  (table.nodes.mergeSort (byDistance target)).take (min limit table.nodes.length)

/-- Insertions one after another. -/
def inserts (table : DhtRoutingTable) : List DhtNode → Option DhtRoutingTable
  | [] => some table
  | node :: nodes => (table.insert node).bind fun inserted => inserted.2.inserts nodes

end DhtRoutingTable

/-! ## The distance -/

/-- No two nodes are at the same distance. -/
theorem distance_injective (target : Vector UInt8 20) : Function.Injective (distance target) := by
  intro left right equal
  have same : xorDistance left target = xorDistance right target :=
    Vector.toList_inj.mp (List.map_injective_iff.mpr (fun _ _ => UInt8.toNat_inj.mp) equal)
  apply Vector.ext
  intro index inside
  have byte := congrArg (fun bytes => bytes[index]) same
  simp only [xorDistance, Vector.getElem_zipWith] at byte
  exact (UInt8.xor_left_inj _).mp byte

/-! ## Operations on lists -/

theorem maxByKey_eq_none_iff (key : α → List Nat) (values : List α) :
    maxByKey key values = none ↔ values = [] := by
  cases values with
  | nil => exact iff_of_true rfl rfl
  | cons first rest =>
    refine iff_of_false (fun missing => ?_) (List.cons_ne_nil _ _)
    unfold maxByKey at missing
    split at missing
    · cases missing
    · split at missing
      · cases missing
      · cases missing

/-- The entry found has the largest key. -/
theorem maxByKey_spec {key : α → List Nat} {values : List α} {index : Nat} {largest : α}
    (found : maxByKey key values = some (index, largest)) :
    values[index]? = some largest ∧ ∀ other ∈ values, key other ≤ key largest := by
  induction values generalizing index largest with
  | nil => cases found
  | cons first rest inductionHypothesis =>
    unfold maxByKey at found
    split at found
    · rename_i missing
      cases found
      rw [(maxByKey_eq_none_iff key rest).mp missing]
      exact ⟨rfl, fun other member => le_of_eq (by rw [List.mem_singleton.mp member])⟩
    · rename_i later best later_eq
      obtain ⟨here, largestLater⟩ := inductionHypothesis later_eq
      split at found
      · rename_i larger
        cases found
        refine ⟨rfl, List.forall_mem_cons.mpr ⟨le_refl _, fun other member => ?_⟩⟩
        exact (largestLater other member).trans larger.le
      · rename_i smaller
        cases found
        exact ⟨here, List.forall_mem_cons.mpr ⟨not_lt.mp smaller, largestLater⟩⟩

/-- Just the entry at the index is removed. -/
theorem swapRemove_perm {values : List α} {index : Nat} {removed : α}
    (found : values[index]? = some removed) :
    (removed :: swapRemove values index).Perm values := by
  obtain ⟨inside, rfl⟩ := List.getElem?_eq_some_iff.mp found
  rcases List.eq_nil_or_concat values with rfl | ⟨init, last, rfl⟩
  · cases inside
  · simp only [List.concat_eq_append, swapRemove, List.getLast?_concat] at inside ⊢
    by_cases early : index < init.length
    · rw [List.set_append_left _ _ early, List.dropLast_concat, List.getElem_append_left early]
      calc
        (init[index] :: init.set index last).Perm (init[index] :: last :: init.eraseIdx index) :=
          (List.set_perm_cons_eraseIdx early last).cons _
        List.Perm _ (last :: init[index] :: init.eraseIdx index) := List.Perm.swap _ _ _
        List.Perm _ (last :: init) := (List.getElem_cons_eraseIdx_perm early).cons _
        List.Perm _ (init ++ [last]) := (List.perm_append_singleton last init).symm
    · obtain rfl : index = init.length := by
        simp only [List.length_append, List.length_singleton] at inside
        omega
      simp only [List.getElem_concat_length, List.set_append_right _ _ (Nat.le_refl _),
        Nat.sub_self, List.set_cons_zero, List.dropLast_concat]
      exact (List.perm_append_singleton last init).symm

theorem updateAddress_eq_none_iff (node : DhtNode) (nodes : List DhtNode) :
    updateAddress node nodes = none ↔ node.id ∉ nodes.map DhtNode.id := by
  induction nodes with
  | nil => simp [updateAddress]
  | cons existing rest inductionHypothesis =>
    unfold updateAddress
    split
    · rename_i same
      simp [same]
    · rename_i differs
      simp [inductionHypothesis, Ne.symm differs]

/-- A known node only gets its new address. -/
theorem updateAddress_spec {node : DhtNode} {nodes updated : List DhtNode}
    (nodup : (nodes.map DhtNode.id).Nodup) (found : updateAddress node nodes = some updated) :
    updated.map DhtNode.id = nodes.map DhtNode.id ∧
      ∀ other ∈ updated, other = node ∨ other ∈ nodes ∧ other.id ≠ node.id := by
  induction nodes generalizing updated with
  | nil => cases found
  | cons existing rest inductionHypothesis =>
    obtain ⟨fresh, nodupRest⟩ := List.nodup_cons.mp nodup
    unfold updateAddress at found
    split at found
    · rename_i same
      cases found
      refine ⟨rfl, List.forall_mem_cons.mpr
        ⟨.inl ?_, fun other member => .inr ⟨.tail _ member, ?_⟩⟩⟩
      · cases node
        cases same
        rfl
      · rw [← same]
        exact fun equal => fresh (equal ▸ List.mem_map_of_mem member)
    · rename_i differs
      obtain ⟨later, later_eq, rfl⟩ := Option.map_eq_some_iff.mp found
      obtain ⟨ids_eq, members⟩ := inductionHypothesis nodupRest later_eq
      refine ⟨by rw [List.map_cons, ids_eq, List.map_cons], List.forall_mem_cons.mpr
        ⟨.inr ⟨List.mem_cons_self, differs⟩, fun other member => ?_⟩⟩
      exact (members other member).imp_right fun old => ⟨.tail _ old.1, old.2⟩

namespace DhtRoutingTable

/-! ## What the table keeps -/

/-- The nodes that may enter a table. -/
def offered (localId : Vector UInt8 20) (inserted : List DhtNode) : List DhtNode :=
  inserted.filter fun node => node.id ≠ localId ∧ isPublicSocket node.address

/-- The last node that was offered under an identifier. -/
def latest (localId : Vector UInt8 20) (inserted : List DhtNode) (id : Vector UInt8 20) :
    Option DhtNode :=
  ((offered localId inserted).filter fun node => node.id = id).getLast?

/-- The identifiers of nodes. -/
def ids (nodes : List DhtNode) : Finset (Vector UInt8 20) :=
  (nodes.map DhtNode.id).toFinset

/-- The table has the nearest of the offered nodes, as they were offered last. -/
structure Keeps (table : DhtRoutingTable) (inserted : List DhtNode) : Prop where
  nodup : (table.nodes.map DhtNode.id).Nodup
  latest : ∀ node ∈ table.nodes, latest table.localId inserted node.id = some node
  nearest : Nearest (distance table.localId) table.capacity
    (ids (offered table.localId inserted)) (ids table.nodes)

variable {nodes inserted : List DhtNode} {node : DhtNode} {table : DhtRoutingTable}

theorem mem_ids {id : Vector UInt8 20} : id ∈ ids nodes ↔ ∃ node ∈ nodes, node.id = id := by
  rw [ids, List.mem_toFinset, List.mem_map]

theorem card_ids (nodup : (nodes.map DhtNode.id).Nodup) : (ids nodes).card = nodes.length := by
  rw [ids, List.toFinset_card_of_nodup nodup, List.length_map]

theorem ids_concat (nodes : List DhtNode) (node : DhtNode) :
    ids (nodes ++ [node]) = Insert.insert node.id (ids nodes) := by
  ext id
  simp [ids, eq_comm]

theorem nodup_ids_concat
    (nodup : (nodes.map DhtNode.id).Nodup) (fresh : node.id ∉ nodes.map DhtNode.id) :
    ((nodes ++ [node]).map DhtNode.id).Nodup := by
  rw [List.map_append, List.map_singleton, List.nodup_append_comm]
  exact List.nodup_cons.mpr ⟨fresh, nodup⟩

theorem swapRemove_ids {index : Nat} {removed : DhtNode}
    (nodup : (nodes.map DhtNode.id).Nodup) (here : nodes[index]? = some removed) :
    ((swapRemove nodes index).map DhtNode.id).Nodup ∧
      ids (swapRemove nodes index) = (ids nodes).erase removed.id ∧
      ∀ other ∈ swapRemove nodes index, other ∈ nodes := by
  have permutes := swapRemove_perm here
  have idsPermute := permutes.map DhtNode.id
  obtain ⟨fresh, nodupRest⟩ := List.nodup_cons.mp (idsPermute.nodup_iff.mpr nodup)
  refine ⟨nodupRest, ?_, fun other member => permutes.subset (List.mem_cons_of_mem _ member)⟩
  have ids_eq : ids nodes = Insert.insert removed.id (ids (swapRemove nodes index)) := by
    rw [ids, ← List.toFinset_eq_of_perm _ _ idsPermute, List.map_cons, List.toFinset_cons, ids]
  rw [ids_eq, Finset.erase_insert]
  rwa [ids, List.mem_toFinset]

theorem offered_concat (localId : Vector UInt8 20) (inserted : List DhtNode) (node : DhtNode) :
    offered localId (inserted ++ [node]) =
      if node.id = localId ∨ ¬isPublicSocket node.address then offered localId inserted
      else offered localId inserted ++ [node] := by
  rw [offered, List.filter_append, List.filter_singleton]
  split
  · rename_i refused
    have dropped : ¬(node.id ≠ localId ∧ isPublicSocket node.address = true) := by tauto
    simp [dropped, offered]
  · rename_i eligible
    have taken : node.id ≠ localId ∧ isPublicSocket node.address = true := by tauto
    simp [taken, offered]

theorem latest_concat {localId : Vector UInt8 20}
    (eligible : ¬(node.id = localId ∨ ¬isPublicSocket node.address)) (inserted : List DhtNode)
    (id : Vector UInt8 20) :
    latest localId (inserted ++ [node]) id =
      if node.id = id then some node else latest localId inserted id := by
  rw [latest, offered_concat, if_neg eligible, List.filter_append, List.filter_singleton]
  split
  · rename_i same
    simp [same]
  · rename_i differs
    simp [differs, latest]

/-- A node is offered: the table takes it over or stays without it. -/
theorem Keeps.offer (keeps : Keeps table inserted)
    (eligible : ¬(node.id = table.localId ∨ ¬isPublicSocket node.address))
    (nodup : (nodes.map DhtNode.id).Nodup)
    (members : ∀ other ∈ nodes, other = node ∨ other ∈ table.nodes ∧ other.id ≠ node.id)
    (nearest : Nearest (distance table.localId) table.capacity
      (Insert.insert node.id (ids (offered table.localId inserted))) (ids nodes)) :
    Keeps { table with nodes } (inserted ++ [node]) where
  nodup := nodup
  latest := by
    intro other member
    rw [latest_concat eligible]
    rcases members other member with rfl | ⟨old, differs⟩
    · exact if_pos rfl
    · rw [if_neg (Ne.symm differs)]
      exact keeps.latest other old
  nearest := by
    rw [offered_concat, if_neg eligible, ids_concat]
    exact nearest

/-- An insertion keeps the nearest nodes. -/
theorem insert_keeps
    (keeps : Keeps table inserted) (positive : 0 < table.capacity) (node : DhtNode) :
    ∃ added nodes, table.insert node = some (added, { table with nodes }) ∧
      Keeps { table with nodes } (inserted ++ [node]) := by
  unfold insert
  split
  · rename_i refused
    refine ⟨false, table.nodes, rfl, keeps.nodup, fun other member => ?_, ?_⟩
    · rw [DhtRoutingTable.latest, offered_concat, if_pos refused]
      exact keeps.latest other member
    · rw [offered_concat, if_pos refused]
      exact keeps.nearest
  · rename_i eligible
    split
    · rename_i nodes found
      have known : node.id ∈ ids table.nodes := by
        by_contra missing
        rw [ids, List.mem_toFinset, ← updateAddress_eq_none_iff, found] at missing
        cases missing
      obtain ⟨ids_eq, members⟩ := updateAddress_spec keeps.nodup found
      have same : ids nodes = ids table.nodes := by rw [ids, ids_eq, ids]
      refine ⟨true, nodes, rfl, keeps.offer eligible (ids_eq ▸ keeps.nodup) members ?_⟩
      rw [same]
      exact keeps.nearest.seen_again known
    · rename_i unknown
      rw [updateAddress_eq_none_iff] at unknown
      have missing : node.id ∉ ids table.nodes := by rwa [ids, List.mem_toFinset]
      have others : ∀ other ∈ table.nodes, other.id ≠ node.id := fun other member same =>
        unknown (same ▸ List.mem_map_of_mem member)
      have size := card_ids keeps.nodup
      split
      · rename_i full
        split
        · rename_i empty
          rw [maxByKey_eq_none_iff] at empty
          rw [empty] at full
          exact absurd full.symm (Nat.ne_of_gt positive)
        · rename_i index farthest found
          obtain ⟨here, largest⟩ := maxByKey_spec found
          have farthestIds : ∀ near ∈ ids table.nodes,
              distance table.localId near ≤ distance table.localId farthest.id := by
            intro near member
            obtain ⟨other, otherMember, rfl⟩ := mem_ids.mp member
            exact largest other otherMember
          split
          · rename_i farther
            refine ⟨false, table.nodes, rfl, keeps.offer eligible keeps.nodup
              (fun other member => .inr ⟨member, others other member⟩) ?_⟩
            exact keeps.nearest.refuse (size.trans full) (distance_injective _) missing
              fun near member => (farthestIds near member).trans farther
          · rename_i closer
            obtain ⟨nodup, ids_eq, kept⟩ := swapRemove_ids keeps.nodup here
            have fresh : node.id ∉ (swapRemove table.nodes index).map DhtNode.id := by
              intro member
              obtain ⟨other, otherMember, same⟩ := List.mem_map.mp member
              exact others other (kept other otherMember) same
            refine ⟨true, _, rfl, keeps.offer eligible ?_ ?_ ?_⟩
            · exact nodup_ids_concat nodup fresh
            · intro other member
              rcases List.mem_append.mp member with old | new
              · exact .inr ⟨kept other old, others other (kept other old)⟩
              · exact .inl (List.mem_singleton.mp new)
            · rw [ids_concat, ids_eq]
              exact keeps.nearest.replace (size.trans full) (distance_injective _) missing
                (mem_ids.mpr ⟨farthest, List.mem_of_getElem? here, rfl⟩) farthestIds
                (not_le.mp closer)
      · rename_i room
        refine ⟨true, _, rfl, keeps.offer eligible ?_ ?_ ?_⟩
        · exact nodup_ids_concat keeps.nodup unknown
        · intro other member
          rcases List.mem_append.mp member with old | new
          · exact .inr ⟨old, others other old⟩
          · exact .inl (List.mem_singleton.mp new)
        · rw [ids_concat]
          refine keeps.nearest.add (lt_of_le_of_ne keeps.nearest.card_le ?_)
          rwa [size]

/-- Insertions keep the nearest nodes. -/
theorem inserts_keeps {earlier : List DhtNode}
    (keeps : Keeps table earlier) (positive : 0 < table.capacity) (inserted : List DhtNode) :
    ∃ nodes, table.inserts inserted = some { table with nodes } ∧
      Keeps { table with nodes } (earlier ++ inserted) := by
  induction inserted generalizing table earlier with
  | nil => exact ⟨table.nodes, rfl, by rwa [List.append_nil]⟩
  | cons node inserted inductionHypothesis =>
    obtain ⟨added, nodes, insert_eq, next⟩ := insert_keeps keeps positive node
    obtain ⟨final, inserts_eq, last⟩ := inductionHypothesis next positive
    refine ⟨final, ?_, ?_⟩
    · rw [inserts, insert_eq]
      exact inserts_eq
    · rwa [List.append_assoc] at last

/-- The table has a node exactly if it was offered last under its identifier and fewer
identifiers than the capacity are nearer. -/
theorem Keeps.mem_iff (keeps : Keeps table inserted) (node : DhtNode) :
    node ∈ table.nodes ↔ DhtRoutingTable.latest table.localId inserted node.id = some node ∧
      rank (distance table.localId) (ids (offered table.localId inserted)) node.id <
        table.capacity := by
  constructor
  · intro member
    exact ⟨keeps.latest node member,
      ((keeps.nearest.mem_iff node.id).mp (mem_ids.mpr ⟨node, member, rfl⟩)).2⟩
  · rintro ⟨last, few⟩
    have offeredNode := (List.mem_filter.mp (List.mem_of_getLast? last)).1
    obtain ⟨other, member, same⟩ := mem_ids.mp
      ((keeps.nearest.mem_iff node.id).mpr ⟨mem_ids.mpr ⟨node, offeredNode, rfl⟩, few⟩)
    have found := keeps.latest other member
    rw [same, last] at found
    cases found
    exact member

/-! ## The nodes nearest to a target -/

/-- The nodes nearest to a target, in order. -/
structure Closest (nodes : List DhtNode) (target : Vector UInt8 20) (limit : Nat)
    (found : List DhtNode) : Prop where
  subset : found ⊆ nodes
  length_eq : found.length = min limit nodes.length
  increasing : found.Pairwise fun left right => distance target left.id < distance target right.id
  nearer : ∀ node ∈ nodes, node ∉ found →
    ∀ near ∈ found, distance target near.id < distance target node.id

/-- The nodes are listed by their distance. -/
theorem closest_spec (nodup : (table.nodes.map DhtNode.id).Nodup)
    (target : Vector UInt8 20) (limit : Nat) :
    Closest table.nodes target limit (table.closest target limit) := by
  have permutes := List.mergeSort_perm table.nodes (byDistance target)
  have sorted : (table.nodes.mergeSort (byDistance target)).Pairwise fun left right =>
      byDistance target left right = true := by
    refine List.pairwise_mergeSort (fun left middle right first second => ?_)
      (fun left right => ?_) table.nodes
    · exact decide_eq_true ((of_decide_eq_true first).trans (of_decide_eq_true second))
    · simpa [byDistance] using le_total (distance target left.id) (distance target right.id)
  unfold closest
  generalize table.nodes.mergeSort (byDistance target) = ordered at permutes sorted ⊢
  have strict : ordered.Pairwise fun left right =>
      distance target left.id < distance target right.id := by
    have distinct := List.pairwise_map.mp ((permutes.map DhtNode.id).nodup_iff.mpr nodup)
    refine (sorted.and distinct).imp fun both => ?_
    exact lt_of_le_of_ne (of_decide_eq_true both.1) fun same =>
      both.2 (distance_injective target same)
  rw [← List.take_append_drop (min limit table.nodes.length) ordered] at strict permutes
  obtain ⟨increasing, -, nearer⟩ := List.pairwise_append.mp strict
  refine ⟨fun node member => permutes.subset (List.mem_append_left _ member), ?_, increasing,
    fun node member left near nearMember => ?_⟩
  · have length_eq := permutes.length_eq
    rw [List.take_append_drop] at length_eq
    rw [List.length_take, length_eq]
    omega
  · have rest := (List.mem_append.mp (permutes.symm.subset member)).resolve_left left
    exact nearer near nearMember node rest

/-- After any insertions into a new table: no identifier is there twice; the nodes are
those offered last under the identifiers nearest to that of the table, as many as it
has room for; and the nodes nearest to a target come in increasing distance. -/
theorem routingTable_nearest {localId : Vector UInt8 20} {capacity : Nat}
    {table : DhtRoutingTable} (made : new localId capacity = .ok table)
    (inserted : List DhtNode) :
    ∃ after, table.inserts inserted = some after ∧ (after.nodes.map DhtNode.id).Nodup ∧
      (∀ node, node ∈ after.nodes ↔ latest localId inserted node.id = some node ∧
        rank (distance localId) (ids (offered localId inserted)) node.id < capacity) ∧
      ∀ target limit, Closest after.nodes target limit (after.closest target limit) := by
  unfold new at made
  split at made
  · cases made
  · rename_i allowed
    cases made
    have start : Keeps ⟨localId, [], capacity⟩ [] :=
      ⟨List.nodup_nil, fun node member => (List.not_mem_nil member).elim,
        subset_rfl, Nat.zero_le _, fun left seen => (Finset.notMem_empty left seen).elim⟩
    obtain ⟨nodes, inserts_eq, keeps⟩ :=
      inserts_keeps start (Nat.pos_of_ne_zero fun zero => allowed (.inl zero)) inserted
    exact ⟨_, inserts_eq, keeps.nodup, keeps.mem_iff, closest_spec keeps.nodup⟩

/-- A node with an address that anyone can reach. -/
def publicNode (byte : UInt8) : DhtNode :=
  ⟨.replicate 20 byte, ⟨.v4 ⟨8, 8, 8, byte⟩, 6881⟩⟩

theorem routingTable_nearest_two :
    ∃ after, (DhtRoutingTable.mk (.replicate 20 0) [] 2).inserts
        [publicNode 3, publicNode 1, publicNode 2] = some after ∧
      publicNode 2 ∈ after.nodes ∧ publicNode 3 ∉ after.nodes := by
  obtain ⟨after, inserts_eq, -, members, -⟩ := routingTable_nearest
    (show new (.replicate 20 0) 2 = .ok ⟨_, [], 2⟩ from rfl)
    [publicNode 3, publicNode 1, publicNode 2]
  refine ⟨after, inserts_eq, (members _).mpr ?_, mt (members _).mp ?_⟩
  · decide +kernel
  · decide +kernel

end DhtRoutingTable
end P2pNetwork
end VideoProxy
