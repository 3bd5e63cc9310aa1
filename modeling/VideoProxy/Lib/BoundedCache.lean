import Mathlib.Data.List.MinMax
import VideoProxy.Lib.Tally
import VideoProxy.Lib.Transition
import VideoProxy.Lib.Word64

/-!
# Tables with a budget

The number of entries of a table and their total size have a limit each.  Before
an entry comes in, a loop erases the oldest entries until there is room for it.
-/

namespace VideoProxy

/-! ## Loops -/

/-- Make rounds until one of them says that the loop is over.  There is no result
if that takes more rounds than there is fuel. -/
def loop (round : σ → Option σ) : Nat → σ → Option σ
  | 0, _ => none
  | fuel + 1, state =>
    match round state with
    | none => some state
    | some next => loop round fuel next

/-- A loop whose rounds shrink a measure ends. -/
theorem loop_ends {round : σ → Option σ} {rank : σ → Nat}
    (lowers : ∀ state next, round state = some next → rank next < rank state) {fuel : Nat}
    {state : σ} (enough : rank state < fuel) :
    ∃ final, loop round fuel state = some final ∧ round final = none := by
  induction fuel generalizing state with
  | zero => cases enough
  | succ fuel inductionHypothesis =>
    cases rounds : round state with
    | none =>
      refine ⟨state, ?_, rounds⟩
      rw [loop, rounds]
    | some next =>
      have lower := lowers state next rounds
      obtain ⟨final, loops, ends⟩ := @inductionHypothesis next (by omega)
      refine ⟨final, ?_, ends⟩
      rw [loop, rounds]
      exact loops

/-! ## Budgets -/

/-- The size of an entry, and the limits of a table. -/
structure Budget (α β : Type) where
  size : α → β → Nat
  maxEntries : Nat
  maxBytes : Nat
  positive : 0 < maxEntries
  below : maxBytes < u64Max

/-- An order in which the entries of a table are visited. -/
structure Iteration (α β : Type) where
  entries : (AList fun _ : α => β) → List (Sigma fun _ : α => β)
  perm : ∀ table, (entries table).Perm table.entries

/-- The order of the table itself. -/
def Iteration.listed (α β : Type) : Iteration α β where
  entries table := table.entries
  perm _ := .refl _

/-- The oldest entry is erased. -/
def Evicts [DecidableEq α] (time : β → Nat) (before after : AList fun _ : α => β) : Prop :=
  ∃ entry ∈ before.entries, (∀ other ∈ before.entries, time entry.2 ≤ time other.2) ∧
      after = before.erase entry.1

/-- The key of the oldest entry, the first of them if there are several. -/
def oldest (time : β → Nat) (order : Iteration α β) (table : AList fun _ : α => β) : Option α :=
  ((order.entries table).argmin fun entry => time entry.2).map Sigma.fst

namespace Budget

variable {α β : Type} (budget : Budget α β)

/-- The size of all entries of a table. -/
def total (table : AList fun _ : α => β) : Nat :=
  (table.entries.map fun entry => budget.size entry.1 entry.2).sum

/-- The size of all entries of a table, added up without overflow. -/
def bytes (table : AList fun _ : α => β) : Nat :=
  (table.entries.map fun entry => budget.size entry.1 entry.2).foldl saturatingAdd 0

/-- The table keeps to its limits. -/
def Within (table : AList fun _ : α => β) : Prop :=
  table.entries.length ≤ budget.maxEntries ∧ budget.total table ≤ budget.maxBytes

/-- There is no room for an entry of a size. -/
def Full (added : Nat) (table : AList fun _ : α => β) : Prop :=
  budget.maxEntries ≤ table.entries.length ∨
    saturatingAdd (budget.bytes table) added > budget.maxBytes

instance (added : Nat) (table : AList fun _ : α => β) : Decidable (budget.Full added table) :=
  inferInstanceAs (Decidable (_ ∨ _))

variable [DecidableEq α]

/-- A round of the loop that makes room.  `onEmpty` says how it goes on if there
is no room and nothing to erase. -/
def round (time : β → Nat) (order : Iteration α β)
    (onEmpty : (AList fun _ : α => β) → Option (AList fun _ : α => β)) (added : Nat)
    (table : AList fun _ : α => β) : Option (AList fun _ : α => β) :=
  if budget.Full added table then
    match oldest time order table with
    | some key => some (table.erase key)
    | none => onEmpty table
  else none

section Room

variable {budget} {time : β → Nat} {order : Iteration α β}
  {onEmpty : (AList fun _ : α => β) → Option (AList fun _ : α => β)}
  {added : Nat} {table after : AList fun _ : α => β} {key : α} {value : β}

theorem evicts_of_oldest (found : oldest time order table = some key) :
    Evicts time table (table.erase key) := by
  obtain ⟨entry, least, rfl⟩ := Option.map_eq_some_iff.mp found
  have listed : entry ∈ order.entries table := List.argmin_mem least
  refine ⟨entry, (order.perm table).mem_iff.mp listed, fun other member => ?_, rfl⟩
  have candidate := (order.perm table).mem_iff.mpr member
  exact @List.le_of_mem_argmin _ _ _ (fun entry : Sigma fun _ : α => β =>
    time entry.2) _ _ _ candidate least

theorem length_lt_of_erase (found : table.lookup key = some value) :
    (table.erase key).entries.length < table.entries.length := by
  have erased := sum_kerase (fun (_ : α) (_ : β) => 1) key table.entries
  change _ + (table.lookup key).elim 0 (fun _ => 1) = _ at erased
  rw [found] at erased
  simp only [List.map_const', List.sum_replicate_nat, Option.elim_some, Nat.mul_one] at erased
  change (table.entries.kerase key).length < _
  omega

theorem length_lt_of_evicts (evicts : Evicts time table after) :
    after.entries.length < table.entries.length := by
  obtain ⟨entry, member, _, rfl⟩ := evicts
  have found : table.lookup entry.1 = some entry.2 :=
    (List.mem_dlookup_iff table.nodupKeys).mpr member
  exact length_lt_of_erase found

omit [DecidableEq α] in
theorem entries_eq_nil_of_oldest (none_left : oldest time order table = none) :
    table.entries = [] := by
  have empty := List.argmin_eq_none.mp (Option.map_eq_none_iff.mp none_left)
  have perm := order.perm table
  rw [empty] at perm
  exact perm.nil_eq.symm

omit [DecidableEq α] in
/-- The tracked size is the size, up to saturation. -/
theorem bytes_eq_min (table : AList fun _ : α => β) :
    budget.bytes table = min (budget.total table) u64Max := by
  rw [bytes, foldl_saturatingAdd_eq_min (Nat.zero_le _), Nat.zero_add]
  rfl

omit [DecidableEq α] in
theorem full_iff :
    budget.Full added table ↔ budget.maxEntries ≤ table.entries.length ∨
      budget.maxBytes < budget.total table + added := by
  have below := budget.below
  rw [Full, bytes_eq_min, saturatingAdd]
  omega

omit [DecidableEq α] in
theorem not_full_of_nil (fits : added ≤ budget.maxBytes) (empty : table.entries = []) :
    ¬budget.Full added table := by
  have positive := budget.positive
  rw [full_iff, total, empty, List.length_nil, List.map_nil, List.sum_nil]
  omega

/-- A round drops the oldest entry. -/
theorem round_evicts (fits : added ≤ budget.maxBytes)
    (rounds : budget.round time order onEmpty added table = some after) :
    Evicts time table after := by
  unfold round at rounds
  split at rounds
  · rename_i full
    split at rounds
    · rename_i key found
      cases rounds
      exact evicts_of_oldest found
    · rename_i none_left
      exact absurd full (not_full_of_nil fits (entries_eq_nil_of_oldest none_left))
  · cases rounds

/-- Rounds go on until the new entry fits. -/
theorem loop_round_ends (fits : added ≤ budget.maxBytes) (table : AList fun _ : α => β) :
    ∃ room, loop (budget.round time order onEmpty added)
        (table.entries.length + 1) table = some room ∧
      ¬budget.Full added room := by
  obtain ⟨room, loops, ends⟩ := loop_ends
    (fun _ _ rounds => length_lt_of_evicts (round_evicts fits rounds))
    (Nat.lt_succ_self table.entries.length)
  refine ⟨room, loops, fun full => ?_⟩
  unfold round at ends
  rw [if_pos full] at ends
  split at ends
  · cases ends
  · rename_i none_left
    exact not_full_of_nil fits (entries_eq_nil_of_oldest none_left) full

/-! ### The limits -/

omit [DecidableEq α] in
theorem within_of_not_full (room : ¬budget.Full added table) : budget.Within table := by
  rw [full_iff] at room
  rw [Within]
  omega

theorem total_erase (table : AList fun _ : α => β) (key : α) :
    budget.total (table.erase key) + (table.lookup key).elim 0 (budget.size key) =
      budget.total table :=
  sum_kerase budget.size key table.entries

/-- An entry adds its size. -/
theorem total_insert (table : AList fun _ : α => β) (key : α) (value : β) :
    budget.total (table.insert key value) =
      budget.size key value + budget.total (table.erase key) := by
  rw [total, AList.entries_insert, List.map_cons, List.sum_cons]
  rfl

theorem length_erase_le (table : AList fun _ : α => β) (key : α) :
    (table.erase key).entries.length ≤ table.entries.length :=
  (List.kerase_sublist key table.entries).length_le

theorem within_erase (within : budget.Within table) (key : α) :
    budget.Within (table.erase key) := by
  have length_le := length_erase_le table key
  have erased := @total_erase _ _ budget _ table key
  obtain ⟨entries, bytes⟩ := within
  rw [Within]
  omega

theorem within_insert (room : ¬budget.Full (budget.size key value) table) :
    budget.Within (table.insert key value) := by
  have length_le := length_erase_le table key
  have erased := @total_erase _ _ budget _ table key
  rw [full_iff] at room
  rw [Within, total_insert, AList.entries_insert, List.length_cons]
  change (table.erase key).entries.length + 1 ≤ _ ∧ _
  omega

/-- An entry of the same size takes the place of another. -/
theorem within_replace {replaced : β} (within : budget.Within table)
    (found : table.lookup key = some replaced)
    (size_eq : budget.size key value = budget.size key replaced) :
    budget.Within (table.insert key value) := by
  have erased := @total_erase _ _ budget _ table key
  have smaller := length_lt_of_erase found
  rw [found, Option.elim_some] at erased
  obtain ⟨entries, bytes⟩ := within
  rw [Within, total_insert, AList.entries_insert, List.length_cons, size_eq]
  change (table.erase key).entries.length + 1 ≤ _ ∧ _
  omega

end Room

end Budget

end VideoProxy
