import Mathlib.Algebra.GroupWithZero.Nat
import Mathlib.Algebra.Order.BigOperators.Group.List
import Mathlib.Algebra.Order.Group.Nat
import Mathlib.Data.List.AList

/-!
# Totals over association lists

A measure of the values of an association list is added up.  Inserting a value
adds its measure and takes away that of the value it replaces.
-/

namespace VideoProxy

variable {α β : Type} [DecidableEq α] (measure : β → Nat)

/-- The sum of a measure over the values of a table. -/
def tally (table : AList fun _ : α => β) : Nat :=
  (table.entries.map fun entry => measure entry.2).sum

/-- The measure of the value of a key, or nothing. -/
def tallyAt (table : AList fun _ : α => β) (key : α) : Nat :=
  (table.lookup key).elim 0 measure

theorem sum_kerase (size : α → β → Nat) (key : α) (entries : List (Sigma fun _ : α => β)) :
    ((entries.kerase key).map fun entry => size entry.1 entry.2).sum +
        (entries.dlookup key).elim 0 (size key) =
      (entries.map fun entry => size entry.1 entry.2).sum := by
  induction entries with
  | nil => rfl
  | cons entry rest inductionHypothesis =>
    obtain ⟨other, value⟩ := entry
    by_cases same : key = other
    · subst same
      have erased : (⟨key, value⟩ :: rest).kerase key = rest :=
        List.kerase_cons_eq rfl
      rw [erased, List.dlookup_cons_eq, List.map_cons, List.sum_cons, Nat.add_comm]
      rfl
    · rw [List.kerase_cons_ne same, List.dlookup_cons_ne _ _ same,
        List.map_cons, List.sum_cons, List.map_cons, List.sum_cons,
        Nat.add_assoc, inductionHypothesis]

theorem tally_erase (table : AList fun _ : α => β) (key : α) :
    tally measure (table.erase key) + tallyAt measure table key = tally measure table :=
  sum_kerase (fun _ => measure) key table.entries

theorem tally_insert (table : AList fun _ : α => β) (key : α) (value : β) :
    tally measure (table.insert key value) + tallyAt measure table key =
      tally measure table + measure value := by
  have erased := tally_erase measure table key
  have inserted : tally measure (table.insert key value) =
      measure value + tally measure (table.erase key) := by
    unfold tally
    rw [AList.entries_insert, List.map_cons, List.sum_cons]
    rfl
  omega

variable {key : α} {table : AList fun _ : α => β}

theorem tallyAt_of_lookup {value : β} (found : table.lookup key = some value) :
    tallyAt measure table key = measure value := by
  rw [tallyAt, found]
  rfl

theorem tallyAt_of_none (missing : table.lookup key = none) : tallyAt measure table key = 0 := by
  rw [tallyAt, missing]
  rfl

theorem tallyAt_erase_of_ne {other : α} (ne : other ≠ key) :
    tallyAt measure (table.erase key) other = tallyAt measure table other := by
  rw [tallyAt, AList.lookup_erase_ne ne, tallyAt]

/-- The total may be taken over any list of keys that has all those of the
table. -/
theorem tally_eq_sum {keys : List α} (nodup : keys.Nodup) (listed : ∀ key ∈ table, key ∈ keys) :
    tally measure table = (keys.map (tallyAt measure table)).sum := by
  induction keys generalizing table with
  | nil =>
    have empty : table.entries = [] := by
      cases entries_eq : table.entries with
      | nil => rfl
      | cons entry rest =>
        have member : entry.1 ∈ table := by
          rw [AList.mem_keys, AList.keys, entries_eq, List.keys_cons]
          exact List.mem_cons_self
        cases listed entry.1 member
    rw [tally, empty]
    rfl
  | cons key keys inductionHypothesis =>
    obtain ⟨fresh, nodupRest⟩ := List.nodup_cons.mp nodup
    have rest : tally measure (table.erase key) =
        (keys.map (tallyAt measure (table.erase key))).sum := by
      refine inductionHypothesis nodupRest fun other member => ?_
      obtain ⟨ne, old⟩ := AList.mem_erase.mp member
      exact (List.mem_cons.mp (listed other old)).resolve_left ne
    have same : keys.map (tallyAt measure (table.erase key)) = keys.map (tallyAt measure table) :=
      List.map_congr_left fun other member =>
        tallyAt_erase_of_ne measure fun equal => fresh (equal ▸ member)
    rw [List.map_cons, List.sum_cons, ← same, ← rest, Nat.add_comm]
    exact (tally_erase measure table key).symm

end VideoProxy
