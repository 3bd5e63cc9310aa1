import Mathlib.Logic.Basic

/-!
# Maps as ordered lists

A map is a list of entries in the order of their keys.  Entries that are already
in order are inserted one after the other at the end.
-/

namespace VideoProxy

variable {κ α : Type*} [DecidableEq κ] [LT κ] [DecidableLT κ]

/-- Insert an entry in the place of its key; a value that the key had is
replaced. -/
def insertEntry (key : κ) (value : α) : List (κ × α) → List (κ × α)
  | [] => [(key, value)]
  | (other, kept) :: entries =>
    if key < other then (key, value) :: (other, kept) :: entries
    else if key = other then (key, value) :: entries
    else (other, kept) :: insertEntry key value entries

/-- The entries come in the order of their keys, and no key comes twice. -/
def Ordered (entries : List (κ × α)) : Prop :=
  entries.Pairwise fun first second => first.1 < second.1

instance (entries : List (κ × α)) : Decidable (Ordered entries) :=
  inferInstanceAs (Decidable (entries.Pairwise _))

variable {entries inserted : List (κ × α)} {key : κ} {value : α}

theorem insertEntry_of_later [Std.Asymm (α := κ) (· < ·)]
    (later : ∀ entry ∈ entries, entry.1 < key) :
    insertEntry key value entries = entries ++ [(key, value)] := by
  induction entries with
  | nil => rfl
  | cons entry entries inductionHypothesis =>
    obtain ⟨other, kept⟩ := entry
    have before : other < key := later _ List.mem_cons_self
    have notBefore : ¬key < other := Std.Asymm.asymm _ _ before
    have different : key ≠ other := by
      rintro rfl
      exact notBefore before
    rw [insertEntry, if_neg notBefore, if_neg different, inductionHypothesis
      fun entry member => later entry (List.mem_cons_of_mem _ member)]
    rfl

theorem foldl_insertEntry [Std.Asymm (α := κ) (· < ·)] (ordered : Ordered (inserted ++ entries)) :
    entries.foldl (fun map entry => insertEntry entry.1 entry.2 map) inserted =
      inserted ++ entries := by
  induction entries generalizing inserted with
  | nil => exact (List.append_nil inserted).symm
  | cons entry entries inductionHypothesis =>
    have later : ∀ earlier ∈ inserted, earlier.1 < entry.1 := fun _ member =>
      (List.pairwise_append.mp ordered).2.2 _ member _ List.mem_cons_self
    rw [List.append_cons] at ordered
    rw [List.foldl_cons, insertEntry_of_later later,
      inductionHypothesis ordered, ← List.append_cons]

theorem eq_or_mem_of_mem_insertEntry {entry : κ × α}
    (member : entry ∈ insertEntry key value entries) :
    entry = (key, value) ∨ entry ∈ entries := by
  induction entries with
  | nil => exact Or.inl (List.mem_singleton.mp member)
  | cons first entries inductionHypothesis =>
    obtain ⟨other, kept⟩ := first
    unfold insertEntry at member
    split at member
    · exact List.mem_cons.mp member
    · split at member
      · exact (List.mem_cons.mp member).imp_right (List.mem_cons_of_mem _)
      · rcases List.mem_cons.mp member with rfl | later
        · exact Or.inr List.mem_cons_self
        · exact (inductionHypothesis later).imp_right (List.mem_cons_of_mem _)

theorem mem_of_mem_foldl_insertEntry {entry : κ × α}
    (member : entry ∈ entries.foldl (fun map entry => insertEntry entry.1 entry.2 map) inserted) :
    entry ∈ inserted ∨ entry ∈ entries := by
  induction entries generalizing inserted with
  | nil => exact Or.inl member
  | cons first entries inductionHypothesis =>
    rcases inductionHypothesis member with early | late
    · rcases eq_or_mem_of_mem_insertEntry early with rfl | kept
      · exact Or.inr List.mem_cons_self
      · exact Or.inl kept
    · exact Or.inr (List.mem_cons_of_mem _ late)

/-- Inserting an entry keeps the order. -/
theorem ordered_insertEntry [Std.Trichotomous (α := κ) (· < ·)]
    [Trans (α := κ) (· < ·) (· < ·) (· < ·)] (ordered : Ordered entries) :
    Ordered (insertEntry key value entries) := by
  induction entries with
  | nil => exact List.pairwise_singleton _ _
  | cons first entries inductionHypothesis =>
    obtain ⟨other, kept⟩ := first
    obtain ⟨before, rest⟩ := List.pairwise_cons.mp ordered
    unfold insertEntry
    split
    · rename_i less
      refine List.pairwise_cons.mpr ⟨fun entry member => ?_, ordered⟩
      rcases List.mem_cons.mp member with rfl | later
      · exact less
      · exact Trans.trans less (before entry later)
    · split
      · rename_i same
        subst same
        exact List.pairwise_cons.mpr ⟨before, rest⟩
      · rename_i notLess different
        refine List.pairwise_cons.mpr ⟨fun entry member => ?_, inductionHypothesis rest⟩
        rcases eq_or_mem_of_mem_insertEntry member with rfl | later
        · exact Decidable.byContradiction fun notMore =>
            different (Std.Trichotomous.trichotomous _ _ notLess notMore)
        · exact before entry later

theorem ordered_foldl_insertEntry [Std.Trichotomous (α := κ) (· < ·)]
    [Trans (α := κ) (· < ·) (· < ·) (· < ·)] (ordered : Ordered inserted) :
    Ordered (entries.foldl (fun map entry => insertEntry entry.1 entry.2 map) inserted) := by
  induction entries generalizing inserted with
  | nil => exact ordered
  | cons entry entries inductionHypothesis =>
    exact inductionHypothesis (ordered_insertEntry ordered)

end VideoProxy
