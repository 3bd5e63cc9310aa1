import Mathlib.Data.Finset.Card

/-!
# The nearest of what was seen

A bounded set keeps the elements with the smallest distances among all that were
offered to it.  What is refused or dropped once is never needed again, since from then on
the set is full of nearer elements.
-/

namespace VideoProxy

variable {α κ : Type} [DecidableEq α] [LinearOrder κ]

/-- How many of the seen elements are nearer than an element. -/
def rank (distance : α → κ) (seen : Finset α) (element : α) : Nat :=
  (seen.filter fun other => distance other < distance element).card

/-- The kept elements are the nearest of those that were seen. -/
structure Nearest (distance : α → κ) (capacity : Nat) (seen kept : Finset α) : Prop where
  subset : kept ⊆ seen
  card_le : kept.card ≤ capacity
  farther : ∀ left ∈ seen, left ∉ kept →
    kept.card = capacity ∧ ∀ near ∈ kept, distance near < distance left

namespace Nearest

variable {distance : α → κ} {capacity : Nat} {seen kept : Finset α} {new far : α}

/-- An element is kept exactly when fewer than the capacity are nearer. -/
theorem mem_iff (nearest : Nearest distance capacity seen kept) (element : α) :
    element ∈ kept ↔ element ∈ seen ∧ rank distance seen element < capacity := by
  unfold rank
  constructor
  · intro member
    refine ⟨nearest.subset member, Nat.lt_of_lt_of_le ?_ nearest.card_le⟩
    apply Finset.card_lt_card
    rw [Finset.ssubset_iff_of_subset]
    · exact ⟨element, member, fun nearer => lt_irrefl _ (Finset.mem_filter.mp nearer).2⟩
    · intro other nearer
      obtain ⟨seenOther, closer⟩ := Finset.mem_filter.mp nearer
      by_contra left
      exact lt_asymm closer ((nearest.farther other seenOther left).2 element member)
  · rintro ⟨seenElement, few⟩
    by_contra left
    obtain ⟨full, nearer⟩ := nearest.farther element seenElement left
    have covered : kept ⊆ seen.filter fun other => distance other < distance element :=
      fun near member => Finset.mem_filter.mpr ⟨nearest.subset member, nearer near member⟩
    have count := Finset.card_le_card covered
    omega

theorem seen_again (nearest : Nearest distance capacity seen kept) (member : new ∈ kept) :
    Nearest distance capacity (insert new seen) kept := by
  rwa [Finset.insert_eq_of_mem (nearest.subset member)]

theorem add (nearest : Nearest distance capacity seen kept) (room : kept.card < capacity) :
    Nearest distance capacity (insert new seen) (insert new kept) where
  subset := Finset.insert_subset_insert new nearest.subset
  card_le := (Finset.card_insert_le new kept).trans room
  farther := by
    intro left seenLeft gone
    rw [Finset.mem_insert, not_or] at gone
    have old := (Finset.mem_insert.mp seenLeft).resolve_left gone.1
    have full := (nearest.farther left old gone.2).1
    omega

theorem refuse (nearest : Nearest distance capacity seen kept) (full : kept.card = capacity)
    (injective : Function.Injective distance) (missing : new ∉ kept)
    (farthest : ∀ near ∈ kept, distance near ≤ distance new) :
    Nearest distance capacity (insert new seen) kept where
  subset := nearest.subset.trans (Finset.subset_insert new seen)
  card_le := nearest.card_le
  farther := by
    intro left seenLeft gone
    rcases Finset.mem_insert.mp seenLeft with rfl | old
    · refine ⟨full, fun near member => lt_of_le_of_ne (farthest near member) fun same => ?_⟩
      exact missing (injective same ▸ member)
    · exact nearest.farther left old gone

theorem replace (nearest : Nearest distance capacity seen kept) (full : kept.card = capacity)
    (injective : Function.Injective distance) (missing : new ∉ kept) (member : far ∈ kept)
    (farthest : ∀ near ∈ kept, distance near ≤ distance far)
    (closer : distance new < distance far) :
    Nearest distance capacity (insert new seen) (insert new (kept.erase far)) := by
  have fresh : new ∉ kept.erase far := fun old => missing (Finset.mem_of_mem_erase old)
  have size : (insert new (kept.erase far)).card = capacity := by
    have positive := Finset.card_pos.mpr ⟨far, member⟩
    rw [Finset.card_insert_of_notMem fresh, Finset.card_erase_of_mem member]
    omega
  refine ⟨Finset.insert_subset_insert new ((Finset.erase_subset far kept).trans nearest.subset),
    size.le, fun left seenLeft gone => ⟨size, fun near nearMember => ?_⟩⟩
  rw [Finset.mem_insert, Finset.mem_erase, not_or, not_and] at gone
  have old := (Finset.mem_insert.mp seenLeft).resolve_left gone.1
  rcases Finset.mem_insert.mp nearMember with rfl | nearMember
  · by_cases dropped : left = far
    · rwa [dropped]
    · exact closer.trans ((nearest.farther left old (gone.2 dropped)).2 far member)
  · obtain ⟨ne, nearKept⟩ := Finset.mem_erase.mp nearMember
    by_cases dropped : left = far
    · rw [dropped]
      exact lt_of_le_of_ne (farthest near nearKept) fun same => ne (injective same)
    · exact (nearest.farther left old (gone.2 dropped)).2 near nearKept

end Nearest
end VideoProxy
