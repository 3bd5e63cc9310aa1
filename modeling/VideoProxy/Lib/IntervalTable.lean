import Mathlib.Data.List.Pairwise
import Mathlib.Order.MinMax
import Mathlib.Order.Nat
import Mathlib.Tactic.Tauto

/-!
# Coalesced tables of closed intervals

A table is a list of closed intervals of natural numbers.  It is *coalesced*
when every interval is nonempty and at least one missing point separates every
interval from all the later ones.  A coalesced table is determined by the set
of points it covers, a block of consecutive points is covered only when one
interval contains the whole block, and a new interval is added by replacing the
intervals that touch it by their common hull.
-/

namespace VideoProxy
namespace IntervalTable

/-- The points covered by a table. -/
def Covers (table : List (Nat × Nat)) (point : Nat) : Prop :=
  ∃ interval ∈ table, interval.1 ≤ point ∧ point ≤ interval.2

instance (table : List (Nat × Nat)) (point : Nat) : Decidable (Covers table point) :=
  inferInstanceAs (Decidable (∃ interval ∈ table, _))

/-- At least one missing point lies between two intervals. -/
def Separated (left right : Nat × Nat) : Prop :=
  left.2 + 1 < right.1

/-- Sorted tables of nonempty intervals with a gap between neighbours. -/
structure Coalesced (table : List (Nat × Nat)) : Prop where
  /-- Every interval is nonempty. -/
  proper : ∀ interval ∈ table, interval.1 ≤ interval.2
  /-- Every interval lies strictly before all the later ones. -/
  separated : table.Pairwise Separated

@[simp] theorem not_covers_nil (point : Nat) : ¬Covers [] point := by
  rintro ⟨interval, member, _⟩
  simp at member

@[simp] theorem covers_append (left right : List (Nat × Nat)) (point : Nat) :
    Covers (left ++ right) point ↔ Covers left point ∨ Covers right point := by
  constructor
  · rintro ⟨interval, member, bounds⟩
    rcases List.mem_append.mp member with inLeft | inRight
    · exact Or.inl ⟨interval, inLeft, bounds⟩
    · exact Or.inr ⟨interval, inRight, bounds⟩
  · rintro (⟨interval, member, bounds⟩ | ⟨interval, member, bounds⟩)
    · exact ⟨interval, List.mem_append_left right member, bounds⟩
    · exact ⟨interval, List.mem_append_right left member, bounds⟩

@[simp] theorem covers_cons (interval : Nat × Nat) (table : List (Nat × Nat)) (point : Nat) :
    Covers (interval :: table) point ↔
      (interval.1 ≤ point ∧ point ≤ interval.2) ∨ Covers table point := by
  constructor
  · rintro ⟨other, member, bounds⟩
    rcases List.mem_cons.mp member with equal | inTail
    · subst other
      exact Or.inl bounds
    · exact Or.inr ⟨other, inTail, bounds⟩
  · rintro (bounds | ⟨other, inTail, bounds⟩)
    · exact ⟨interval, List.mem_cons_self, bounds⟩
    · exact ⟨other, List.mem_cons_of_mem interval inTail, bounds⟩

namespace Coalesced

theorem nil : Coalesced [] where
  proper := by simp
  separated := List.Pairwise.nil

variable {interval : Nat × Nat} {table left right : List (Nat × Nat)}

theorem covers_last (coalesced : Coalesced table) (member : interval ∈ table) :
    Covers table interval.2 :=
  ⟨interval, member, coalesced.proper interval member, Nat.le_refl _⟩

theorem eq_nil (coalesced : Coalesced table) (uncovered : ∀ point, ¬Covers table point) :
    table = [] := by
  rw [List.eq_nil_iff_forall_not_mem]
  intro interval member
  exact uncovered interval.2 (coalesced.covers_last member)

theorem pairwise_ordered (coalesced : Coalesced table) :
    table.Pairwise fun left right =>
      left.1 ≤ left.2 ∧ left.2 + 1 < right.1 ∧ right.1 ≤ right.2 :=
  coalesced.separated.imp_of_mem fun leftMember rightMember gap =>
    ⟨coalesced.proper _ leftMember, gap, coalesced.proper _ rightMember⟩

/-- Two intervals of a table are the same or apart. -/
theorem eq_or_separated (coalesced : Coalesced table)
    {left right : Nat × Nat} (leftMember : left ∈ table) (rightMember : right ∈ table) :
    left = right ∨ Separated left right ∨ Separated right left := by
  have symmetric : Std.Symm fun first second : Nat × Nat =>
      Separated first second ∨ Separated second first :=
    ⟨fun _ _ gaps => gaps.symm⟩
  have pairs : table.Pairwise fun first second =>
      Separated first second ∨ Separated second first :=
    coalesced.separated.imp Or.inl
  by_cases equal : left = right
  · exact Or.inl equal
  · exact Or.inr (pairs.forall leftMember rightMember equal)

/-- A block of consecutive points is covered exactly when a single interval
contains it. -/
theorem forall_covers_iff (coalesced : Coalesced table) {first last : Nat}
    (ordered : first ≤ last) :
    (∀ point, first ≤ point → point ≤ last → Covers table point) ↔
      ∃ interval ∈ table, interval.1 ≤ first ∧ last ≤ interval.2 := by
  constructor
  · intro covered
    obtain ⟨interval, member, lower, upper⟩ :=
      covered first (Nat.le_refl first) ordered
    refine ⟨interval, member, lower, ?_⟩
    by_contra short
    have inside : Covers table (interval.2 + 1) := by
      apply covered <;> omega
    obtain ⟨other, otherMember, otherLower, otherUpper⟩ := inside
    rcases coalesced.eq_or_separated member otherMember with
      equal | gap | gap
    · subst other
      omega
    · unfold Separated at gap
      omega
    · unfold Separated at gap
      omega
  · rintro ⟨interval, member, lower, upper⟩ point afterFirst beforeLast
    exact ⟨interval, member, by omega, by omega⟩

theorem cons (coalesced : Coalesced table)
    (proper : interval.1 ≤ interval.2) (gaps : ∀ other ∈ table, Separated interval other) :
    Coalesced (interval :: table) where
  proper := by
    intro other member
    rcases List.mem_cons.mp member with equal | inTail
    · subst other
      exact proper
    · exact coalesced.proper other inTail
  separated := List.pairwise_cons.mpr ⟨gaps, coalesced.separated⟩

theorem cons_iff :
    Coalesced (interval :: table) ↔ interval.1 ≤ interval.2 ∧
        (∀ other ∈ table, Separated interval other) ∧ Coalesced table := by
  constructor
  · intro coalesced
    have pairs := List.pairwise_cons.mp coalesced.separated
    exact ⟨coalesced.proper interval List.mem_cons_self, pairs.1, fun other member =>
        coalesced.proper other (List.mem_cons_of_mem interval member),
      pairs.2⟩
  · rintro ⟨proper, gaps, coalesced⟩
    exact coalesced.cons proper gaps

theorem append (leftCoalesced : Coalesced left) (rightCoalesced : Coalesced right)
    (gaps : ∀ before ∈ left, ∀ after ∈ right, Separated before after) :
    Coalesced (left ++ right) where
  proper := by
    intro interval member
    rcases List.mem_append.mp member with inLeft | inRight
    · exact leftCoalesced.proper interval inLeft
    · exact rightCoalesced.proper interval inRight
  separated := List.pairwise_append.mpr ⟨leftCoalesced.separated, rightCoalesced.separated, gaps⟩

theorem of_append_left (coalesced : Coalesced (left ++ right)) :
    Coalesced left where
  proper := fun interval member =>
    coalesced.proper interval (List.mem_append_left right member)
  separated := (List.pairwise_append.mp coalesced.separated).1

theorem of_append_right (coalesced : Coalesced (left ++ right)) :
    Coalesced right where
  proper := fun interval member =>
    coalesced.proper interval (List.mem_append_right left member)
  separated := (List.pairwise_append.mp coalesced.separated).2.1

end Coalesced

/-! ## The hull of the touching intervals -/

/-- Smallest interval containing `interval` and a list of further intervals
sorted by their left ends. -/
def hull (interval : Nat × Nat) : List (Nat × Nat) → Nat × Nat
  | [] => interval
  | touching@(leftmost :: _) =>
    (min leftmost.1 interval.1, touching.foldl (fun widest other => max widest other.2) interval.2)

theorem le_foldl_max (table : List (Nat × Nat)) (seed bound : Nat) :
    bound ≤ table.foldl (fun widest other => max widest other.2) seed ↔
      bound ≤ seed ∨ ∃ interval ∈ table, bound ≤ interval.2 := by
  induction table generalizing seed with
  | nil => simp
  | cons interval table inductionHypothesis =>
    simp only [List.foldl_cons, inductionHypothesis, List.mem_cons, exists_eq_or_imp, le_max_iff]
    exact or_assoc

variable {interval : Nat × Nat} {touching : List (Nat × Nat)}

/-- The hull of intervals that all touch the new one covers exactly the points
of the new interval and of the touching ones. -/
theorem hull_bounds_iff (coalesced : Coalesced touching)
    (touches : ∀ other ∈ touching, interval.1 ≤ other.2 + 1 ∧ other.1 ≤ interval.2 + 1)
    (point : Nat) :
    ((hull interval touching).1 ≤ point ∧ point ≤ (hull interval touching).2) ↔
      Covers touching point ∨ (interval.1 ≤ point ∧ point ≤ interval.2) := by
  cases touching with
  | nil => simp [hull]
  | cons leftmost rest =>
    simp only [hull, le_foldl_max]
    have leftmostTouches := touches leftmost List.mem_cons_self
    constructor
    · rintro ⟨lower, upper⟩
      by_cases below : point < interval.1
      · left
        refine ⟨leftmost, List.mem_cons_self, by omega, by omega⟩
      · rcases upper with withinSeed | ⟨other, member, within⟩
        · exact Or.inr ⟨by omega, withinSeed⟩
        · by_cases above : interval.2 < point
          · have otherTouches := touches other member
            exact Or.inl ⟨other, member, by omega, within⟩
          · exact Or.inr ⟨by omega, by omega⟩
    · rintro (⟨other, member, lower, upper⟩ | ⟨lower, upper⟩)
      · have leftmostFirst : leftmost.1 ≤ other.1 := by
          rcases List.mem_cons.mp member with equal | inRest
          · exact (congrArg Prod.fst equal).ge
          · have gap := (List.pairwise_cons.mp coalesced.separated).1 other inRest
            have properFirst :=
              coalesced.proper leftmost List.mem_cons_self
            unfold Separated at gap
            omega
        exact ⟨by omega, Or.inr ⟨other, member, upper⟩⟩
      · exact ⟨by omega, Or.inl upper⟩

theorem hull_proper (proper : interval.1 ≤ interval.2) (touching : List (Nat × Nat)) :
    (hull interval touching).1 ≤ (hull interval touching).2 := by
  cases touching with
  | nil => exact proper
  | cons leftmost rest =>
    simp only [hull]
    have wide : interval.2 ≤ (leftmost :: rest).foldl
        (fun widest other => max widest other.2) interval.2 :=
      (le_foldl_max _ _ _).mpr (Or.inl (Nat.le_refl _))
    omega

/-- Replacing the block of intervals that touch a new interval by their hull
keeps the table coalesced. -/
theorem Coalesced.splice_hull {before after : List (Nat × Nat)}
    (coalesced : Coalesced (before ++ touching ++ after)) (proper : interval.1 ≤ interval.2)
    (beforeGap : ∀ other ∈ before, Separated other interval)
    (afterGap : ∀ other ∈ after, Separated interval other) :
    Coalesced (before ++ hull interval touching :: after) := by
  have frontCoalesced := coalesced.of_append_left
  have afterCoalesced := coalesced.of_append_right
  have beforeCoalesced := frontCoalesced.of_append_left
  have frontPairs := List.pairwise_append.mp frontCoalesced.separated
  have allPairs := List.pairwise_append.mp coalesced.separated
  apply beforeCoalesced.append
  · apply afterCoalesced.cons (hull_proper proper touching)
    intro other member
    cases touching with
    | nil => exact afterGap other member
    | cons leftmost rest =>
      have bound : ¬other.1 - 1 ≤ (leftmost :: rest).foldl
          (fun widest other => max widest other.2) interval.2 := by
        rw [le_foldl_max]
        rintro (withinSeed | ⟨inner, innerMember, within⟩)
        · have gap := afterGap other member
          unfold Separated at gap
          omega
        · have gap := allPairs.2.2 inner (List.mem_append_right before innerMember) other member
          unfold Separated at gap
          omega
      simp only [Separated, hull]
      omega
  · intro earlier earlierMember other otherMember
    rcases List.mem_cons.mp otherMember with equal | inAfter
    · subst other
      cases touching with
      | nil => exact beforeGap earlier earlierMember
      | cons leftmost rest =>
        have gap := beforeGap earlier earlierMember
        have leftmostGap := frontPairs.2.2 earlier earlierMember leftmost List.mem_cons_self
        simp only [Separated, hull] at gap leftmostGap ⊢
        omega
    · exact allPairs.2.2 earlier (List.mem_append_left touching earlierMember) other inAfter

/-- The hull covers what it replaces and the interval. -/
theorem covers_splice_hull {before after : List (Nat × Nat)}
    (coalesced : Coalesced (before ++ touching ++ after))
    (touches : ∀ other ∈ touching, interval.1 ≤ other.2 + 1 ∧ other.1 ≤ interval.2 + 1)
    (point : Nat) :
    Covers (before ++ hull interval touching :: after) point ↔
      Covers (before ++ touching ++ after) point ∨ (interval.1 ≤ point ∧ point ≤ interval.2) := by
  have touchingCoalesced := coalesced.of_append_left.of_append_right
  simp only [covers_append, covers_cons, hull_bounds_iff touchingCoalesced touches]
  tauto

/-! ## Cutting a table in three -/

/-- Along a table sorted by a relation that a predicate respects, the predicate
fails from its first failure on. -/
theorem not_of_mem_dropWhile {relation : α → α → Prop} {predicate : α → Bool} {table : List α}
    (sorted : table.Pairwise relation) (downward : ∀ earlier later, relation earlier later →
      predicate later = true → predicate earlier = true)
    {entry : α} (member : entry ∈ table.dropWhile predicate) :
    predicate entry = false := by
  induction table with
  | nil => simp at member
  | cons head table inductionHypothesis =>
    have pairs := List.pairwise_cons.mp sorted
    cases holds : predicate head with
    | true =>
      rw [List.dropWhile_cons_of_pos holds] at member
      exact inductionHypothesis pairs.2 member
    | false =>
      rw [List.dropWhile_cons_of_neg (by simp [holds])] at member
      rcases List.mem_cons.mp member with equal | inTail
      · rw [equal]
        exact holds
      · cases later : predicate entry with
        | false => rfl
        | true =>
          have earlier := downward head entry (pairs.1 entry inTail) later
          rw [holds] at earlier
          exact earlier.symm

theorem take_append_between_append_drop {first last : Nat} (nested : first ≤ last)
    (table : List α) :
    table.take first ++ (table.take last).drop first ++ table.drop last = table := by
  have front : table.take first = (table.take last).take first := by
    rw [List.take_take, Nat.min_eq_left nested]
  rw [front, List.take_append_drop, List.take_append_drop]

end IntervalTable
end VideoProxy
