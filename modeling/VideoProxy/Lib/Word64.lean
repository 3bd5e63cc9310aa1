import Mathlib.Algebra.GroupWithZero.Nat
import Mathlib.Order.Nat

/-!
# Unsigned 64-bit arithmetic on natural numbers

Machine words are natural numbers up to `u64Max`.  The operations below are the
checked and the saturating ones; on arguments in range they are ordinary
arithmetic, bounded from above.
-/

namespace VideoProxy

/-- The largest unsigned 64-bit value. -/
def u64Max : Nat := 2 ^ 64 - 1

/-- Addition that fails on overflow. -/
def checkedAdd (left right : Nat) : Option Nat :=
  if left + right ≤ u64Max then some (left + right) else none

/-- Subtraction that fails below zero. -/
def checkedSub (left right : Nat) : Option Nat :=
  if right ≤ left then some (left - right) else none

/-- Addition that stays at the largest value on overflow. -/
def saturatingAdd (left right : Nat) : Nat :=
  min (left + right) u64Max

variable {left right value : Nat}

theorem checkedAdd_eq_some_iff {sum : Nat} :
    checkedAdd left right = some sum ↔ left + right = sum ∧ left + right ≤ u64Max := by
  unfold checkedAdd
  split
  · rename_i fits
    simp [fits]
  · rename_i overflows
    simp [overflows]

theorem checkedAdd_of_le (fits : left + right ≤ u64Max) :
    checkedAdd left right = some (left + right) :=
  if_pos fits

theorem checkedSub_eq_some_iff {difference : Nat} :
    checkedSub left right = some difference ↔ right ≤ left ∧ left - right = difference := by
  unfold checkedSub
  split
  · rename_i ordered
    simp [ordered]
  · rename_i reversed
    simp [reversed]

theorem saturatingAdd_of_le (fits : left + right ≤ u64Max) :
    saturatingAdd left right = left + right :=
  Nat.min_eq_left fits

theorem saturatingAdd_le (left right : Nat) : saturatingAdd left right ≤ u64Max :=
  Nat.min_le_right _ _

theorem foldl_saturatingAdd_eq_min {total : Nat} (word : total ≤ u64Max) (values : List Nat) :
    values.foldl saturatingAdd total = min (total + values.sum) u64Max := by
  induction values generalizing total with
  | nil => exact (Nat.min_eq_left word).symm
  | cons value values inductionHypothesis =>
    rw [List.foldl_cons, inductionHypothesis (saturatingAdd_le total value),
      List.sum_cons, saturatingAdd]
    omega

theorem saturatingAdd_one_lt_iff {bound : Nat} (word : bound ≤ u64Max) :
    saturatingAdd value 1 < bound ↔ value + 1 < bound := by
  unfold saturatingAdd
  omega

theorem le_saturatingAdd_one_iff {bound : Nat} (word : bound ≤ u64Max) :
    bound ≤ saturatingAdd value 1 ↔ bound ≤ value + 1 := by
  unfold saturatingAdd
  omega

/-! ## Counters -/

/-- What follows an id that is given out: counters wrap around and leave out
zero, and a counter at zero gives out no ids. -/
def followingId (value : Nat) : Option Nat :=
  if value ≠ 0 then some (max ((value + 1) % 2 ^ 64) 1) else none

theorem followingId_of_lt (positive : 0 < value) (room : value + 1 < 2 ^ 64) :
    followingId value = some (value + 1) := by
  rw [followingId, if_pos positive.ne', Nat.mod_eq_of_lt room, Nat.max_eq_left (by omega)]

end VideoProxy
