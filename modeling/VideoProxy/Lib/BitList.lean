import Mathlib.Data.Nat.Bitwise

/-!
# Bits, the most significant one first

The low bits of a number as a list.  A number is cut into a high and a low part
with the lists of the parts one after the other.
-/

namespace VideoProxy

/-- The low bits of a number. -/
def bitsOf : Nat → Nat → List Bool
  | 0, _ => []
  | width + 1, value => value.testBit width :: bitsOf width value

/-- The bits of bytes. -/
def bitsOfBytes (bytes : List UInt8) : List Bool :=
  bytes.flatMap fun byte => bitsOf 8 byte.toNat

@[simp] theorem length_bitsOf (width value : Nat) : (bitsOf width value).length = width := by
  induction width with
  | zero => rfl
  | succ width inductionHypothesis => rw [bitsOf, List.length_cons, inductionHypothesis]

theorem bitsOf_eq_iff (width left right : Nat) :
    bitsOf width left = bitsOf width right ↔
      ∀ index < width, left.testBit index = right.testBit index := by
  induction width with
  | zero => simp [bitsOf]
  | succ width inductionHypothesis =>
    rw [bitsOf, bitsOf, List.cons.injEq, inductionHypothesis]
    constructor
    · rintro ⟨last, others⟩ index small
      rcases Nat.lt_succ_iff_lt_or_eq.mp small with smaller | rfl
      · exact others index smaller
      · exact last
    · intro all
      exact ⟨all width (Nat.lt_succ_self width), fun index small => all index (by omega)⟩

theorem bitsOf_add (high low value : Nat) :
    bitsOf (high + low) value = bitsOf high (value >>> low) ++ bitsOf low value := by
  induction high with
  | zero => rw [Nat.zero_add, bitsOf, List.nil_append]
  | succ high inductionHypothesis =>
    rw [Nat.add_right_comm, bitsOf, bitsOf, inductionHypothesis, Nat.testBit_shiftRight,
      Nat.add_comm low, List.cons_append]

/-- Shifting bits in from the right. -/
theorem bitsOf_shiftLeft_or (width : Nat) {count value : Nat} (buffer : Nat)
    (small : value < 2 ^ count) :
    bitsOf (width + count) (buffer <<< count ||| value) =
      bitsOf width buffer ++ bitsOf count value := by
  have high : (buffer <<< count ||| value) >>> count = buffer := by
    rw [Nat.shiftRight_or_distrib, Nat.shiftLeft_shiftRight, Nat.shiftRight_eq_div_pow value,
      Nat.div_eq_of_lt small, Nat.or_zero]
  have low : bitsOf count (buffer <<< count ||| value) = bitsOf count value := by
    rw [bitsOf_eq_iff]
    intro index inside
    rw [Nat.testBit_or, Nat.testBit_shiftLeft, decide_eq_false (by omega), Bool.false_and,
      Bool.false_or]
  rw [bitsOf_add, high, low]

theorem bitsOf_mod (width value : Nat) {size : Nat} (fits : width ≤ size) :
    bitsOf width (value % 2 ^ size) = bitsOf width value := by
  rw [bitsOf_eq_iff]
  intro index inside
  rw [Nat.testBit_mod_two_pow, decide_eq_true (by omega), Bool.true_and]

theorem bitsOf_mask (width value : Nat) :
    bitsOf width (value &&& ((1 <<< width) - 1)) = bitsOf width value := by
  rw [Nat.one_shiftLeft, Nat.and_two_pow_sub_one_eq_mod, bitsOf_mod width value (Nat.le_refl _)]

theorem bitsOfBytes_concat (bytes : List UInt8) (value : Nat) :
    bitsOfBytes (bytes ++ [UInt8.ofNat value]) = bitsOfBytes bytes ++ bitsOf 8 value := by
  have byte : (UInt8.ofNat value).toNat = value % 2 ^ 8 := UInt8.toNat_ofNat'
  rw [bitsOfBytes, List.flatMap_append, List.flatMap_singleton, byte,
    bitsOf_mod 8 value (Nat.le_refl _), bitsOfBytes]

theorem length_flatMap_bitsOf (width : Nat) (values : List UInt8) :
    (values.flatMap fun value => bitsOf width value.toNat).length = width * values.length := by
  induction values with
  | nil => rfl
  | cons value values inductionHypothesis =>
    rw [List.flatMap_cons, List.length_append, length_bitsOf, inductionHypothesis,
      List.length_cons, Nat.mul_succ, Nat.add_comm]

theorem bitsOfBytes_injective : Function.Injective bitsOfBytes := by
  intro left right equal
  induction left generalizing right with
  | nil =>
    cases right with
    | nil => rfl
    | cons byte bytes => cases congrArg List.length equal
  | cons byte bytes inductionHypothesis =>
    cases right with
    | nil => cases congrArg List.length equal
    | cons other others =>
      obtain ⟨first, later⟩ := List.append_inj equal (by simp)
      rw [inductionHypothesis later]
      congr 1
      apply UInt8.toNat_inj.mp
      apply Nat.eq_of_testBit_eq
      intro index
      by_cases inside : index < 8
      · exact (bitsOf_eq_iff 8 _ _).mp first index inside
      · have beyond : ∀ byte : UInt8, byte.toNat.testBit index = false := fun byte =>
          Nat.testBit_lt_two_pow
            (Nat.lt_of_lt_of_le byte.toNat_lt (Nat.pow_le_pow_right (by omega) (by omega)))
        rw [beyond, beyond]

end VideoProxy
