import Mathlib.Algebra.Group.Nat.Defs
import Mathlib.Algebra.Order.Group.Nat

/-!
# Big-endian numbers

A number is written with a fixed count of bytes, the most significant one first.
Reading what was written gives the number, and writing what was read gives the
bytes.
-/

namespace VideoProxy

/-- The last bytes of a number, the most significant one first. -/
def bigEndian : Nat → Nat → List UInt8
  | 0, _ => []
  | width + 1, value =>
    UInt8.ofNat (value / 256 ^ width) :: bigEndian width value

/-- The number that bytes stand for. -/
def fromBigEndian : List UInt8 → Nat
  | [] => 0
  | byte :: bytes => byte.toNat * 256 ^ bytes.length + fromBigEndian bytes

@[simp] theorem length_bigEndian (width value : Nat) : (bigEndian width value).length = width := by
  induction width with
  | zero => rfl
  | succ width inductionHypothesis =>
    rw [bigEndian, List.length_cons, inductionHypothesis]

theorem fromBigEndian_lt (bytes : List UInt8) : fromBigEndian bytes < 256 ^ bytes.length := by
  induction bytes with
  | nil => exact Nat.one_pos
  | cons byte bytes inductionHypothesis =>
    have small : byte.toNat ≤ 255 := Nat.le_of_lt_succ byte.toNat_lt
    calc
      fromBigEndian (byte :: bytes) < byte.toNat * 256 ^ bytes.length + 256 ^ bytes.length :=
        Nat.add_lt_add_left inductionHypothesis _
      _ ≤ 255 * 256 ^ bytes.length + 256 ^ bytes.length :=
        Nat.add_le_add_right (Nat.mul_le_mul_right _ small) _
      _ = 256 ^ (bytes.length + 1) := by
        rw [Nat.pow_succ]
        omega

/-- What does not fit is cut off. -/
theorem fromBigEndian_bigEndian (width value : Nat) :
    fromBigEndian (bigEndian width value) = value % 256 ^ width := by
  induction width with
  | zero => exact (Nat.mod_one value).symm
  | succ width inductionHypothesis =>
    have byte : (UInt8.ofNat (value / 256 ^ width)).toNat =
        value / 256 ^ width % 256 := UInt8.toNat_ofNat'
    rw [bigEndian, fromBigEndian, inductionHypothesis, length_bigEndian, byte,
      Nat.pow_succ, Nat.mod_mul, Nat.add_comm, Nat.mul_comm]

theorem bigEndian_add_mul (width value high : Nat) :
    bigEndian width (high * 256 ^ width + value) = bigEndian width value := by
  induction width generalizing high with
  | zero => rfl
  | succ width inductionHypothesis =>
    have split : high * 256 ^ (width + 1) = high * 256 * 256 ^ width := by
      rw [Nat.pow_succ, Nat.mul_assoc, Nat.mul_comm (256 ^ width)]
    rw [bigEndian, bigEndian, split, inductionHypothesis (high * 256)]
    congr 1
    apply UInt8.toNat_inj.mp
    rw [UInt8.toNat_ofNat', UInt8.toNat_ofNat', Nat.add_comm, Nat.add_mul_div_right _ _ (Nat.pow_pos
      (by omega)), Nat.add_mul_mod_self_right]

/-- Bytes are read and written back. -/
theorem bigEndian_fromBigEndian (bytes : List UInt8) :
    bigEndian bytes.length (fromBigEndian bytes) = bytes := by
  induction bytes with
  | nil => rfl
  | cons byte bytes inductionHypothesis =>
    have high : (byte.toNat * 256 ^ bytes.length + fromBigEndian bytes) /
        256 ^ bytes.length = byte.toNat := by
      rw [Nat.add_comm, Nat.add_mul_div_right _ _ (Nat.pow_pos (by omega)),
        Nat.div_eq_of_lt (fromBigEndian_lt bytes), Nat.zero_add]
    rw [fromBigEndian, List.length_cons, bigEndian, high, UInt8.ofNat_toNat,
      bigEndian_add_mul, inductionHypothesis]

theorem fromBigEndian_bigEndian_of_lt {width value : Nat} (fits : value < 256 ^ width) :
    fromBigEndian (bigEndian width value) = value := by
  rw [fromBigEndian_bigEndian, Nat.mod_eq_of_lt fits]

/-! ## Machine words -/

/-- `u64::to_be_bytes`. -/
def u64ToBe (value : UInt64) : List UInt8 :=
  bigEndian 8 value.toNat

/-- `u64::from_be_bytes`. -/
def u64FromBe (bytes : List UInt8) : UInt64 :=
  UInt64.ofNat (fromBigEndian bytes)

/-- `u32::to_be_bytes`. -/
def u32ToBe (value : UInt32) : List UInt8 :=
  bigEndian 4 value.toNat

/-- `u32::from_be_bytes`. -/
def u32FromBe (bytes : List UInt8) : UInt32 :=
  UInt32.ofNat (fromBigEndian bytes)

/-- `u16::to_be_bytes`. -/
def u16ToBe (value : UInt16) : List UInt8 :=
  bigEndian 2 value.toNat

/-- `u16::from_be_bytes`. -/
def u16FromBe (bytes : List UInt8) : UInt16 :=
  UInt16.ofNat (fromBigEndian bytes)

@[simp] theorem length_u64ToBe (value : UInt64) : (u64ToBe value).length = 8 :=
  length_bigEndian 8 value.toNat

@[simp] theorem length_u32ToBe (value : UInt32) : (u32ToBe value).length = 4 :=
  length_bigEndian 4 value.toNat

@[simp] theorem length_u16ToBe (value : UInt16) : (u16ToBe value).length = 2 :=
  length_bigEndian 2 value.toNat

@[simp] theorem u64FromBe_u64ToBe (value : UInt64) : u64FromBe (u64ToBe value) = value := by
  rw [u64FromBe, u64ToBe, fromBigEndian_bigEndian_of_lt value.toNat_lt, UInt64.ofNat_toNat]

@[simp] theorem u32FromBe_u32ToBe (value : UInt32) : u32FromBe (u32ToBe value) = value := by
  rw [u32FromBe, u32ToBe, fromBigEndian_bigEndian_of_lt value.toNat_lt, UInt32.ofNat_toNat]

@[simp] theorem u16FromBe_u16ToBe (value : UInt16) : u16FromBe (u16ToBe value) = value := by
  rw [u16FromBe, u16ToBe, fromBigEndian_bigEndian_of_lt value.toNat_lt, UInt16.ofNat_toNat]

variable {bytes : List UInt8}

theorem toNat_u32FromBe (four : bytes.length = 4) :
    (u32FromBe bytes).toNat = fromBigEndian bytes := by
  have fits := fromBigEndian_lt bytes
  rw [four] at fits
  exact UInt32.toNat_ofNat_of_lt' fits

theorem u32ToBe_u32FromBe (four : bytes.length = 4) : u32ToBe (u32FromBe bytes) = bytes := by
  rw [u32ToBe, toNat_u32FromBe four, ← four, bigEndian_fromBigEndian]

theorem u16ToBe_u16FromBe (two : bytes.length = 2) : u16ToBe (u16FromBe bytes) = bytes := by
  have fits := fromBigEndian_lt bytes
  rw [two] at fits
  rw [u16ToBe, u16FromBe, UInt16.toNat_ofNat_of_lt' fits, ← two, bigEndian_fromBigEndian]

end VideoProxy
