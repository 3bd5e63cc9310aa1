import Mathlib.Algebra.Group.Int.Defs
import VideoProxy.Lib.OrderedMap
import VideoProxy.Lib.Text

/-!
# Bencoded values

Integers, byte strings, lists and dictionaries in the format of torrent files:
numbers are written in decimal ASCII digits, a byte string is its length and its
bytes, and the entries of a dictionary come in the order of their keys.
-/

namespace VideoProxy

namespace Text

/-- The bytes of an ASCII text. -/
def ascii (text : Text) : List UInt8 :=
  text.map fun char => UInt8.ofNat char.toNat

/-- Bytes as characters. -/
def fromAscii (bytes : List UInt8) : Text :=
  bytes.map fun byte => Char.ofNat byte.toNat

/-- A number with its sign. -/
def decimalInt : Int → Text
  | .ofNat value => decimal value
  | .negSucc value => '-' :: decimal (value + 1)

/-- Read a signed 64-bit number: an optional sign and at least one decimal
digit, with a value in range. -/
def parseI64 : Text → Option Int
  | '-' :: digits =>
    let value := Nat.ofDigitChars 10 digits 0
    if digits ≠ [] ∧ digits.all Char.isDigit ∧ value ≤ 2 ^ 63 then
      some (-value)
    else none
  | text =>
    let digits := dropPlus text
    let value := Nat.ofDigitChars 10 digits 0
    if digits ≠ [] ∧ digits.all Char.isDigit ∧ value < 2 ^ 63 then
      some value
    else none

theorem toNat_byte {char : Char} (small : char.toNat < 256) :
    (UInt8.ofNat char.toNat).toNat = char.toNat :=
  UInt8.toNat_ofNat_of_lt' small

theorem fromAscii_ascii {text : Text} (small : ∀ char ∈ text, char.toNat < 256) :
    fromAscii (ascii text) = text := by
  unfold fromAscii ascii
  rw [List.map_map]
  refine (List.map_congr_left fun char member => ?_).trans text.map_id
  change Char.ofNat (UInt8.ofNat char.toNat).toNat = char
  rw [toNat_byte (small char member), Char.ofNat_toNat]

theorem lt_of_mem_decimal {value : Nat} {char : Char} (member : char ∈ decimal value) :
    48 ≤ char.toNat ∧ char.toNat ≤ 57 :=
  toNat_of_isDigit (isDigit_of_mem_decimal member)

theorem lt_of_mem_decimalInt {value : Int} {char : Char} (member : char ∈ decimalInt value) :
    char.toNat ≤ 57 := by
  cases value with
  | ofNat value => exact (lt_of_mem_decimal member).2
  | negSucc value =>
    rcases List.mem_cons.mp member with rfl | digit
    · decide
    · exact (lt_of_mem_decimal digit).2

@[simp] theorem fromAscii_decimal (value : Nat) :
    fromAscii (ascii (decimal value)) = decimal value :=
  fromAscii_ascii fun _ member => by
    have bounds := lt_of_mem_decimal member
    omega

@[simp] theorem fromAscii_decimalInt (value : Int) :
    fromAscii (ascii (decimalInt value)) = decimalInt value :=
  fromAscii_ascii fun _ member => by
    have bound := lt_of_mem_decimalInt member
    omega

theorem not_mem_ascii {text : Text} (bounded : ∀ char ∈ text, char.toNat ≤ 57) {byte : UInt8}
    (large : 57 < byte.toNat) :
    byte ∉ ascii text := by
  intro member
  obtain ⟨char, digit, rfl⟩ := List.mem_map.mp member
  have bound := bounded char digit
  rw [toNat_byte (by omega)] at large
  omega

theorem all_isDigit_decimal (value : Nat) : (decimal value).all Char.isDigit = true :=
  List.all_eq_true.mpr fun _ member => isDigit_of_mem_decimal member

/-- Printed numbers in range are read. -/
theorem parseI64_decimalInt {value : Int} (lower : -2 ^ 63 ≤ value) (upper : value < 2 ^ 63) :
    parseI64 (decimalInt value) = some value := by
  cases value with
  | ofNat value =>
    change parseI64 (decimal value) = some (value : Int)
    unfold parseI64
    split
    · rename_i digits digits_eq
      have minus : '-' ∈ decimal value := by
        rw [digits_eq]
        exact List.mem_cons_self
      exact absurd minus (not_mem_decimal (by decide) value)
    · have small : value < 2 ^ 63 := by
        have := upper
        simp only [Int.ofNat_eq_natCast] at this
        omega
      simp only [dropPlus_decimal]
      rw [decimal, Nat.ofDigitChars_ten_toDigits, ← decimal]
      exact if_pos ⟨decimal_ne_nil value, all_isDigit_decimal value, small⟩
  | negSucc value =>
    have small : value + 1 ≤ 2 ^ 63 := by
      rw [Int.negSucc_eq] at lower
      omega
    change parseI64 ('-' :: decimal (value + 1)) = _
    unfold parseI64
    simp only
    rw [decimal, Nat.ofDigitChars_ten_toDigits, ← decimal]
    exact if_pos ⟨decimal_ne_nil _, all_isDigit_decimal _, small⟩

end Text

/-! ## Values -/

/-- Bencoded values. -/
inductive BValue
  | integer (value : Int)
  | bytes (value : List UInt8)
  | list (values : List BValue)
  | dict (entries : List (List UInt8 × BValue))

namespace BValue

/-- A byte string with its length. -/
def encodeBytes (bytes : List UInt8) : List UInt8 :=
  Text.ascii (Text.decimal bytes.length) ++ 58 :: bytes

mutual

/-- The bytes of a value. -/
def encode : BValue → List UInt8
  | .integer value => 105 :: (Text.ascii (Text.decimalInt value) ++ [101])
  | .bytes value => encodeBytes value
  | .list values => 108 :: (encodeValues values ++ [101])
  | .dict entries => 100 :: (encodeEntries entries ++ [101])

/-- The bytes of the values of a list. -/
def encodeValues : List BValue → List UInt8
  | [] => []
  | value :: values => encode value ++ encodeValues values

/-- The bytes of the entries of a dictionary. -/
def encodeEntries : List (List UInt8 × BValue) → List UInt8
  | [] => []
  | (key, value) :: entries =>
    encodeBytes key ++ encode value ++ encodeEntries entries

end

/-- A value with numbers and lengths in range, with dictionaries in order, and
nested at most so many levels deep. -/
def Fits : Nat → BValue → Prop
  | 0, _ => False
  | _ + 1, .integer value => -2 ^ 63 ≤ value ∧ value < 2 ^ 63
  | _ + 1, .bytes value => value.length ≤ u64Max
  | levels + 1, .list values => ∀ value ∈ values, Fits levels value
  | levels + 1, .dict entries =>
    Ordered entries ∧ ∀ entry ∈ entries, entry.1.length ≤ u64Max ∧ Fits levels entry.2

mutual

/-- Numbers are in range, and the keys of dictionaries strictly increase. -/
def WellFormed : BValue → Prop
  | .integer value => -2 ^ 63 ≤ value ∧ value < 2 ^ 63
  | .bytes _ => True
  | .list values => AllWellFormed values
  | .dict entries => Ordered entries ∧ EntriesWellFormed entries

@[inherit_doc WellFormed]
def AllWellFormed : List BValue → Prop
  | [] => True
  | value :: values => WellFormed value ∧ AllWellFormed values

@[inherit_doc WellFormed]
def EntriesWellFormed : List (List UInt8 × BValue) → Prop
  | [] => True
  | (_, value) :: entries => WellFormed value ∧ EntriesWellFormed entries

end

mutual

/-- The largest number of containers around a value within this one. -/
def containers : BValue → Nat
  | .integer _ => 0
  | .bytes _ => 0
  | .list values => containersOfAll values
  | .dict entries => containersOfEntries entries

/-- The same for the values of a list, with the list itself. -/
def containersOfAll : List BValue → Nat
  | [] => 0
  | value :: values => max (containers value + 1) (containersOfAll values)

/-- The same for the values of a dictionary, with the dictionary itself. -/
def containersOfEntries : List (List UInt8 × BValue) → Nat
  | [] => 0
  | (_, value) :: entries =>
    max (containers value + 1) (containersOfEntries entries)

end

theorem encodeValues_eq (values : List BValue) : encodeValues values = values.flatMap encode := by
  induction values with
  | nil => rfl
  | cons value values inductionHypothesis =>
    rw [encodeValues, List.flatMap_cons, inductionHypothesis]

theorem encodeEntries_eq (entries : List (List UInt8 × BValue)) :
    encodeEntries entries = entries.flatMap fun entry => encodeBytes entry.1 ++ encode entry.2 := by
  induction entries with
  | nil => rfl
  | cons entry entries inductionHypothesis =>
    rw [encodeEntries, List.flatMap_cons, inductionHypothesis]

theorem of_mem_list {value : BValue} {values : List BValue} (member : value ∈ values)
    (wellFormed : AllWellFormed values) :
    WellFormed value ∧ containers value < containersOfAll values ∧
      (encode value).length ≤ (encodeValues values).length := by
  induction values with
  | nil => cases member
  | cons first values inductionHypothesis =>
    rw [containersOfAll, encodeValues, List.length_append]
    rcases List.mem_cons.mp member with rfl | later
    · exact ⟨wellFormed.1, by omega, by omega⟩
    · obtain ⟨valid, around, length_le⟩ := inductionHypothesis later wellFormed.2
      exact ⟨valid, by omega, by omega⟩

theorem of_mem_dict {entry : List UInt8 × BValue} {entries : List (List UInt8 × BValue)}
    (member : entry ∈ entries) (wellFormed : EntriesWellFormed entries) :
    WellFormed entry.2 ∧ containers entry.2 < containersOfEntries entries ∧
      (encodeBytes entry.1).length + (encode entry.2).length ≤ (encodeEntries entries).length := by
  induction entries with
  | nil => cases member
  | cons first entries inductionHypothesis =>
    obtain ⟨key, value⟩ := first
    rw [containersOfEntries, encodeEntries, List.length_append, List.length_append]
    rcases List.mem_cons.mp member with rfl | later
    · exact ⟨wellFormed.1, by dsimp only; omega, by dsimp only; omega⟩
    · obtain ⟨valid, around, length_le⟩ := inductionHypothesis later wellFormed.2
      exact ⟨valid, by omega, by omega⟩

theorem length_le_encodeBytes (bytes : List UInt8) : bytes.length ≤ (encodeBytes bytes).length := by
  rw [encodeBytes, List.length_append, List.length_cons]
  omega

/-- In a value that is not too long to be written, all lengths are in range. -/
theorem fits_of_wellFormed {levels : Nat} {value : BValue} (wellFormed : value.WellFormed)
    (shallow : value.containers < levels) (short : value.encode.length ≤ u64Max) :
    value.Fits levels := by
  induction levels generalizing value with
  | zero => cases shallow
  | succ levels inductionHypothesis =>
    cases value with
    | integer number => exact wellFormed
    | bytes content => exact (length_le_encodeBytes content).trans short
    | list values =>
      rw [containers] at shallow
      rw [encode, List.length_cons, List.length_append] at short
      intro value member
      obtain ⟨valid, around, length_le⟩ := of_mem_list member wellFormed
      exact inductionHypothesis valid (by omega) (by omega)
    | dict entries =>
      obtain ⟨ordered, each⟩ := wellFormed
      rw [containers] at shallow
      rw [encode, List.length_cons, List.length_append] at short
      refine ⟨ordered, fun entry member => ?_⟩
      obtain ⟨valid, around, length_le⟩ := of_mem_dict member each
      have key_le := length_le_encodeBytes entry.1
      exact ⟨by omega, inductionHypothesis valid (by omega) (by omega)⟩

theorem exists_encodeBytes (bytes : List UInt8) :
    ∃ digit rest, encodeBytes bytes = digit :: rest ∧ 48 ≤ digit ∧ digit ≤ 57 := by
  cases digits_eq : Text.decimal bytes.length with
  | nil => exact absurd digits_eq (Text.decimal_ne_nil _)
  | cons char chars =>
    have bounds := Text.lt_of_mem_decimal
      (digits_eq ▸ List.mem_cons_self : char ∈ Text.decimal bytes.length)
    have byte := Text.toNat_byte (show char.toNat < 256 by omega)
    refine ⟨UInt8.ofNat char.toNat, Text.ascii chars ++ 58 :: bytes, ?_,
      UInt8.le_iff_toNat_le.mpr ?_, UInt8.le_iff_toNat_le.mpr ?_⟩
    · rw [encodeBytes, digits_eq]
      rfl
    · rw [byte]
      exact bounds.1
    · rw [byte]
      exact bounds.2

end BValue

end VideoProxy
