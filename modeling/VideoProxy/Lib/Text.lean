import VideoProxy.Lib.Word64
import Mathlib.Data.List.DropRight
import Mathlib.Data.List.TakeDrop
import Mathlib.Data.List.TakeWhile

/-!
# Text of header values

Header values are lists of characters.  This module has the few operations on
them that a header parser needs: trimming, splitting at a separator, and
reading and printing unsigned decimal numbers.  Printing a machine word and
reading it back gives the same word.
-/

namespace VideoProxy

/-- The characters of a header value. -/
abbrev Text := List Char

namespace Text

/-- The Unicode property `White_Space`. -/
def isWhitespace (char : Char) : Bool :=
  let code := char.toNat
  (9 ≤ code && code ≤ 13) || code = 0x20 || code = 0x85 || code = 0xA0 ||
    code = 0x1680 || (0x2000 ≤ code && code ≤ 0x200A) || code = 0x2028 ||
    code = 0x2029 || code = 0x202F || code = 0x205F || code = 0x3000

/-- Drop white space at both ends. -/
def trim (text : Text) : Text :=
  ((text.dropWhile isWhitespace).reverse.dropWhile isWhitespace).reverse

/-- Remove a fixed beginning. -/
def stripStart (start text : Text) : Option Text :=
  if start.isPrefixOf text then some (text.drop start.length) else none

/-- Split at the first occurrence of a separator. -/
def splitOnce (separator : Char) (text : Text) : Option (Text × Text) :=
  match text.span (· != separator) with
  | (first, _ :: second) => some (first, second)
  | (_, []) => none

/-- Decimal digits of a natural number. -/
def decimal (value : Nat) : Text :=
  Nat.toDigits 10 value

/-- Drop a leading plus sign. -/
def dropPlus : Text → Text
  | '+' :: rest => rest
  | text => text

/-- Read an unsigned 64-bit number: an optional plus sign and at least one
decimal digit, with a value in range. -/
def parseU64 (text : Text) : Option Nat :=
  let digits := dropPlus text
  if digits ≠ [] ∧ digits.all Char.isDigit then
    let value := Nat.ofDigitChars 10 digits 0
    if value ≤ u64Max then some value else none
  else none

@[simp] theorem stripStart_append (start rest : Text) :
    stripStart start (start ++ rest) = some rest := by
  simp [stripStart]

variable {text : Text} {char separator : Char} {value : Nat}

theorem eq_of_stripStart {start rest : Text} (stripped : stripStart start text = some rest) :
    text = start ++ rest := by
  unfold stripStart at stripped
  split at stripped
  · rename_i begins
    obtain ⟨other, rfl⟩ := List.isPrefixOf_iff_prefix.mp begins
    rw [List.drop_left] at stripped
    cases stripped
    rfl
  · cases stripped

theorem decimal_ne_nil (value : Nat) : decimal value ≠ [] :=
  Nat.toDigits_ne_nil

/-- A number is determined by its digits. -/
theorem decimal_inj {left right : Nat} : decimal left = decimal right ↔ left = right := by
  constructor
  · intro same
    have read := congrArg (Nat.ofDigitChars 10 · 0) same
    simp only [decimal, Nat.ofDigitChars_ten_toDigits] at read
    exact read
  · intro same
    rw [same]

theorem isDigit_of_mem_decimal (member : char ∈ decimal value) : char.isDigit :=
  Nat.isDigit_of_mem_toDigits (by omega) (by omega) member

theorem not_mem_decimal (noDigit : char.isDigit = false) (value : Nat) : char ∉ decimal value := by
  intro member
  rw [isDigit_of_mem_decimal member] at noDigit
  exact Bool.noConfusion noDigit

theorem dropPlus_decimal (value : Nat) : dropPlus (decimal value) = decimal value := by
  cases digits_eq : decimal value with
  | nil => rfl
  | cons char rest =>
    unfold dropPlus
    split
    · rename_i tail equal
      have member : '+' ∈ decimal value := by
        rw [digits_eq, equal]
        exact List.mem_cons_self
      exact absurd member (not_mem_decimal (by decide) value)
    · rfl

/-- Printed numbers are read back, if they fit. -/
theorem parseU64_decimal (value : Nat) :
    parseU64 (decimal value) =
      if value ≤ u64Max then some value else none := by
  have digits : (decimal value).all Char.isDigit = true :=
    List.all_eq_true.mpr fun _ member => isDigit_of_mem_decimal member
  unfold parseU64
  simp only [dropPlus_decimal, decimal_ne_nil, digits, ne_eq, not_false_eq_true, and_self, if_true]
  rw [decimal, Nat.ofDigitChars_ten_toDigits]

theorem parseU64_le (parsed : parseU64 text = some value) : value ≤ u64Max := by
  unfold parseU64 at parsed
  simp only at parsed
  split at parsed
  · split at parsed
    · rename_i small
      cases parsed
      exact small
    · cases parsed
  · cases parsed

variable {first second : Text}

/-- The split is at the first separator. -/
theorem splitOnce_append (absent : separator ∉ first) (second : Text) :
    splitOnce separator (first ++ separator :: second) = some (first, second) := by
  have spanned : (first ++ separator :: second).span (· != separator) =
      (first, separator :: second) := by
    rw [List.span_eq_takeWhile_dropWhile]
    have all : ∀ char ∈ first, (char != separator) = true := by
      intro char member
      simp only [bne_iff_ne, ne_eq]
      rintro rfl
      exact absent member
    rw [List.takeWhile_append_of_pos all, List.dropWhile_append_of_pos all]
    simp
  rw [splitOnce, spanned]

/-- Two splits at a first separator are the same. -/
theorem append_cons_inj {other more : Text} (absent : separator ∉ first)
    (otherAbsent : separator ∉ other)
    (same : first ++ separator :: second = other ++ separator :: more) :
    first = other ∧ second = more := by
  have split := congrArg (splitOnce separator) same
  rw [splitOnce_append absent, splitOnce_append otherAbsent] at split
  exact Prod.mk.inj (Option.some.inj split)

theorem eq_of_splitOnce
    (split : splitOnce separator text = some (first, second)) :
    text = first ++ separator :: second := by
  unfold splitOnce at split
  rw [List.span_eq_takeWhile_dropWhile] at split
  have parts := List.takeWhile_append_dropWhile (p := (· != separator)) (l := text)
  cases rest_eq : text.dropWhile (· != separator) with
  | nil =>
    rw [rest_eq] at split
    cases split
  | cons char rest =>
    have stops := List.head?_dropWhile_not (· != separator) text
    rw [rest_eq] at split stops parts
    cases split
    have same : char = separator := by simpa using stops
    rw [same] at parts
    exact parts.symm

theorem not_mem_of_splitOnce
    (split : splitOnce separator text = some (first, second)) :
    separator ∉ first := by
  unfold splitOnce at split
  rw [List.span_eq_takeWhile_dropWhile] at split
  split at split
  · rename_i parts
    cases split
    obtain ⟨rfl, -⟩ := Prod.mk.inj parts
    intro member
    have continues := List.mem_takeWhile_imp member
    simp at continues
  · cases split

/-- Trimming changes nothing when neither end is white space. -/
theorem trim_of_ends (head : ∀ char, text.head? = some char → isWhitespace char = false)
    (last : ∀ char, text.getLast? = some char → isWhitespace char = false) :
    trim text = text := by
  cases text with
  | nil => rfl
  | cons char rest =>
    have kept : (char :: rest).dropWhile isWhitespace = char :: rest := by
      rw [List.dropWhile_cons_of_neg]
      simp [head char rfl]
    have reversed : (char :: rest).reverse.dropWhile isWhitespace = (char :: rest).reverse := by
      cases reverse_eq : (char :: rest).reverse with
      | nil => rfl
      | cons final front =>
        have finalLast : (char :: rest).getLast? = some final := by
          rw [← List.head?_reverse, reverse_eq]
          rfl
        rw [List.dropWhile_cons_of_neg]
        simp [last final finalLast]
    rw [trim, kept, reversed, List.reverse_reverse]

theorem toNat_of_isDigit (digit : char.isDigit) : 48 ≤ char.toNat ∧ char.toNat ≤ 57 := by
  simp only [Char.isDigit, Bool.and_eq_true, decide_eq_true_eq, UInt32.le_iff_toNat_le] at digit
  exact digit

theorem isWhitespace_of_isDigit (digit : char.isDigit) : isWhitespace char = false := by
  obtain ⟨lower, upper⟩ := toNat_of_isDigit digit
  simp only [isWhitespace, Bool.or_eq_false_iff, Bool.and_eq_false_iff, decide_eq_false_iff_not]
  omega

theorem trim_append_decimal
    (head : ∀ char, text.head? = some char → isWhitespace char = false) (value : Nat) :
    trim (text ++ decimal value) = text ++ decimal value := by
  apply trim_of_ends
  · intro char first
    cases text with
    | nil =>
      exact isWhitespace_of_isDigit (isDigit_of_mem_decimal (List.mem_of_mem_head? first))
    | cons initial rest => exact head char first
  · intro char last
    have final_eq := List.getLast?_eq_some_getLast (decimal_ne_nil value)
    rw [List.getLast?_append, final_eq] at last
    cases last
    exact isWhitespace_of_isDigit (isDigit_of_mem_decimal (List.mem_of_getLast? final_eq))

theorem trim_decimal (value : Nat) : trim (decimal value) = decimal value :=
  @trim_append_decimal [] (fun _ absurdly => by cases absurdly) value

/-- Trimming takes white space off both ends. -/
theorem exists_eq_append_trim (text : Text) :
    ∃ front back, text = front ++ (trim text ++ back) ∧ (∀ char ∈ front, isWhitespace char = true) ∧
      ∀ char ∈ back, isWhitespace char = true := by
  let rest := text.dropWhile isWhitespace
  refine ⟨text.takeWhile isWhitespace, (rest.reverse.takeWhile isWhitespace).reverse, ?_,
    fun _ member => List.mem_takeWhile_imp member, fun char member => ?_⟩
  · have parts : trim text ++ (rest.reverse.takeWhile isWhitespace).reverse = rest := by
      rw [trim, ← List.reverse_append, List.takeWhile_append_dropWhile, List.reverse_reverse]
    rw [parts, List.takeWhile_append_dropWhile]
  · exact List.mem_takeWhile_imp (List.mem_reverse.mp member)

theorem mem_trim_of_mem (visible : isWhitespace char = false) (member : char ∈ text) :
    char ∈ trim text := by
  obtain ⟨front, back, text_eq, frontBlank, backBlank⟩ := exists_eq_append_trim text
  have absent {blank : Text} (allBlank : ∀ other ∈ blank, isWhitespace other = true) :
      char ∉ blank := by
    intro inside
    rw [allBlank char inside] at visible
    cases visible
  rw [text_eq, List.mem_append, List.mem_append] at member
  rcases member with inside | inside | inside
  · exact absurd inside (absent frontBlank)
  · exact inside
  · exact absurd inside (absent backBlank)

theorem mem_of_mem_trim (member : char ∈ trim text) : char ∈ text := by
  obtain ⟨front, back, text_eq, _, _⟩ := exists_eq_append_trim text
  rw [text_eq]
  exact List.mem_append_right _ (List.mem_append_left _ member)

/-- White space at the end is trimmed. -/
theorem trim_append_whitespace (text : Text) {back : Text}
    (blank : ∀ char ∈ back, isWhitespace char = true) :
    trim (text ++ back) = trim text := by
  have reversed : ∀ char ∈ back.reverse, isWhitespace char = true := fun char member =>
    blank char (List.mem_reverse.mp member)
  unfold trim
  rw [List.dropWhile_append]
  split
  · rename_i empty
    rw [List.isEmpty_iff.mp empty, List.dropWhile_eq_nil_iff.mpr blank]
  · rw [List.reverse_append, List.dropWhile_append_of_pos reversed]

/-! ## Numerals -/

/-- A machine word written with decimal digits only. -/
structure Numeral (text : Text) (value : Nat) : Prop where
  nonempty : text ≠ []
  digits : ∀ char ∈ text, char.isDigit = true
  value_eq : Nat.ofDigitChars 10 text 0 = value
  word : value ≤ u64Max

theorem Numeral.not_mem (numeral : Numeral text value) (noDigit : char.isDigit = false) :
    char ∉ text := by
  intro member
  rw [numeral.digits char member] at noDigit
  cases noDigit

/-- A machine word with a plus sign before its digits. -/
def Positive (text : Text) (value : Nat) : Prop :=
  ∃ digits, text = '+' :: digits ∧ Numeral digits value

theorem dropPlus_of_numeral (numeral : Numeral text value) : dropPlus text = text := by
  unfold dropPlus
  split
  · exact absurd List.mem_cons_self (numeral.not_mem (by decide : Char.isDigit '+' = false))
  · rfl

theorem numeral_dropPlus_iff :
    Numeral (dropPlus text) value ↔ Numeral text value ∨ Positive text value := by
  constructor
  · intro numeral
    unfold dropPlus at numeral
    split at numeral
    · exact Or.inr ⟨_, rfl, numeral⟩
    · exact Or.inl numeral
  · rintro (numeral | ⟨digits, rfl, numeral⟩)
    · rw [dropPlus_of_numeral numeral]
      exact numeral
    · exact numeral

/-- A number may have a plus sign and leading zeros. -/
theorem parseU64_eq_some_iff :
    parseU64 text = some value ↔ Numeral text value ∨ Positive text value := by
  rw [← numeral_dropPlus_iff]
  unfold parseU64
  simp only
  constructor
  · intro parsed
    split at parsed
    · rename_i digits
      split at parsed
      · rename_i word
        cases parsed
        exact ⟨digits.1, List.all_eq_true.mp digits.2, rfl, word⟩
      · cases parsed
    · cases parsed
  · intro numeral
    rw [if_pos ⟨numeral.nonempty, List.all_eq_true.mpr numeral.digits⟩,
      numeral.value_eq, if_pos numeral.word]

theorem isDigit_of_parseU64 (parsed : parseU64 text = some value) (member : char ∈ text) :
    char = '+' ∨ char.isDigit = true := by
  rcases parseU64_eq_some_iff.mp parsed with numeral | ⟨digits, rfl, numeral⟩
  · exact Or.inr (numeral.digits char member)
  · exact (List.mem_cons.mp member).imp_right (numeral.digits char)

theorem trim_of_parseU64 (parsed : parseU64 text = some value) : trim text = text := by
  have plain {char : Char} (member : char ∈ text) : isWhitespace char = false := by
    rcases isDigit_of_parseU64 parsed member with rfl | digit
    · decide
    · exact isWhitespace_of_isDigit digit
  exact trim_of_ends (fun _ first => plain (List.mem_of_mem_head? first))
    fun _ last => plain (List.mem_of_getLast? last)

/-! ## Numerals without leading zeros -/

/-- Decimal digits of a number, without a leading zero. -/
structure PlainNumeral (numeral : Text) (value : Nat) : Prop where
  nonempty : numeral ≠ []
  digits : ∀ char ∈ numeral, char.isDigit = true
  value_eq : Nat.ofDigitChars 10 numeral 0 = value
  leading : ∀ rest, numeral = '0' :: rest → rest = []

theorem digitChar_of_isDigit (digit : char.isDigit = true) :
    Nat.digitChar (char.toNat - 48) = char := by
  obtain ⟨lower, upper⟩ := toNat_of_isDigit digit
  have printed : ∀ place : Fin 10, Nat.digitChar place = Char.ofNat (48 + place) := by
    decide
  have digit_eq := printed ⟨char.toNat - 48, by omega⟩
  simp only [Nat.add_sub_cancel' lower, Char.ofNat_toNat] at digit_eq
  exact digit_eq

/-- A numeral without a leading zero is the printed number. -/
theorem PlainNumeral.eq_decimal {numeral : Text} (plain : PlainNumeral numeral value) :
    numeral = decimal value := by
  induction numeral using List.reverseRecOn generalizing value with
  | nil => exact absurd rfl plain.nonempty
  | append_singleton front last inductionHypothesis =>
    have lastDigit := plain.digits last (List.mem_append_right _ List.mem_cons_self)
    have bounds := toNat_of_isDigit lastDigit
    have zero : '0'.toNat = 48 := rfl
    have value_eq : 10 * Nat.ofDigitChars 10 front 0 + (last.toNat - 48) = value := by
      have parts := plain.value_eq
      rwa [Nat.ofDigitChars_append, Nat.ofDigitChars_cons, Nat.ofDigitChars_nil, zero] at parts
    have lastDecimal : decimal (last.toNat - 48) = [last] := by
      rw [decimal, Nat.toDigits_of_lt_base (by omega), digitChar_of_isDigit lastDigit]
    cases front with
    | nil =>
      rw [Nat.ofDigitChars_nil, Nat.mul_zero, Nat.zero_add] at value_eq
      rw [← value_eq, lastDecimal]
      rfl
    | cons first rest =>
      -- More digits follow the first, so that it is not a zero.
      have notZero : first ≠ '0' := by
        rintro rfl
        exact absurd (plain.leading _ rfl) (by simp)
      have front_eq := @inductionHypothesis _ ⟨List.cons_ne_nil _ _,
          fun char member => plain.digits char (List.mem_append_left _ member), rfl,
          fun _ starts => absurd (List.cons.inj starts).1 notZero⟩
      have positive : 0 < Nat.ofDigitChars 10 (first :: rest) 0 := by
        rw [Nat.pos_iff_ne_zero]
        intro zeroValue
        rw [zeroValue] at front_eq
        exact notZero (List.cons.inj front_eq).1
      rw [← value_eq, decimal, ← Nat.toDigits_append_toDigits (by omega) positive
        (by omega), ← decimal, ← decimal, lastDecimal, ← front_eq]

theorem decimal_leading {rest : Text} (starts : decimal value = '0' :: rest) : rest = [] := by
  induction value using Nat.strong_induction_on generalizing rest with
  | _ value inductionHypothesis =>
    by_cases small : value < 10
    · rw [decimal, Nat.toDigits_of_lt_base small] at starts
      exact (List.cons.inj starts).2.symm
    · have large : 10 ≤ value := Nat.le_of_not_lt small
      rw [decimal, Nat.toDigits_of_base_le (by omega) large, ← decimal] at starts
      cases front_eq : decimal (value / 10) with
      | nil => exact absurd front_eq (decimal_ne_nil _)
      | cons first front =>
        rw [front_eq, List.cons_append] at starts
        obtain ⟨rfl, _⟩ := List.cons.inj starts
        have alone := inductionHypothesis (value / 10) (by omega) front_eq
        rw [alone] at front_eq
        have zero : value / 10 = 0 := decimal_inj.mp front_eq
        omega

theorem plainNumeral_decimal (value : Nat) : PlainNumeral (decimal value) value :=
  ⟨decimal_ne_nil value, fun _ => isDigit_of_mem_decimal,
    Nat.ofDigitChars_ten_toDigits, fun _ => decimal_leading⟩

end Text
end VideoProxy
