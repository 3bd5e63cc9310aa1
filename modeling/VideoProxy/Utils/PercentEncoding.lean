import VideoProxy.Lib.Text

/-!
# Percent coding of URL components

A text is encoded byte by byte: unreserved bytes of its UTF-8 form stand for
themselves, any other byte is written as two hexadecimal digits.
-/

namespace VideoProxy

/-- `PercentDecodeError`. -/
inductive PercentDecodeError
  | invalidEscape (index : Nat)
  | invalidUtf8
deriving DecidableEq, Repr

namespace PercentDecodeError

/-- The `Display` text. -/
def display : PercentDecodeError → String
  | .invalidEscape index => s!"invalid percent escape at byte {index}"
  | .invalidUtf8 => "decoded value is not valid UTF-8"

end PercentDecodeError

namespace PercentEncoding

/-- The UTF-8 form of a text. -/
def utf8 (text : Text) : List UInt8 :=
  text.flatMap String.utf8EncodeChar

/-- `String::from_utf8`. -/
def fromUtf8 (bytes : List UInt8) : Option Text :=
  (ByteArray.mk bytes.toArray).utf8Decode?.map Array.toList

/-- `is_unreserved`. -/
def isUnreserved (byte : UInt8) : Bool :=
  (48 ≤ byte && byte ≤ 57) || (65 ≤ byte && byte ≤ 90) ||
    (97 ≤ byte && byte ≤ 122) || byte = 45 || byte = 46 || byte = 95 ||
    byte = 126

/-- A byte as a character. -/
def charFrom (byte : UInt8) : Char :=
  Char.ofNat byte.toNat

/-- `HEX`. -/
def hexDigit (value : Nat) : Char :=
  Char.ofNat (if value < 10 then 48 + value else 55 + value)

/-- One byte of `encode_component`. -/
def encodeByte (byte : UInt8) : Text :=
  if isUnreserved byte then [charFrom byte]
  else ['%', hexDigit (byte.toNat / 16), hexDigit (byte.toNat % 16)]

/-- `encode_component`. -/
def encodeComponent (value : Text) : Text :=
  if (utf8 value).all isUnreserved then value
  else (utf8 value).flatMap encodeByte

/-- `hex_value`. -/
def hexValue (byte : UInt8) : Option UInt8 :=
  if 48 ≤ byte ∧ byte ≤ 57 then some (byte - 48)
  else if 97 ≤ byte ∧ byte ≤ 102 then some (byte - 97 + 10)
  else if 65 ≤ byte ∧ byte ≤ 70 then some (byte - 65 + 10)
  else none

/-- The loop of `decode_component`, from an index on. -/
def decodeBytes :
    Nat → List UInt8 → Except PercentDecodeError (List UInt8)
  | _, [] => .ok []
  | index, byte :: rest =>
    if byte ≠ 37 then (decodeBytes (index + 1) rest).map (byte :: ·)
    else
      match rest with
      | high :: low :: rest =>
        match hexValue high, hexValue low with
        | some high, some low =>
          (decodeBytes (index + 3) rest).map ((high <<< 4 ||| low) :: ·)
        | _, _ => .error (.invalidEscape index)
      | _ => .error (.invalidEscape index)

/-- `decode_component`. -/
def decodeComponent (value : Text) : Except PercentDecodeError Text :=
  if 37 ∉ utf8 value then .ok value
  else
    match decodeBytes 0 (utf8 value) with
    | .error error => .error error
    | .ok decoded =>
      match fromUtf8 decoded with
      | some text => .ok text
      | none => .error .invalidUtf8

/-! ## Decoding what was encoded -/

theorem fromUtf8_utf8 (text : Text) : fromUtf8 (utf8 text) = some text := by
  have bytes_eq : ByteArray.mk (utf8 text).toArray = text.utf8Encode :=
    ByteArray.ext List.data_toByteArray.symm
  rw [fromUtf8, bytes_eq, List.utf8Decode?_utf8Encode, Option.map_some]

theorem utf8_append (left right : Text) : utf8 (left ++ right) = utf8 left ++ utf8 right :=
  List.flatMap_append

theorem forall_byte {property : UInt8 → Prop}
    (checked : ∀ value < 256, property (UInt8.ofNat value)) (byte : UInt8) :
    property byte := by
  have here := checked byte.toNat byte.toNat_lt
  rwa [UInt8.ofNat_toNat] at here

theorem utf8_charFrom : ∀ byte, isUnreserved byte = true → utf8 [charFrom byte] = [byte] :=
  forall_byte (by decide +kernel)

theorem utf8_hexDigit :
    ∀ value < 16, utf8 [hexDigit value] = [UInt8.ofNat (hexDigit value).toNat] ∧
        hexValue (UInt8.ofNat (hexDigit value).toNat) = some (UInt8.ofNat value) := by
  decide

theorem ofNat_nibbles :
    ∀ byte : UInt8, UInt8.ofNat (byte.toNat / 16) <<< 4 ||| UInt8.ofNat (byte.toNat % 16) = byte :=
  forall_byte (by decide +kernel)

variable {byte : UInt8} {bytes decoded : List UInt8} {value : Text} {char : Char}

theorem decodeBytes_cons (index : Nat) (notEscape : byte ≠ 37) (rest : List UInt8) :
    decodeBytes index (byte :: rest) = (decodeBytes (index + 1) rest).map (byte :: ·) := by
  rw [decodeBytes.eq_def]
  exact if_pos notEscape

/-- A byte that was encoded is decoded first. -/
theorem decodeBytes_encodeByte (index : Nat) (byte : UInt8) (rest : List UInt8) :
    ∃ later, decodeBytes index (utf8 (encodeByte byte) ++ rest) =
      (decodeBytes later rest).map (byte :: ·) := by
  unfold encodeByte
  split
  · rename_i unreserved
    have notEscape : byte ≠ 37 := by
      rintro rfl
      cases unreserved
    rw [utf8_charFrom byte unreserved, List.singleton_append, decodeBytes_cons index notEscape]
    exact ⟨index + 1, rfl⟩
  · have small := byte.toNat_lt
    obtain ⟨high_eq, highValue⟩ := utf8_hexDigit (byte.toNat / 16) (by omega)
    obtain ⟨low_eq, lowValue⟩ := utf8_hexDigit (byte.toNat % 16) (by omega)
    have bytes_eq :
        utf8 ['%', hexDigit (byte.toNat / 16), hexDigit (byte.toNat % 16)] =
          [37, UInt8.ofNat (hexDigit (byte.toNat / 16)).toNat,
            UInt8.ofNat (hexDigit (byte.toNat % 16)).toNat] := by
      have escape : utf8 ['%'] = [37] := by decide
      calc
        _ = utf8 ['%'] ++ (utf8 [hexDigit (byte.toNat / 16)] ++
              utf8 [hexDigit (byte.toNat % 16)]) := by
          rw [← utf8_append, ← utf8_append]
          rfl
        _ = _ := by
          rw [escape, high_eq, low_eq]
          rfl
    refine ⟨index + 3, ?_⟩
    rw [bytes_eq, List.cons_append, List.cons_append, List.singleton_append,
      decodeBytes, if_neg (by decide)]
    simp only [highValue, lowValue, ofNat_nibbles byte]

theorem decodeBytes_flatMap (bytes : List UInt8) (index : Nat) :
    decodeBytes index (utf8 (bytes.flatMap encodeByte)) = .ok bytes := by
  induction bytes generalizing index with
  | nil => rfl
  | cons byte bytes inductionHypothesis =>
    obtain ⟨later, decoded⟩ := decodeBytes_encodeByte index byte (utf8 (bytes.flatMap encodeByte))
    rw [List.flatMap_cons, utf8_append, decoded, inductionHypothesis]
    rfl

theorem decodeComponent_encodeComponent (value : Text) :
    decodeComponent (encodeComponent value) = .ok value := by
  unfold encodeComponent
  split
  · rename_i plain
    have noEscape : 37 ∉ utf8 value := by
      intro member
      cases List.all_eq_true.mp plain 37 member
    rw [decodeComponent, if_pos noEscape]
  · rename_i reserved
    rw [Bool.not_eq_true, List.all_eq_false] at reserved
    obtain ⟨byte, member, reserved⟩ := reserved
    have escaped : 37 ∈ utf8 ((utf8 value).flatMap encodeByte) := by
      refine List.mem_flatMap.mpr ⟨'%', List.mem_flatMap.mpr ⟨byte, member, ?_⟩, by decide⟩
      rw [encodeByte, if_neg reserved]
      exact List.mem_cons_self
    rw [decodeComponent, if_neg (not_not_intro escaped), decodeBytes_flatMap]
    simp only [fromUtf8_utf8]

/-! ## The length of a decoded text -/

theorem utf8_of_fromUtf8 {text : Text} (decoded : fromUtf8 bytes = some text) :
    utf8 text = bytes := by
  obtain ⟨chars, chars_eq, rfl⟩ := Option.map_eq_some_iff.mp decoded
  have valid : (ByteArray.mk bytes.toArray).utf8Decode?.isSome := by
    rw [chars_eq]
    rfl
  have encoded := @ByteArray.utf8Encode_get_utf8Decode? _ valid
  simp only [chars_eq, Option.get_some] at encoded
  have data_eq := congrArg ByteArray.data encoded
  rw [List.utf8Encode, List.data_toByteArray] at data_eq
  exact congrArg Array.toList data_eq

theorem exists_of_map_eq_ok {ε α β : Type} {function : α → β} {result : Except ε α} {value : β}
    (mapped : result.map function = .ok value) :
    ∃ original, result = .ok original ∧ function original = value := by
  cases result with
  | error error => cases mapped
  | ok original =>
    cases mapped
    exact ⟨original, rfl, rfl⟩

/-- Decoding does not make bytes more. -/
theorem decodeBytes_length_le {index : Nat} (ended : decodeBytes index bytes = .ok decoded) :
    decoded.length ≤ bytes.length := by
  induction index, bytes using decodeBytes.induct generalizing decoded with
  | case1 index =>
    cases ended
    exact Nat.le_refl 0
  | case2 index byte rest plain inductionHypothesis =>
    rw [decodeBytes_cons index plain] at ended
    obtain ⟨others, later, rfl⟩ := exists_of_map_eq_ok ended
    exact Nat.succ_le_succ (inductionHypothesis later)
  | case3 index byte escape high low rest _ _ lowValue highValue
      inductionHypothesis =>
      rw [decodeBytes, if_neg escape] at ended
      simp only [highValue, lowValue] at ended
      obtain ⟨others, later, rfl⟩ := exists_of_map_eq_ok ended
      have shorter := inductionHypothesis later
      simp only [List.length_cons]
      omega
  | case4 index byte escape high low rest invalid =>
    rw [decodeBytes, if_neg escape] at ended
    simp only at ended
    cases ended
  | case5 index byte rest escape short =>
    rw [decodeBytes.eq_def] at ended
    simp only [if_neg escape] at ended
    cases ended

/-- Decoding does not make a text longer. -/
theorem decodeComponent_length_le {decoded : Text} (ended : decodeComponent value = .ok decoded) :
    (utf8 decoded).length ≤ (utf8 value).length := by
  unfold decodeComponent at ended
  split at ended
  · cases ended
    exact Nat.le_refl _
  · cases bytes_eq : decodeBytes 0 (utf8 value) with
    | error error =>
      rw [bytes_eq] at ended
      cases ended
    | ok bytes =>
      simp only [bytes_eq] at ended
      cases text_eq : fromUtf8 bytes with
      | none =>
        rw [text_eq] at ended
        cases ended
      | some text =>
        rw [text_eq] at ended
        cases ended
        rw [utf8_of_fromUtf8 text_eq]
        exact decodeBytes_length_le bytes_eq

/-! ## The characters of an encoded text -/

/-- The characters that encoded texts are made of. -/
def IsEncoded (char : Char) : Prop :=
  char = '%' ∨ ∃ byte, isUnreserved byte = true ∧ char = charFrom byte

theorem isEncoded_hexDigit {value : Nat} (small : value < 16) : IsEncoded (hexDigit value) := by
  have checked : ∀ value < 16, isUnreserved (UInt8.ofNat (hexDigit value).toNat) = true ∧
        hexDigit value = charFrom (UInt8.ofNat (hexDigit value).toNat) := by
    decide
  exact .inr ⟨_, checked value small⟩

theorem isEncoded_of_mem_encodeByte (member : char ∈ encodeByte byte) : IsEncoded char := by
  have small := byte.toNat_lt
  unfold encodeByte at member
  split at member
  · rename_i unreserved
    exact .inr ⟨byte, unreserved, List.mem_singleton.mp member⟩
  · simp only [List.mem_cons, List.not_mem_nil, or_false] at member
    rcases member with rfl | rfl | rfl
    · exact .inl rfl
    · exact isEncoded_hexDigit (by omega)
    · exact isEncoded_hexDigit (by omega)

theorem toNat_lt_of_isUnreserved : ∀ byte, isUnreserved byte = true → byte.toNat < 128 :=
  forall_byte (by decide +kernel)

/-- A character whose bytes are unreserved is one of them. -/
theorem isEncoded_of_unreserved (unreserved : ∀ byte ∈ String.utf8EncodeChar char,
      isUnreserved byte = true) :
    IsEncoded char := by
  by_cases ascii : char.val.toNat ≤ 127
  · have bytes_eq :
        String.utf8EncodeChar char = [UInt8.ofNat char.val.toNat] :=
      if_pos ascii
    refine .inr ⟨UInt8.ofNat char.val.toNat,
      unreserved _ (by rw [bytes_eq]; exact List.mem_cons_self), ?_⟩
    unfold charFrom
    have small : (UInt8.ofNat char.val.toNat).toNat = char.toNat := by
      rw [UInt8.toNat_ofNat']
      exact Nat.mod_eq_of_lt (by omega)
    rw [small, Char.ofNat_toNat]
  · exfalso
    have first : ∃ byte ∈ String.utf8EncodeChar char, 128 ≤ byte.toNat := by
      unfold String.utf8EncodeChar
      simp only [if_neg ascii]
      split
      · refine ⟨_, List.mem_cons_self, ?_⟩
        rw [UInt8.toNat_ofNat']
        omega
      · split
        · refine ⟨_, List.mem_cons_self, ?_⟩
          rw [UInt8.toNat_ofNat']
          omega
        · refine ⟨_, List.mem_cons_self, ?_⟩
          rw [UInt8.toNat_ofNat']
          omega
    obtain ⟨byte, member, large⟩ := first
    have bound := toNat_lt_of_isUnreserved byte (unreserved byte member)
    omega

theorem isEncoded_of_mem_encodeComponent (member : char ∈ encodeComponent value) :
    IsEncoded char := by
  unfold encodeComponent at member
  split at member
  · rename_i plain
    apply isEncoded_of_unreserved
    intro byte isByte
    exact List.all_eq_true.mp plain byte (List.mem_flatMap.mpr ⟨char, member, isByte⟩)
  · obtain ⟨byte, -, encoded⟩ := List.mem_flatMap.mp member
    exact isEncoded_of_mem_encodeByte encoded

theorem IsEncoded.of_checked {property : Char → Prop} (encoded : IsEncoded char)
    (escape : property '%') (checked : ∀ value < 256, isUnreserved (UInt8.ofNat value) = true →
      property (charFrom (UInt8.ofNat value))) :
    property char := by
  rcases encoded with rfl | ⟨byte, unreserved, rfl⟩
  · exact escape
  · have all : ∀ byte, isUnreserved byte = true → property (charFrom byte) :=
      forall_byte checked
    exact all byte unreserved

example : encodeComponent "a/视".toList = "a%2F%E8%A7%86".toList := by
  decide +kernel

/-! ## The grammar of encoded components -/

/-- A letter or digit of ASCII or one of the four marks. -/
def UnreservedChar (char : Char) : Prop :=
  char.isAlphanum = true ∨ char = '-' ∨ char = '.' ∨ char = '_' ∨ char = '~'

/-- An upper-case hexadecimal digit. -/
def UpperHex (char : Char) : Prop :=
  char.isDigit = true ∨ 'A' ≤ char ∧ char ≤ 'F'

instance : DecidablePred UnreservedChar :=
  fun _ => inferInstanceAs (Decidable (_ ∨ _))

instance : DecidablePred UpperHex :=
  fun _ => inferInstanceAs (Decidable (_ ∨ _))

/-- A text of unreserved characters and escapes. -/
inductive EncodedForm : Text → Prop
  | nil : EncodedForm []
  | plain {char : Char} {rest : Text} (unreserved : UnreservedChar char)
      (later : EncodedForm rest) : EncodedForm (char :: rest)
  | escape {high low : Char} {rest : Text} (highHex : UpperHex high) (lowHex : UpperHex low)
      (later : EncodedForm rest) : EncodedForm ('%' :: high :: low :: rest)

/-- The byte has this place in one of the alphabets. -/
def IsDigit (alphabets : List (List UInt8)) (byte value : UInt8) : Prop :=
  ∃ digits ∈ alphabets, digits[value.toNat]? = some byte

instance (alphabets : List (List UInt8)) (byte value : UInt8) :
    Decidable (IsDigit alphabets byte value) :=
  inferInstanceAs (Decidable (∃ digits ∈ alphabets, digits[value.toNat]? = some byte))

/-- The hexadecimal digits of either case. -/
def hexDigits : List (List UInt8) :=
  [utf8 "0123456789ABCDEF".toList, utf8 "0123456789abcdef".toList]

/-- The byte is a hexadecimal digit of this value. -/
abbrev HexDigit (byte value : UInt8) : Prop :=
  IsDigit hexDigits byte value

/-- Percent decoding: every escape is a byte, other bytes stay. -/
inductive Decodes : List UInt8 → List UInt8 → Prop
  | nil : Decodes [] []
  | plain {byte : UInt8} {rest decoded : List UInt8} (notEscape : byte ≠ 37)
      (later : Decodes rest decoded) : Decodes (byte :: rest) (byte :: decoded)
  | escape {highDigit lowDigit high low : UInt8} {rest decoded : List UInt8}
      (highHex : HexDigit highDigit high) (lowHex : HexDigit lowDigit low)
      (later : Decodes rest decoded) :
      Decodes (37 :: highDigit :: lowDigit :: rest) ((high * 16 + low) :: decoded)

/-- A `%` that the scan meets at this place is not followed by two hexadecimal
digits. -/
def BadEscape (bytes : List UInt8) (position : Nat) : Prop :=
  ∃ before after decoded, bytes = before ++ 37 :: after ∧ before.length = position ∧
    Decodes before decoded ∧
    ∀ highDigit lowDigit rest, after = highDigit :: lowDigit :: rest →
      ∀ high low, HexDigit highDigit high → ¬HexDigit lowDigit low

theorem unreservedChar_charFrom :
    ∀ byte, isUnreserved byte = true → UnreservedChar (charFrom byte) :=
  forall_byte (by decide +kernel)

theorem encodedForm_encodeByte (byte : UInt8) {rest : Text} (later : EncodedForm rest) :
    EncodedForm (encodeByte byte ++ rest) := by
  have upperHex : ∀ value < 16, UpperHex (hexDigit value) := by decide
  have small := byte.toNat_lt
  unfold encodeByte
  split
  · rename_i unreserved
    exact .plain (unreservedChar_charFrom byte unreserved) later
  · exact .escape (upperHex _ (by omega)) (upperHex _ (by omega)) later

theorem encodedForm_of_unreserved (plain : (utf8 value).all isUnreserved = true) :
    EncodedForm value := by
  induction value with
  | nil => exact .nil
  | cons char rest inductionHypothesis =>
    have split : utf8 (char :: rest) = String.utf8EncodeChar char ++ utf8 rest :=
      List.flatMap_cons
    rw [split, List.all_append, Bool.and_eq_true] at plain
    have here := List.all_eq_true.mp plain.1
    refine .plain ?_ (inductionHypothesis plain.2)
    rcases isEncoded_of_unreserved here with rfl | ⟨byte, unreserved, rfl⟩
    · cases here 37 (by decide)
    · exact unreservedChar_charFrom byte unreserved

theorem encodedForm_encodeComponent (value : Text) : EncodedForm (encodeComponent value) := by
  unfold encodeComponent
  split
  · rename_i plain
    exact encodedForm_of_unreserved plain
  · induction utf8 value with
    | nil => exact .nil
    | cons byte bytes inductionHypothesis =>
      rw [List.flatMap_cons]
      exact encodedForm_encodeByte byte inductionHypothesis

theorem IsDigit.lt {alphabets : List (List UInt8)} {base : Nat} {value : UInt8}
    (digit : IsDigit alphabets byte value)
    (sizes : ∀ digits ∈ alphabets, digits.length = base) : value.toNat < base := by
  obtain ⟨digits, member, here⟩ := digit
  rw [← sizes digits member]
  exact (List.getElem?_eq_some_iff.mp here).1

/-- A reader of digits that was checked on every byte and on every digit. -/
theorem eq_some_iff_isDigit {alphabets : List (List UInt8)} {base : Nat}
    {read : UInt8 → Option UInt8} (sizes : ∀ digits ∈ alphabets, digits.length = base)
    (sound : ∀ code < 256, ∀ value ∈ read (.ofNat code), IsDigit alphabets (.ofNat code) value)
    (complete : ∀ value < base, ∀ digits ∈ alphabets, ∀ byte ∈ digits[value]?,
      read byte = some (.ofNat value)) (byte value : UInt8) :
    read byte = some value ↔ IsDigit alphabets byte value := by
  constructor
  · have all : ∀ byte, ∀ value ∈ read byte, IsDigit alphabets byte value := forall_byte sound
    exact all byte value
  · intro digit
    have small := digit.lt sizes
    obtain ⟨digits, member, here⟩ := digit
    rw [complete value.toNat small digits member byte here, UInt8.ofNat_toNat]

theorem hexDigits_length : ∀ digits ∈ hexDigits, digits.length = 16 := by
  decide

theorem hexValue_eq_some_iff (byte value : UInt8) :
    hexValue byte = some value ↔ HexDigit byte value :=
  eq_some_iff_isDigit hexDigits_length (by decide +kernel) (by decide +kernel) byte value

theorem escaped_eq {high low : UInt8} (highSmall : high.toNat < 16) (lowSmall : low.toNat < 16) :
    high <<< 4 ||| low = high * 16 + low := by
  have checked : ∀ high < 16, ∀ low < 16, UInt8.ofNat high <<< 4 ||| UInt8.ofNat low =
      UInt8.ofNat high * 16 + UInt8.ofNat low := by
    decide
  have here := checked high.toNat highSmall low.toNat lowSmall
  rwa [UInt8.ofNat_toNat, UInt8.ofNat_toNat] at here

theorem decodeBytes_escape {highDigit lowDigit high low : UInt8}
    (highHex : HexDigit highDigit high) (lowHex : HexDigit lowDigit low) (index : Nat)
    (rest : List UInt8) :
    decodeBytes index (37 :: highDigit :: lowDigit :: rest) =
      (decodeBytes (index + 3) rest).map ((high * 16 + low) :: ·) := by
  rw [decodeBytes, if_neg (by decide),
    ← escaped_eq (highHex.lt hexDigits_length) (lowHex.lt hexDigits_length)]
  simp only [(hexValue_eq_some_iff _ _).mpr highHex, (hexValue_eq_some_iff _ _).mpr lowHex]

theorem map_map_eq {ε α β γ : Type} (result : Except ε α) (first : α → β) (second : β → γ) :
    (result.map first).map second = result.map fun value => second (first value) := by
  cases result with
  | error error => rfl
  | ok value => rfl

theorem decodeBytes_append {before : List UInt8} (decodes : Decodes before decoded)
    (index : Nat) (after : List UInt8) :
    decodeBytes index (before ++ after) =
      (decodeBytes (index + before.length) after).map (decoded ++ ·) := by
  induction decodes generalizing index with
  | nil => exact (congrFun Except.map_id (decodeBytes index after)).symm
  | @plain byte rest decoded notEscape _ inductionHypothesis =>
    rw [List.cons_append, decodeBytes_cons index notEscape, inductionHypothesis, map_map_eq,
      List.length_cons, Nat.add_right_comm, Nat.add_assoc]
    rfl
  | @escape _ _ _ _ rest decoded highHex lowHex _ inductionHypothesis =>
    have moved : index + (rest.length + 1 + 1 + 1) = index + 3 + rest.length := by omega
    rw [List.cons_append, List.cons_append, List.cons_append, decodeBytes_escape highHex lowHex,
      inductionHypothesis, map_map_eq, List.length_cons, List.length_cons, List.length_cons, moved]
    rfl

theorem decodeBytes_of_decodes (decodes : Decodes bytes decoded)
    (index : Nat) : decodeBytes index bytes = .ok decoded := by
  have whole := decodeBytes_append decodes index []
  rwa [List.append_nil, decodeBytes, Except.map, List.append_nil] at whole

theorem decodeBytes_bad (index : Nat) {after : List UInt8} (bad : ∀ highDigit lowDigit rest,
      after = highDigit :: lowDigit :: rest →
      ∀ high low, HexDigit highDigit high → ¬HexDigit lowDigit low) :
    decodeBytes index (37 :: after) = .error (.invalidEscape index) := by
  rw [decodeBytes.eq_def]
  simp only [ne_eq, not_true, if_false]
  split
  · rename_i highDigit lowDigit rest
    split
    · rename_i high low highValue lowValue
      exact absurd ((hexValue_eq_some_iff _ _).mp lowValue)
        (bad _ _ _ rfl _ _ ((hexValue_eq_some_iff _ _).mp highValue))
    · rfl
  · rfl

/-- The loop decodes the bytes or stops at the first bad escape. -/
theorem decodeBytes_cases (index : Nat) (bytes : List UInt8) :
    (∃ decoded, decodeBytes index bytes = .ok decoded ∧ Decodes bytes decoded) ∨
      ∃ position, decodeBytes index bytes = .error (.invalidEscape (index + position)) ∧
        BadEscape bytes position := by
  induction index, bytes using decodeBytes.induct with
  | case1 index => exact .inl ⟨[], rfl, .nil⟩
  | case2 index byte rest notEscape inductionHypothesis =>
    rw [decodeBytes_cons index notEscape]
    rcases inductionHypothesis with ⟨decoded, ended, decodes⟩ |
      ⟨_, ended, before, after, decoded, rfl, rfl, decodes, bad⟩
    · exact .inl ⟨byte :: decoded, by rw [ended]; rfl, .plain notEscape decodes⟩
    · refine .inr ⟨before.length + 1, ?_, byte :: before, after, _, rfl, rfl,
        .plain notEscape decodes, bad⟩
      rw [ended, Nat.add_right_comm, Nat.add_assoc]
      rfl
  | case3 index byte escape highDigit lowDigit rest high low lowValue highValue
      inductionHypothesis =>
    obtain rfl : byte = 37 := not_not.mp escape
    have highHex := (hexValue_eq_some_iff _ _).mp highValue
    have lowHex := (hexValue_eq_some_iff _ _).mp lowValue
    rw [decodeBytes_escape highHex lowHex]
    rcases inductionHypothesis with ⟨decoded, ended, decodes⟩ |
      ⟨_, ended, before, after, decoded, rfl, rfl, decodes, bad⟩
    · exact .inl ⟨_, by rw [ended]; rfl, .escape highHex lowHex decodes⟩
    · refine .inr ⟨before.length + 3, ?_, 37 :: highDigit :: lowDigit :: before, after, _, rfl,
        rfl, .escape highHex lowHex decodes, bad⟩
      rw [ended, Nat.add_right_comm, Nat.add_assoc]
      rfl
  | case4 index byte escape highDigit lowDigit rest invalid =>
    obtain rfl : byte = 37 := not_not.mp escape
    have bad : ∀ first second others, highDigit :: lowDigit :: rest = first :: second :: others →
        ∀ high low, HexDigit first high → ¬HexDigit second low := by
      rintro _ _ _ ⟨⟩ high low highHex lowHex
      exact invalid high low ((hexValue_eq_some_iff _ _).mpr highHex)
        ((hexValue_eq_some_iff _ _).mpr lowHex)
    exact .inr ⟨0, decodeBytes_bad index bad, [], _, [], rfl, rfl, .nil, bad⟩
  | case5 index byte rest escape short =>
    obtain rfl : byte = 37 := not_not.mp escape
    have bad : ∀ first second others, rest = first :: second :: others →
        ∀ high low, HexDigit first high → ¬HexDigit second low :=
      fun first second others rest_eq => (short first second others rest_eq).elim
    exact .inr ⟨0, decodeBytes_bad index bad, [], rest, [], rfl, rfl, .nil, bad⟩

theorem decodes_iff (bytes decoded : List UInt8) :
    Decodes bytes decoded ↔ decodeBytes 0 bytes = .ok decoded := by
  refine ⟨fun decodes => decodeBytes_of_decodes decodes 0, fun ended => ?_⟩
  rcases decodeBytes_cases 0 bytes with ⟨found, found_eq, decodes⟩ | ⟨_, failed, -⟩
  · rw [ended] at found_eq
    cases found_eq
    exact decodes
  · rw [ended] at failed
    cases failed

theorem badEscape_iff (bytes : List UInt8) (index : Nat) :
    BadEscape bytes index ↔ decodeBytes 0 bytes = .error (.invalidEscape index) := by
  constructor
  · rintro ⟨before, after, decoded, rfl, rfl, decodes, bad⟩
    rw [decodeBytes_append decodes, Nat.zero_add, decodeBytes_bad _ bad]
    rfl
  · intro ended
    rcases decodeBytes_cases 0 bytes with ⟨_, found, -⟩ | ⟨position, failed, bad⟩
    · rw [ended] at found
      cases found
    · rw [ended, Nat.zero_add] at failed
      cases failed
      exact bad

theorem fromUtf8_eq_some_iff (bytes : List UInt8) (text : Text) :
    fromUtf8 bytes = some text ↔ bytes = utf8 text := by
  refine ⟨fun decoded => (utf8_of_fromUtf8 decoded).symm, ?_⟩
  rintro rfl
  exact fromUtf8_utf8 text

theorem decodeComponent_eq (value : Text) :
    decodeComponent value =
      match decodeBytes 0 (utf8 value) with
      | .error error => .error error
      | .ok decoded => (fromUtf8 decoded).elim (.error .invalidUtf8) .ok := by
  unfold decodeComponent
  split
  · rename_i noEscape
    have plain : ∀ bytes : List UInt8, 37 ∉ bytes → Decodes bytes bytes := by
      intro bytes noEscape
      induction bytes with
      | nil => exact .nil
      | cons byte rest inductionHypothesis =>
        rw [List.mem_cons, not_or] at noEscape
        exact .plain (Ne.symm noEscape.1) (inductionHypothesis noEscape.2)
    rw [decodeBytes_of_decodes (plain _ noEscape)]
    simp only [fromUtf8_utf8, Option.elim]
  · cases decodeBytes 0 (utf8 value) with
    | error error => rfl
    | ok decoded =>
      simp only
      cases fromUtf8 decoded with
      | none => rfl
      | some text => rfl

/-- Decoding gives back what was encoded, encoded texts are unreserved characters
and escapes, and decoding takes every escape as a byte: it fails exactly at a bad
escape or when the bytes are not UTF-8. -/
theorem percentCoding_faithful (value text : Text) :
    decodeComponent (encodeComponent value) = .ok value ∧
    EncodedForm (encodeComponent value) ∧
    (∀ char ∈ encodeComponent value,
      char ≠ '/' ∧ char ≠ '"' ∧ char ≠ '\'' ∧ char.isWhitespace = false) ∧
    (∀ decoded, decodeComponent text = .ok decoded ↔ Decodes (utf8 text) (utf8 decoded)) ∧
    (∀ index, decodeComponent text = .error (.invalidEscape index) ↔ BadEscape (utf8 text) index) ∧
    (decodeComponent text = .error .invalidUtf8 ↔
      ∃ bytes, Decodes (utf8 text) bytes ∧ ∀ decoded, bytes ≠ utf8 decoded) := by
  refine ⟨decodeComponent_encodeComponent value, encodedForm_encodeComponent value, ?_, ?_⟩
  · intro char member
    exact @IsEncoded.of_checked char
      (fun char => char ≠ '/' ∧ char ≠ '"' ∧ char ≠ '\'' ∧ char.isWhitespace = false)
      (isEncoded_of_mem_encodeComponent member) (by decide) (by decide +kernel)
  · rw [decodeComponent_eq]
    simp only [decodes_iff, badEscape_iff, ne_eq, ← fromUtf8_eq_some_iff]
    rcases decodeBytes_cases 0 (utf8 text) with ⟨bytes, ended, -⟩ | ⟨position, ended, -⟩
    · simp only [ended, Except.ok.injEq, ← fromUtf8_eq_some_iff]
      cases from_eq : fromUtf8 bytes with
      | none => simp [from_eq]
      | some found => simp [from_eq]
    · simp [ended]

end PercentEncoding
end VideoProxy
