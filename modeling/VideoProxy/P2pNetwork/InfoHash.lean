import Mathlib.Data.List.Forall2
import VideoProxy.Lib.BitList
import VideoProxy.Lib.Faulty
import VideoProxy.Utils.Error
import VideoProxy.Utils.PercentEncoding

/-!
# Info hashes of magnet links

A magnet link names a torrent by the twenty bytes of a hash, written with 40
hexadecimal digits or with 32 symbols of five bits.  The parser regroups the symbols
through a bit buffer: what it has put out, followed by the bits in the buffer, are
the bits of the symbols that it has read.
-/

namespace VideoProxy
namespace P2pNetwork

open PercentEncoding

/-- `<[u8; 20]>::try_from`. -/
def hashFrom (bytes : List UInt8) : Option (Vector UInt8 20) :=
  if size : bytes.length = 20 then some ⟨bytes.toArray, size⟩ else none

/-- `u8::is_ascii_hexdigit`. -/
def isHexdigit (byte : UInt8) : Bool :=
  (48 ≤ byte && byte ≤ 57) || (65 ≤ byte && byte ≤ 70) || (97 ≤ byte && byte ≤ 102)

/-- `hex_nibble`; there is none where it panics. -/
def hexNibble : UInt8 → Option UInt8 :=
  hexValue

/-- The bytes of the chunks of two digits. -/
def hexBytes : List UInt8 → Option (List UInt8)
  | high :: low :: rest =>
    match hexNibble high, hexNibble low, hexBytes rest with
    | some high, some low, some bytes => some ((high <<< 4 ||| low) :: bytes)
    | _, _, _ => none
  | _ => some []

/-- The variables of the loop of `base32_decode`. -/
structure Base32Buffer where
  output : List UInt8
  buffer : Nat
  bits : Nat

namespace Base32Buffer

/-- The inner loop: whole bytes leave the buffer. -/
def drain (state : Base32Buffer) : Base32Buffer :=
  if 8 ≤ state.bits then
    drain {
      output := state.output ++ [UInt8.ofNat (state.buffer >>> (state.bits - 8))]
      buffer := state.buffer &&& ((1 <<< (state.bits - 8)) - 1)
      bits := state.bits - 8 }
  else state
termination_by state.bits

/-- One symbol; the buffer has 32 bits. -/
def push (state : Base32Buffer) (value : UInt8) : Base32Buffer :=
  drain { state with
    buffer := (state.buffer <<< 5) % 2 ^ 32 ||| value.toNat
    bits := state.bits + 5 }

end Base32Buffer

/-- `u8::to_ascii_uppercase`. -/
def toAsciiUppercase (byte : UInt8) : UInt8 :=
  if 97 ≤ byte ∧ byte ≤ 122 then byte - 32 else byte

/-- The value of a symbol. -/
def base32Value (byte : UInt8) : Option UInt8 :=
  if 65 ≤ toAsciiUppercase byte ∧ toAsciiUppercase byte ≤ 90 then
    some (toAsciiUppercase byte - 65)
  else if 50 ≤ toAsciiUppercase byte ∧ toAsciiUppercase byte ≤ 55 then some (byte - 50 + 26)
  else none

/-- The loop of `base32_decode`. -/
def base32Loop : List UInt8 → Base32Buffer → Except ProxyError Base32Buffer
  | [], state => .ok state
  | byte :: rest, state =>
    match base32Value byte with
    | none => .error (.parse "invalid base32 btih")
    | some value => base32Loop rest (state.push value)

/-- `base32_decode`. -/
def base32Decode (input : Text) : Except ProxyError (List UInt8) :=
  match base32Loop (utf8 input) ⟨[], 0, 0⟩ with
  | .error error => .error error
  | .ok state =>
    if 0 < state.bits ∧ state.buffer ≠ 0 then .error (.parse "non-zero base32 padding")
    else .ok state.output

/-- `parse_info_hash`. -/
def parseInfoHash (value : Text) : Exit ProxyError (Vector UInt8 20) :=
  if (utf8 value).length = 40 ∧ (utf8 value).all isHexdigit then
    match (hexBytes (utf8 value)).bind hashFrom with
    | some hash => .ok hash
    | none => .stopped
  else if (utf8 value).length = 32 then
    match base32Decode value with
    | .error error => .error error
    | .ok decoded =>
      match hashFrom decoded with
      | some hash => .ok hash
      | none => .error (.parse "invalid base32 btih")
  else .error (.parse "btih must be 40 hex or 32 base32 characters")

/-! ## The two forms of a hash -/

/-- The halves of bytes. -/
def nibbles (bytes : List UInt8) : List UInt8 :=
  bytes.flatMap fun byte => [byte / 16, byte % 16]

/-- The text has the two hexadecimal digits of each byte, in either case. -/
def HexForm (text bytes : List UInt8) : Prop :=
  List.Forall₂ HexDigit text (nibbles bytes)

/-- The symbols of the five-bit digits, in both cases. -/
def base32Digits : List (List UInt8) :=
  [utf8 "ABCDEFGHIJKLMNOPQRSTUVWXYZ234567".toList, utf8 "abcdefghijklmnopqrstuvwxyz234567".toList]

/-- The symbols of the text stand for the bits of the bytes, five at a time. -/
def Base32Form (text bytes : List UInt8) : Prop :=
  ∃ values, List.Forall₂ (IsDigit base32Digits) text values ∧
    (values.flatMap fun value => bitsOf 5 value.toNat) = bitsOfBytes bytes

theorem hashFrom_eq_some_iff {bytes : List UInt8} {hash : Vector UInt8 20} :
    hashFrom bytes = some hash ↔ hash.toList = bytes := by
  unfold hashFrom
  constructor
  · intro found
    split at found
    · cases found
      rfl
    · cases found
  · rintro rfl
    rw [dif_pos hash.length_toList]
    rfl

/-! ## Hexadecimal digits -/

theorem hexNibble_eq_some_iff (byte value : UInt8) :
    hexNibble byte = some value ↔ HexDigit byte value :=
  hexValue_eq_some_iff byte value

theorem isHexdigit_iff (byte : UInt8) : isHexdigit byte = true ↔ ∃ value, HexDigit byte value := by
  have same : ∀ byte, isHexdigit byte = (hexValue byte).isSome := forall_byte (by decide +kernel)
  rw [same, Option.isSome_iff_exists]
  simp only [hexValue_eq_some_iff]

variable {text values : List UInt8}

theorem all_isHexdigit
    (digits : List.Forall₂ HexDigit text values) : text.all isHexdigit = true := by
  induction digits with
  | nil => rfl
  | cons digit _ inductionHypothesis =>
    rw [List.all_cons, (isHexdigit_iff _).mpr ⟨_, digit⟩, inductionHypothesis]
    rfl

theorem nibbles_eq : ∀ byte : UInt8, (byte / 16) <<< 4 ||| byte % 16 = byte :=
  forall_byte (by decide +kernel)

theorem HexForm.hexBytes_eq {bytes : List UInt8} (form : HexForm text bytes) :
    hexBytes text = some bytes := by
  induction bytes generalizing text with
  | nil =>
    cases form
    rfl
  | cons byte bytes inductionHypothesis =>
    rcases form with _ | ⟨highHex, _ | ⟨lowHex, later⟩⟩
    rw [hexBytes, (hexNibble_eq_some_iff _ _).mpr highHex, (hexNibble_eq_some_iff _ _).mpr lowHex,
      inductionHypothesis later]
    simp only [nibbles_eq byte]

theorem halves_eq {high low : UInt8} (highSmall : high.toNat < 16) (lowSmall : low.toNat < 16) :
    (high * 16 + low) / 16 = high ∧ (high * 16 + low) % 16 = low := by
  have checked : ∀ high < 16, ∀ low < 16,
      (UInt8.ofNat high * 16 + UInt8.ofNat low) / 16 = UInt8.ofNat high ∧
        (UInt8.ofNat high * 16 + UInt8.ofNat low) % 16 = UInt8.ofNat low := by
    decide
  have here := checked high.toNat highSmall low.toNat lowSmall
  rwa [UInt8.ofNat_toNat, UInt8.ofNat_toNat] at here

theorem exists_hexForm (count : Nat) (length_eq : text.length = 2 * count)
    (digits : ∀ byte ∈ text, isHexdigit byte = true) :
    ∃ bytes, bytes.length = count ∧ HexForm text bytes := by
  induction count generalizing text with
  | zero =>
    obtain rfl := List.length_eq_zero_iff.mp length_eq
    exact ⟨[], rfl, .nil⟩
  | succ count inductionHypothesis =>
    rcases text with _ | ⟨highDigit, _ | ⟨lowDigit, rest⟩⟩
    · cases length_eq
    · simp only [List.length_cons, List.length_nil] at length_eq
      omega
    · simp only [List.length_cons] at length_eq
      simp only [List.forall_mem_cons, isHexdigit_iff] at digits
      obtain ⟨⟨high, highHex⟩, ⟨low, lowHex⟩, others⟩ := digits
      obtain ⟨bytes, count_eq, form⟩ := inductionHypothesis (by omega)
        (fun byte member => (isHexdigit_iff byte).mpr (others byte member))
      obtain ⟨high_eq, low_eq⟩ :=
        halves_eq (highHex.lt hexDigits_length) (lowHex.lt hexDigits_length)
      refine ⟨(high * 16 + low) :: bytes, congrArg (· + 1) count_eq, ?_⟩
      refine .cons ?_ (.cons ?_ form)
      · rwa [high_eq]
      · rwa [low_eq]

/-! ## The bit buffer -/

namespace Base32Buffer

/-- The bits that have gone into the loop. -/
def Holds (state : Base32Buffer) (read : List Bool) : Prop :=
  bitsOfBytes state.output ++ bitsOf state.bits state.buffer = read

theorem drain_holds {state : Base32Buffer} {read : List Bool} (holds : state.Holds read) :
    state.drain.Holds read ∧ state.drain.bits < 8 := by
  induction state using drain.induct with
  | case1 state full inductionHypothesis =>
    rw [drain, if_pos full]
    apply inductionHypothesis
    have split := bitsOf_add 8 (state.bits - 8) state.buffer
    rw [Nat.add_sub_cancel' full] at split
    rw [Holds, split] at holds
    rw [Holds, ← holds]
    simp only [bitsOfBytes_concat, bitsOf_mask, List.append_assoc]
  | case2 state few =>
    rw [drain, if_neg few]
    exact ⟨holds, Nat.lt_of_not_le few⟩

theorem push_holds {state : Base32Buffer} {read : List Bool} {value : UInt8}
    (holds : state.Holds read) (few : state.bits < 8) (small : value.toNat < 32) :
    (state.push value).Holds (read ++ bitsOf 5 value.toNat) ∧ (state.push value).bits < 8 := by
  apply drain_holds
  rw [Holds] at holds ⊢
  rw [← holds, List.append_assoc, ← bitsOf_shiftLeft_or _ _ small]
  congr 1
  rw [bitsOf_eq_iff]
  intro index inside
  change index < state.bits + 5 at inside
  rw [Nat.testBit_or, Nat.testBit_or, Nat.testBit_mod_two_pow, decide_eq_true (by omega),
    Bool.true_and]

end Base32Buffer

theorem base32Digits_length : ∀ digits ∈ base32Digits, digits.length = 32 := by
  decide

theorem base32Value_eq_some_iff (byte value : UInt8) :
    base32Value byte = some value ↔ IsDigit base32Digits byte value :=
  eq_some_iff_isDigit base32Digits_length (by decide +kernel) (by decide +kernel) byte value

theorem base32Loop_of_digits
    (digits : List.Forall₂ (IsDigit base32Digits) text values) {state : Base32Buffer}
    {read : List Bool} (holds : state.Holds read) (few : state.bits < 8) :
    ∃ ended, base32Loop text state = .ok ended ∧
      ended.Holds (read ++ values.flatMap fun value => bitsOf 5 value.toNat) ∧
      ended.bits < 8 := by
  induction digits generalizing state read with
  | nil => exact ⟨state, rfl, by rwa [List.flatMap_nil, List.append_nil], few⟩
  | cons digit _ inductionHypothesis =>
    obtain ⟨next, nextFew⟩ := state.push_holds holds few (digit.lt base32Digits_length)
    obtain ⟨ended, ended_eq, endedHolds, endedFew⟩ := inductionHypothesis next nextFew
    rw [base32Loop, (base32Value_eq_some_iff _ _).mpr digit]
    rw [List.append_assoc] at endedHolds
    exact ⟨ended, ended_eq, endedHolds, endedFew⟩

theorem exists_digits_of_base32Loop {state ended : Base32Buffer}
    (ended_eq : base32Loop text state = .ok ended) :
    ∃ values, List.Forall₂ (IsDigit base32Digits) text values := by
  induction text generalizing state with
  | nil => exact ⟨[], .nil⟩
  | cons byte rest inductionHypothesis =>
    rw [base32Loop] at ended_eq
    split at ended_eq
    · cases ended_eq
    · rename_i value value_eq
      obtain ⟨values, digits⟩ := inductionHypothesis ended_eq
      exact ⟨value :: values, .cons ((base32Value_eq_some_iff _ _).mp value_eq) digits⟩

/-- Thirty-two symbols leave nothing in the buffer. -/
theorem base32Decode_of_digits {text : Text}
    (digits : List.Forall₂ (IsDigit base32Digits) (utf8 text) values)
    (length_eq : (utf8 text).length = 32) :
    ∃ decoded, base32Decode text = .ok decoded ∧ decoded.length = 20 ∧
      (values.flatMap fun value => bitsOf 5 value.toNat) = bitsOfBytes decoded := by
  obtain ⟨ended, ended_eq, holds, few⟩ :=
    base32Loop_of_digits digits (show Base32Buffer.Holds ⟨[], 0, 0⟩ [] from rfl) (by decide)
  have count := congrArg List.length holds
  rw [List.nil_append, length_flatMap_bitsOf, ← digits.length_eq, length_eq, List.length_append,
    length_bitsOf, bitsOfBytes, length_flatMap_bitsOf] at count
  have empty : ended.bits = 0 := by omega
  refine ⟨ended.output, ?_, by omega, ?_⟩
  · rw [base32Decode, ended_eq]
    simp only [empty, Nat.lt_irrefl, false_and, if_false]
  · rw [Base32Buffer.Holds, empty, bitsOf, List.append_nil, List.nil_append] at holds
    exact holds.symm

theorem exists_digits_of_base32Decode {text : Text} {decoded : List UInt8}
    (decoded_eq : base32Decode text = .ok decoded) :
    ∃ values, List.Forall₂ (IsDigit base32Digits) (utf8 text) values := by
  unfold base32Decode at decoded_eq
  split at decoded_eq
  · cases decoded_eq
  · rename_i ended ended_eq
    exact exists_digits_of_base32Loop ended_eq

theorem length_nibbles (bytes : List UInt8) : (nibbles bytes).length = 2 * bytes.length := by
  induction bytes with
  | nil => rfl
  | cons byte bytes inductionHypothesis =>
    change (nibbles bytes).length + 1 + 1 = _
    rw [inductionHypothesis, List.length_cons]
    omega

/-- The parser accepts exactly the two forms of the hash that it returns. -/
theorem parseInfoHash_eq_ok_iff (text : Text) (hash : Vector UInt8 20) :
    parseInfoHash text = .ok hash ↔
      HexForm (utf8 text) hash.toList ∨ Base32Form (utf8 text) hash.toList := by
  constructor
  · intro parsed
    unfold parseInfoHash at parsed
    split at parsed
    · rename_i hex
      obtain ⟨bytes, -, form⟩ := exists_hexForm 20 hex.1 (List.all_eq_true.mp hex.2)
      rw [form.hexBytes_eq, Option.bind_some] at parsed
      split at parsed
      · rename_i found found_eq
        cases parsed
        rw [hashFrom_eq_some_iff.mp found_eq]
        exact .inl form
      · cases parsed
    · split at parsed
      · rename_i short
        split at parsed
        · cases parsed
        · rename_i decoded decoded_eq
          obtain ⟨values, digits⟩ := exists_digits_of_base32Decode decoded_eq
          obtain ⟨bytes, bytes_eq, -, same⟩ := base32Decode_of_digits digits short
          rw [decoded_eq] at bytes_eq
          cases bytes_eq
          split at parsed
          · rename_i found found_eq
            cases parsed
            rw [hashFrom_eq_some_iff.mp found_eq]
            exact .inr ⟨values, digits, same⟩
          · cases parsed
      · cases parsed
  · rintro (form | ⟨values, digits, same⟩)
    · have forty : (utf8 text).length = 40 := by
        rw [form.length_eq, length_nibbles, hash.length_toList]
      rw [parseInfoHash, if_pos ⟨forty, all_isHexdigit form⟩, form.hexBytes_eq, Option.bind_some,
        hashFrom_eq_some_iff.mpr rfl]
    · have count := congrArg List.length same
      rw [bitsOfBytes, length_flatMap_bitsOf, length_flatMap_bitsOf, ← digits.length_eq,
        hash.length_toList] at count
      have short : (utf8 text).length = 32 := by omega
      obtain ⟨bytes, bytes_eq, -, bits_eq⟩ := base32Decode_of_digits digits short
      obtain rfl := bitsOfBytes_injective (same.symm.trans bits_eq)
      rw [parseInfoHash, if_neg (by omega), if_pos short, bytes_eq]
      simp only [hashFrom_eq_some_iff.mpr rfl]

end P2pNetwork
end VideoProxy
