import VideoProxy.Lib.BencodeGrammar
import VideoProxy.P2pNetwork.BencodeCursor

/-!
# Spellings that the parser accepts

What the parser returns is a value of the format, but it takes more texts than
the format prescribes: signs and leading zeros of numbers, and keys in any order.
The bytes it has read are the text of the value exactly if the input begins with a
prescribed text.
-/

namespace VideoProxy
namespace P2pNetwork

open Faulty

namespace BencodeParser

/-! ## Parsed values are in the format -/

variable {after parser : BencodeParser} {item other : Faulty BencodeParser ProxyError α}
  {result : BValue} {levels : Nat}

theorem items_each {fuel : Nat} {values : List α}
    (ended : items item fuel parser = (.ok values, after)) {value : α} (member : value ∈ values) :
    ∃ before behind, item before = (.ok value, behind) := by
  induction fuel generalizing parser values with
  | zero => cases ended
  | succ fuel inductionHypothesis =>
    rw [items_succ] at ended
    split at ended
    · cases ended
      cases member
    · obtain ⟨first, between, first_eq, ended⟩ := exists_of_bind_eq_ok ended
      obtain ⟨others, last, later, ended⟩ := exists_of_bind_eq_ok ended
      cases ended
      rcases List.mem_cons.mp member with rfl | inside
      · exact ⟨parser, between, first_eq⟩
      · exact inductionHypothesis later inside

theorem parseI64_range {text : Text} {number : Int} (parsed : Text.parseI64 text = some number) :
    -2 ^ 63 ≤ number ∧ number < 2 ^ 63 := by
  unfold Text.parseI64 at parsed
  split at parsed
  · simp only at parsed
    split at parsed
    · rename_i bounds
      cases parsed
      exact ⟨by omega, by omega⟩
    · cases parsed
  · simp only at parsed
    split at parsed
    · rename_i bounds
      cases parsed
      exact ⟨by omega, by omega⟩
    · cases parsed

theorem digits_wellFormed (ended : digits parser = (.ok result, after)) : result.WellFormed := by
  unfold digits at ended
  split at ended
  · cases ended
  · split at ended
    · cases ended
    · rename_i number parsed
      cases ended
      exact parseI64_range parsed

theorem list_wellFormed {parse : Faulty BencodeParser ProxyError BValue}
    (each : ∀ parser result after, parse parser = (.ok result, after) → result.WellFormed)
        (ended : list parse parser = (.ok result, after)) :
    result.WellFormed := by
  obtain ⟨_, skipped, _, ended⟩ := exists_of_bind_eq_ok ended
  obtain ⟨values, last, all, ended⟩ := exists_of_bind_eq_ok ended
  cases ended
  refine BValue.allWellFormed_iff.mpr fun value member => ?_
  obtain ⟨before, behind, parsed⟩ := items_each all member
  exact each _ _ _ parsed

theorem dict_wellFormed {parse : Faulty BencodeParser ProxyError BValue}
    (each : ∀ parser result after, parse parser = (.ok result, after) → result.WellFormed)
        (ended : dict parse parser = (.ok result, after)) :
    result.WellFormed := by
  obtain ⟨_, skipped, _, ended⟩ := exists_of_bind_eq_ok ended
  obtain ⟨entries, last, all, ended⟩ := exists_of_bind_eq_ok ended
  cases ended
  refine ⟨ordered_foldl_insertEntry List.Pairwise.nil,
    BValue.entriesWellFormed_iff.mpr fun written member => ?_⟩
  have listed : written ∈ entries :=
    (mem_of_mem_foldl_insertEntry member).resolve_left (List.not_mem_nil)
  obtain ⟨before, behind, read⟩ := items_each all listed
  obtain ⟨key, between, _, read⟩ := exists_of_bind_eq_ok read
  obtain ⟨value, final, parsed, read⟩ := exists_of_bind_eq_ok read
  cases read
  exact each _ _ _ parsed

/-- Numbers are in range and dictionaries in order. -/
theorem value_wellFormed (ended : value levels parser = (.ok result, after)) :
    result.WellFormed := by
  induction levels generalizing parser result after with
  | zero => cases ended
  | succ levels inductionHypothesis =>
    have each : ∀ parser result after, value levels parser = (.ok result, after) →
        result.WellFormed := fun _ _ _ => inductionHypothesis
    unfold value at ended
    split at ended
    · cases ended
    · split at ended
      · obtain ⟨_, skipped, _, ended⟩ := exists_of_bind_eq_ok ended
        exact digits_wellFormed ended
      · split at ended
        · exact list_wellFormed each ended
        · split at ended
          · exact dict_wellFormed each ended
          · split at ended
            · obtain ⟨content, last, _, ended⟩ := exists_of_bind_eq_ok ended
              cases ended
              trivial
            · cases ended

/-! ## More levels change nothing -/

/-- Where one parser succeeds the other one does the same. -/
def Extends (parse other : Faulty BencodeParser ProxyError α) : Prop :=
  ∀ parser value after, parse parser = (.ok value, after) → other parser = (.ok value, after)

theorem extends_refl (parse : Faulty BencodeParser ProxyError α) : Extends parse parse :=
  fun _ _ _ ended => ended

theorem Extends.bind {parse : Faulty BencodeParser ProxyError α}
    {next otherNext : α → Faulty BencodeParser ProxyError β} (first : Extends parse other)
    (later : ∀ value, Extends (next value) (otherNext value)) :
    Extends (parse >>= next) (other >>= otherNext) := by
  intro parser value after ended
  obtain ⟨middle, between, first_eq, ended⟩ := exists_of_bind_eq_ok ended
  rw [bind_of_ok (first _ _ _ first_eq)]
  exact later _ _ _ _ ended

theorem Extends.items (each : Extends item other) (fuel : Nat) :
    Extends (items item fuel) (items other fuel) := by
  induction fuel with
  | zero =>
    intro parser value after ended
    cases ended
  | succ fuel inductionHypothesis =>
    intro parser value after ended
    rw [items_succ] at ended ⊢
    split at ended
    · rename_i closes
      rw [if_pos closes]
      exact ended
    · rename_i continues
      rw [if_neg continues]
      exact each.bind (fun first => inductionHypothesis.bind fun _ => extends_refl _)
        _ _ _ ended

theorem Extends.allItems (each : Extends item other) : Extends (allItems item) (allItems other) :=
  fun parser => each.items (parser.rest.length + 1) parser

theorem value_extends_succ (levels : Nat) : Extends (value levels) (value (levels + 1)) := by
  induction levels with
  | zero =>
    intro parser result after ended
    cases ended
  | succ levels inductionHypothesis =>
    intro parser result after ended
    cases starts : parser.rest.head? with
    | none =>
      unfold value at ended
      rw [starts] at ended
      cases ended
    | some byte =>
      rw [value_of_head starts] at ended ⊢
      split at ended
      · rename_i isInteger
        rw [if_pos isInteger]
        exact ended
      · rename_i notInteger
        rw [if_neg notInteger]
        split at ended
        · rename_i isList
          rw [if_pos isList]
          exact (extends_refl skip).bind (fun _ => inductionHypothesis.allItems.bind
            fun _ => extends_refl _) _ _ _ ended
        · rename_i notList
          rw [if_neg notList]
          split at ended
          · rename_i isDict
            rw [if_pos isDict]
            have entries : Extends (entry (value levels)) (entry (value (levels + 1))) :=
              (extends_refl bytes).bind fun _ => inductionHypothesis.bind fun _ => extends_refl _
            exact (extends_refl skip).bind (fun _ => entries.allItems.bind
              fun _ => extends_refl _) _ _ _ ended
          · rename_i notDict
            rw [if_neg notDict]
            exact ended

theorem value_extends {more : Nat} (le : levels ≤ more) : Extends (value levels) (value more) := by
  induction le with
  | refl => exact extends_refl _
  | step _ inductionHypothesis =>
    exact fun parser result after ended =>
      value_extends_succ _ _ _ _ (inductionHypothesis _ _ _ ended)

theorem eq_of_encode {written : BValue} {rest : List UInt8} (wellFormed : written.WellFormed)
    (short : written.encode.length ≤ u64Max)
    (ended : value levels (new (written.encode ++ rest)) = (.ok result, after)) :
    result = written ∧ after.offset = written.encode.length := by
  -- The value may be nested deeper than the levels allow.
  let more := max levels (written.containers + 1)
  have fits : written.Fits more :=
    BValue.fits_of_wellFormed wellFormed (Nat.le_max_right _ _) short
  have reads := reads_value fits 0 rest (by omega)
  have same := value_extends (Nat.le_max_left levels (written.containers + 1)) _ _ _ ended
  have equal := reads.symm.trans same
  injection equal with value_eq after_eq
  injection value_eq with value_eq
  refine ⟨value_eq.symm, ?_⟩
  rw [← after_eq, Nat.zero_add]

end BencodeParser

namespace BencodeCursor

theorem value_start {input : ByteSlice} {fuel : Nat} {result : BValue} {after : BencodeCursor}
    (enough : input.bytes.length + BencodeParser.maxDepth < fuel)
    (parsed : value fuel ⟨input, 0, 0⟩ = (.ok result, after)) :
    BencodeParser.value BencodeParser.maxDepth (.new input.bytes) = (.ok result, after.view) := by
  have agree : Agree ⟨input, 0, 0⟩ (value fuel ⟨input, 0, 0⟩)
      (BencodeParser.value BencodeParser.maxDepth (view ⟨input, 0, 0⟩)) :=
    value_follows rfl enough ⟨input, 0, 0⟩ (Nat.zero_le _) rfl (Nat.le_refl _)
  rw [parsed] at agree
  change Agree _ _ (BencodeParser.value BencodeParser.maxDepth (.new input.bytes)) at agree
  generalize BencodeParser.value BencodeParser.maxDepth (.new input.bytes) = seen at agree
  cases agree with
  | ok leads => rfl

/-- The bytes that were read are the text of the value exactly if the input begins
with a prescribed text. -/
theorem parsed_canonical_iff {input : ByteSlice} {fuel : Nat} {result : BValue}
    {after : BencodeCursor} (enough : input.bytes.length + BencodeParser.maxDepth < fuel)
    (parsed : value fuel ⟨input, 0, 0⟩ = (.ok result, after)) :
    result.encode = input.bytes.take after.offset ↔
      ∃ text, BValue.Strict text ∧ text <+: input.bytes := by
  have ended := value_start enough parsed
  constructor
  · intro canonical
    refine ⟨result.encode,
      BValue.strict_iff.mpr ⟨result, BencodeParser.value_wellFormed ended, rfl⟩, ?_⟩
    rw [canonical]
    exact List.take_prefix _ _
  · rintro ⟨text, strict, rest, input_eq⟩
    obtain ⟨written, wellFormed, rfl⟩ := BValue.strict_iff.mp strict
    have short : written.encode.length ≤ u64Max := by
      have bounded := input.bounded
      rw [← input_eq, List.length_append] at bounded
      unfold isizeMax at bounded
      unfold u64Max
      omega
    rw [← input_eq] at ended ⊢
    obtain ⟨rfl, offset_eq⟩ := BencodeParser.eq_of_encode wellFormed short ended
    change after.offset = _ at offset_eq
    rw [offset_eq, List.take_left]

/-- The text `i5e`, and a byte behind it. -/
theorem parsed_canonical_iff_five :
    ∃ after : BencodeCursor,
      value 64 ⟨⟨[105, 53, 101, 0], by decide⟩, 0, 0⟩ = (.ok (.integer 5), after) ∧
      ((BValue.integer 5).encode = [105, 53, 101, 0].take after.offset ↔
        ∃ text, BValue.Strict text ∧ text <+: [105, 53, 101, 0]) :=
  ⟨_, rfl, @parsed_canonical_iff ⟨[105, 53, 101, 0], by decide⟩ 64 _ _ (by decide) rfl⟩

/-- The text `i+5e` is read as the number that `i5e` spells. -/
theorem signed_integer_read :
    ∃ after : BencodeCursor,
      value 64 ⟨⟨[105, 43, 53, 101], by decide⟩, 0, 0⟩ = (.ok (.integer 5), after) ∧
      (BValue.integer 5).encode ≠ [105, 43, 53, 101].take after.offset :=
  ⟨_, rfl, by decide +kernel⟩

end BencodeCursor
end P2pNetwork
end VideoProxy
