import VideoProxy.Lib.Bencode

/-!
# The grammar of bencoded texts

The texts that the format prescribes, stated by how they are spelled: numbers
and lengths have no sign but the minus of a negative number and no leading zero,
and the keys of a dictionary strictly increase.  They are the texts of the values
that are written in the format.
-/

namespace VideoProxy
namespace BValue

/-- A byte string is spelled with the plain numeral of its length. -/
def StrictString (content text : List UInt8) : Prop :=
  ∃ numeral, Text.PlainNumeral numeral content.length ∧ text = Text.ascii numeral ++ 58 :: content

/-- The prescribed texts. -/
inductive Strict : List UInt8 → Prop
  | natural
      {numeral : Text}
      {value : Nat}
      (plain : Text.PlainNumeral numeral value)
      (small : value < 2 ^ 63) :
      Strict (105 :: (Text.ascii numeral ++ [101]))
  | negative
      {numeral : Text}
      {value : Nat}
      (plain : Text.PlainNumeral numeral value)
      (nonzero : value ≠ 0)
      (small : value ≤ 2 ^ 63) :
      Strict (105 :: 45 :: (Text.ascii numeral ++ [101]))
  | string
      {content text : List UInt8}
      (spelled : StrictString content text) :
      Strict text
  | list
      {items : List (List UInt8)}
      (each : ∀ item ∈ items, Strict item) :
      Strict (108 :: (items.flatten ++ [101]))
  | dict
      {entries : List (List UInt8 × List UInt8 × List UInt8)}
      (ordered : Ordered entries)
      (keys : ∀ entry ∈ entries, StrictString entry.1 entry.2.1)
      (values : ∀ entry ∈ entries, Strict entry.2.2) :
      Strict (100 :: (entries.flatMap (fun entry => entry.2.1 ++ entry.2.2) ++ [101]))

theorem strictString_iff {content text : List UInt8} :
    StrictString content text ↔ text = encodeBytes content := by
  constructor
  · rintro ⟨numeral, plain, rfl⟩
    rw [plain.eq_decimal]
    rfl
  · rintro rfl
    exact ⟨_, Text.plainNumeral_decimal _, rfl⟩

theorem allWellFormed_iff {values : List BValue} :
    AllWellFormed values ↔ ∀ value ∈ values, WellFormed value := by
  induction values with
  | nil => simp [AllWellFormed]
  | cons value values inductionHypothesis =>
    rw [AllWellFormed, inductionHypothesis, List.forall_mem_cons]

theorem entriesWellFormed_iff {entries : List (List UInt8 × BValue)} :
    EntriesWellFormed entries ↔ ∀ entry ∈ entries, WellFormed entry.2 := by
  induction entries with
  | nil => simp [EntriesWellFormed]
  | cons entry entries inductionHypothesis =>
    rw [EntriesWellFormed, inductionHypothesis, List.forall_mem_cons]

/-! ## Prescribed texts are those of values -/

theorem exists_values {items : List (List UInt8)}
    (each : ∀ item ∈ items, ∃ value, WellFormed value ∧ encode value = item) :
    ∃ values, AllWellFormed values ∧ encodeValues values = items.flatten := by
  induction items with
  | nil => exact ⟨[], trivial, rfl⟩
  | cons item items inductionHypothesis =>
    obtain ⟨value, wellFormed, written⟩ := each item List.mem_cons_self
    obtain ⟨values, others, rest⟩ := inductionHypothesis
      fun other member => each other (List.mem_cons_of_mem _ member)
    refine ⟨value :: values, ⟨wellFormed, others⟩, ?_⟩
    rw [encodeValues, written, rest, List.flatten_cons]

theorem exists_entries {entries : List (List UInt8 × List UInt8 × List UInt8)}
    (keys : ∀ entry ∈ entries, StrictString entry.1 entry.2.1)
    (each : ∀ entry ∈ entries, ∃ value, WellFormed value ∧ encode value = entry.2.2) :
    ∃ written : List (List UInt8 × BValue),
      written.map Prod.fst = entries.map Prod.fst ∧ EntriesWellFormed written ∧
      encodeEntries written = entries.flatMap fun entry => entry.2.1 ++ entry.2.2 := by
  induction entries with
  | nil => exact ⟨[], rfl, trivial, rfl⟩
  | cons entry entries inductionHypothesis =>
    obtain ⟨value, wellFormed, value_eq⟩ := each entry List.mem_cons_self
    obtain ⟨written, sameKeys, others, rest⟩ := inductionHypothesis
      (fun other member => keys other (List.mem_cons_of_mem _ member))
      fun other member => each other (List.mem_cons_of_mem _ member)
    have key_eq := strictString_iff.mp (keys entry List.mem_cons_self)
    refine ⟨(entry.1, value) :: written, ?_, ⟨wellFormed, others⟩, ?_⟩
    · rw [List.map_cons, List.map_cons, sameKeys]
    · rw [encodeEntries, ← key_eq, value_eq, rest, List.flatMap_cons]

theorem ordered_iff_map {entries : List (List UInt8 × α)} :
    Ordered entries ↔ (entries.map Prod.fst).Pairwise (· < ·) := by
  rw [Ordered, List.pairwise_map]

theorem exists_value_of_strict {text : List UInt8} (strict : Strict text) :
    ∃ value, WellFormed value ∧ encode value = text := by
  induction strict with
  | natural plain small =>
    rename_i numeral value
    refine ⟨.integer value, ⟨by omega, by omega⟩, ?_⟩
    rw [plain.eq_decimal]
    rfl
  | negative plain nonzero small =>
    rename_i numeral value
    obtain ⟨before, rfl⟩ := Nat.exists_eq_succ_of_ne_zero nonzero
    refine ⟨.integer (.negSucc before), ⟨?_, ?_⟩, ?_⟩
    · rw [Int.negSucc_eq]
      omega
    · rw [Int.negSucc_eq]
      omega
    · rw [plain.eq_decimal]
      rfl
  | string spelled => exact ⟨.bytes _, trivial, (strictString_iff.mp spelled).symm⟩
  | list each inductionHypothesis =>
    obtain ⟨values, wellFormed, written⟩ := exists_values inductionHypothesis
    exact ⟨.list values, wellFormed, by rw [encode, written]⟩
  | dict ordered keys values inductionHypothesis =>
    obtain ⟨entries, sameKeys, wellFormed, written⟩ :=
      exists_entries keys inductionHypothesis
    refine ⟨.dict entries, ⟨?_, wellFormed⟩, by rw [encode, written]⟩
    rw [ordered_iff_map, sameKeys, ← ordered_iff_map]
    exact ordered

/-! ## Values are written as prescribed -/

theorem strict_integer {value : Int} (lower : -2 ^ 63 ≤ value) (upper : value < 2 ^ 63) :
    Strict (encode (.integer value)) := by
  cases value with
  | ofNat value =>
    refine Strict.natural (Text.plainNumeral_decimal value) ?_
    simp only [Int.ofNat_eq_natCast] at upper
    omega
  | negSucc before =>
    refine Strict.negative (Text.plainNumeral_decimal (before + 1)) (Nat.succ_ne_zero before) ?_
    rw [Int.negSucc_eq] at lower
    omega

theorem strict_encode {levels : Nat} {value : BValue} (wellFormed : value.WellFormed)
    (shallow : value.containers < levels) :
    Strict value.encode := by
  induction levels generalizing value with
  | zero => cases shallow
  | succ levels inductionHypothesis =>
    cases value with
    | integer number => exact strict_integer wellFormed.1 wellFormed.2
    | bytes content => exact .string (strictString_iff.mpr rfl)
    | list values =>
      rw [containers] at shallow
      rw [encode, encodeValues_eq, List.flatMap_def]
      refine Strict.list fun item member => ?_
      obtain ⟨value, inside, rfl⟩ := List.mem_map.mp member
      obtain ⟨valid, around, _⟩ := of_mem_list inside wellFormed
      exact inductionHypothesis valid (by omega)
    | dict entries =>
      obtain ⟨ordered, each⟩ := wellFormed
      rw [containers] at shallow
      have spelled := @Strict.dict
        (entries.map fun entry => (entry.1, encodeBytes entry.1, encode entry.2))
      rw [List.flatMap_map] at spelled
      rw [encode, encodeEntries_eq]
      refine spelled ?_ ?_ ?_
      · rw [ordered_iff_map, List.map_map]
        exact ordered_iff_map.mp ordered
      · intro spelling member
        obtain ⟨entry, inside, rfl⟩ := List.mem_map.mp member
        exact strictString_iff.mpr rfl
      · intro spelling member
        obtain ⟨entry, inside, rfl⟩ := List.mem_map.mp member
        obtain ⟨valid, around, _⟩ := of_mem_dict inside each
        exact inductionHypothesis valid (by omega)

theorem strict_iff {text : List UInt8} :
    Strict text ↔ ∃ value, WellFormed value ∧ encode value = text := by
  refine ⟨exists_value_of_strict, ?_⟩
  rintro ⟨value, wellFormed, rfl⟩
  exact strict_encode wellFormed (Nat.lt_succ_self _)

end BValue
end VideoProxy
