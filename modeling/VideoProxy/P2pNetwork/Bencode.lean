import VideoProxy.Lib.Bencode
import VideoProxy.Lib.Faulty
import VideoProxy.Lib.Search
import VideoProxy.Utils.Error

/-!
# The parser of bencoded values

The parser reads trackers' answers, torrent files and the messages of other
peers.  It reads back every value that is written in the format, unless the value
is nested too deep.
-/

namespace VideoProxy
namespace P2pNetwork

open Faulty

/-- `BencodeParser`: the offset in the input, and the input from there on. -/
structure BencodeParser where
  offset : Nat
  rest : List UInt8
  deriving DecidableEq

namespace BencodeParser

/-- The parser at the start of an input. -/
def new (input : List UInt8) : BencodeParser :=
  { offset := 0, rest := input }

/-- Skip one byte. -/
def skip : Faulty BencodeParser ProxyError Unit :=
  update fun parser =>
    { offset := parser.offset + 1, rest := parser.rest.drop 1 }

/-- The digits of an integer and its end mark. -/
def digits : Faulty BencodeParser ProxyError BValue :=
  fun parser =>
    match splitFirst [101] parser.rest with
    | none => fail (.parse "unterminated bencode integer") parser
    | some (digits, rest) =>
      match Text.parseI64 (Text.fromAscii digits) with
      | none => fail (.parse "invalid bencode integer") parser
      | some value =>
        (.ok (.integer value),
          { offset := parser.offset + digits.length + 1, rest })

/-- `BencodeParser::integer`. -/
def integer : Faulty BencodeParser ProxyError BValue := do
  skip
  digits

/-- `BencodeParser::bytes`. -/
def bytes : Faulty BencodeParser ProxyError (List UInt8) :=
  fun parser =>
    match splitFirst [58] parser.rest with
    | none => fail (.parse "invalid bencode byte string") parser
    | some (digits, rest) =>
      match Text.parseU64 (Text.fromAscii digits) with
      | none => fail (.parse "invalid bencode byte length") parser
      | some length =>
        match checkedAdd (parser.offset + digits.length + 1) length with
        | none => fail (.parse "bencode byte string is too large") parser
        | some offset =>
          if rest.length < length then
            fail (.parse "truncated bencode byte string") parser
          else
            (.ok (rest.take length), { offset, rest := rest.drop length })

/-- The loops of `list` and `dict`, up to the end mark.  Every item takes a byte,
so that fuel for each byte left does not run out. -/
def items (item : Faulty BencodeParser ProxyError α) :
    Nat → Faulty BencodeParser ProxyError (List α)
  | 0 => fail (.parse "invalid bencode value")
  | fuel + 1 => fun parser =>
    if parser.rest.head? = some 101 then (do skip; pure []) parser
    else
      (do
        let value ← item
        let values ← items item fuel
        pure (value :: values)) parser

theorem items_succ (item : Faulty BencodeParser ProxyError α) (fuel : Nat)
    (parser : BencodeParser) :
    items item (fuel + 1) parser =
      if parser.rest.head? = some 101 then (do skip; pure []) parser
      else
        (do
          let value ← item
          let values ← items item fuel
          pure (value :: values)) parser :=
  rfl

/-- The items from here to the end mark. -/
def allItems (item : Faulty BencodeParser ProxyError α) :
    Faulty BencodeParser ProxyError (List α) :=
  fun parser => items item (parser.rest.length + 1) parser

/-- `BencodeParser::list`, given how values are parsed. -/
def list (value : Faulty BencodeParser ProxyError BValue) :
    Faulty BencodeParser ProxyError BValue := do
  skip
  let values ← allItems value
  pure (.list values)

/-- An entry of a dictionary. -/
def entry (value : Faulty BencodeParser ProxyError BValue) :
    Faulty BencodeParser ProxyError (List UInt8 × BValue) := do
  let key ← bytes
  let value ← value
  pure (key, value)

/-- `BencodeParser::dict`, given how values are parsed. -/
def dict (value : Faulty BencodeParser ProxyError BValue) :
    Faulty BencodeParser ProxyError BValue := do
  skip
  let entries ← allItems (entry value)
  pure (.dict (entries.foldl (fun map entry => insertEntry entry.1 entry.2 map) []))

/-- `BencodeParser::value`, with the levels that are left. -/
def value : Nat → Faulty BencodeParser ProxyError BValue
  | 0 => fail (.parse "tracker response nesting is too deep")
  | levels + 1 => fun parser =>
    match parser.rest.head? with
    | none => fail (.parse "invalid bencode value") parser
    | some byte =>
      if byte = 105 then integer parser
      else if byte = 108 then list (value levels) parser
      else if byte = 100 then dict (value levels) parser
      else if 48 ≤ byte ∧ byte ≤ 57 then
        (do pure (BValue.bytes (← bytes))) parser
      else fail (.parse "invalid bencode value") parser

/-- The levels that a new parser has: its depth stays below 32. -/
def maxDepth : Nat := 32

/-! ## Reading what was written -/

/-- A parser reads a value where it is written, and stops behind it. -/
def Reads (parse : Faulty BencodeParser ProxyError α) (written : List UInt8) (value : α) : Prop :=
  ∀ offset rest, offset + written.length ≤ u64Max → parse ⟨offset, written ++ rest⟩ =
      (.ok value, ⟨offset + written.length, rest⟩)

theorem reads_pure (value : α) : Reads (pure value) [] value :=
  fun _ _ _ => rfl

theorem reads_skip (byte : UInt8) : Reads skip [byte] () :=
  fun _ _ _ => rfl

variable {first item : Faulty BencodeParser ProxyError α}
  {next : α → Faulty BencodeParser ProxyError β} {before : List UInt8} {byte : UInt8}
  {fuel levels : Nat} {values : List α} {write : α → List UInt8}
  {parse : Faulty BencodeParser ProxyError BValue} {after parser : BencodeParser}

/-- What is read one after the other is written so. -/
theorem reads_bind {firstWritten nextWritten : List UInt8}
    {middle : α} {value : β} (readsFirst : Reads first firstWritten middle)
    (readsNext : Reads (next middle) nextWritten value) :
    Reads (first >>= next) (firstWritten ++ nextWritten) value := by
  intro offset rest fits
  rw [List.length_append] at fits ⊢
  rw [List.append_assoc, bind_of_ok (readsFirst offset _ (by omega)),
    readsNext _ _ (by omega), Nat.add_assoc]

theorem reads_map {parse : Faulty BencodeParser ProxyError α} {written : List UInt8} {value : α}
    (reads : Reads parse written value) (view : α → β) :
    Reads (do pure (view (← parse))) written (view value) := by
  have whole : Reads (parse >>= fun result => pure (view result)) (written ++ []) (view value) :=
    reads_bind reads (reads_pure (view value))
  rwa [List.append_nil] at whole

theorem Reads.of_eq {parse other : Faulty BencodeParser ProxyError α} {written : List UInt8}
    {value : α} (reads : Reads other written value)
    (same : ∀ offset rest, parse ⟨offset, written ++ rest⟩ = other ⟨offset, written ++ rest⟩) :
    Reads parse written value :=
  fun offset rest fits => (same offset rest).trans (reads offset rest fits)

theorem splitFirst_singleton (absent : byte ∉ before) (rest : List UInt8) :
    splitFirst [byte] (before ++ byte :: rest) = some (before, rest) := by
  refine splitFirst_append (List.cons_ne_nil _ _) ?_ rest
  rw [List.dropLast_singleton, List.append_nil]
  intro occurs
  exact absent (occurs.subset List.mem_cons_self)

/-- A byte string is read back. -/
theorem reads_bytes {content : List UInt8} (fits : content.length ≤ u64Max) :
    Reads bytes (BValue.encodeBytes content) content := by
  intro offset rest small
  unfold BValue.encodeBytes at small ⊢
  have absent : 58 ∉ Text.ascii (Text.decimal content.length) :=
    Text.not_mem_ascii (fun _ member => (Text.lt_of_mem_decimal member).2) (by decide)
  have length_eq :
      Text.parseU64 (Text.fromAscii
        (Text.ascii (Text.decimal content.length))) = some content.length := by
    rw [Text.fromAscii_decimal, Text.parseU64_decimal, if_pos fits]
  rw [List.length_append, List.length_cons] at small
  unfold bytes
  rw [List.append_assoc, List.cons_append]
  simp only [splitFirst_singleton absent, length_eq]
  rw [checkedAdd_of_le (by omega)]
  simp only [List.length_append, List.length_cons]
  rw [if_neg (by omega), List.take_left, List.drop_left]
  simp only [Nat.add_assoc, Nat.add_comm 1]

/-- The digits of an integer are read back. -/
theorem reads_digits {number : Int} (lower : -2 ^ 63 ≤ number) (upper : number < 2 ^ 63) :
    Reads digits (Text.ascii (Text.decimalInt number) ++ [101]) (.integer number) := by
  have absent : 101 ∉ Text.ascii (Text.decimalInt number) :=
    Text.not_mem_ascii (fun _ => Text.lt_of_mem_decimalInt) (by decide)
  have number_eq : Text.parseI64 (Text.fromAscii
      (Text.ascii (Text.decimalInt number))) = some number := by
    rw [Text.fromAscii_decimalInt, Text.parseI64_decimalInt lower upper]
  intro offset rest _
  unfold digits
  rw [List.append_assoc, List.singleton_append]
  simp only [splitFirst_singleton absent, number_eq]
  rw [List.length_append]
  rfl

/-- Items are read up to the end mark, if none of them starts with it. -/
theorem reads_items (each : ∀ value ∈ values, Reads item (write value) value)
    (starts : ∀ value ∈ values, ∃ byte rest, write value = byte :: rest ∧ byte ≠ 101)
    (enough : values.length < fuel) :
    Reads (items item fuel) (values.flatMap write ++ [101]) values := by
  induction values generalizing fuel with
  | nil =>
    obtain ⟨fuel, rfl⟩ := Nat.exists_eq_succ_of_ne_zero (Nat.ne_of_gt enough)
    exact fun _ _ _ => rfl
  | cons value values inductionHypothesis =>
    obtain ⟨fuel, rfl⟩ := Nat.exists_eq_succ_of_ne_zero
      (Nat.ne_of_gt (Nat.lt_of_le_of_lt (Nat.zero_le _) enough))
    have others := inductionHypothesis
      (fun value member => each value (List.mem_cons_of_mem _ member))
      (fun value member => starts value (List.mem_cons_of_mem _ member))
      (Nat.lt_of_succ_lt_succ enough)
    have both : Reads (do
        let value ← item
        let values ← items item fuel
        pure (value :: values))
        (write value ++ (values.flatMap write ++ [101]))
        (value :: values) :=
      reads_bind (each value List.mem_cons_self) (reads_map others (value :: ·))
    obtain ⟨byte, tail, written, foreign⟩ := starts value List.mem_cons_self
    rw [List.flatMap_cons, List.append_assoc]
    refine both.of_eq fun offset rest => if_neg ?_
    rw [written]
    exact fun same => foreign (Option.some.inj same)

theorem length_le_flatMap
    (starts : ∀ value ∈ values, ∃ byte rest, write value = byte :: rest ∧ byte ≠ 101) :
    values.length ≤ (values.flatMap write).length := by
  induction values with
  | nil => exact Nat.le_refl 0
  | cons value values inductionHypothesis =>
    obtain ⟨byte, rest, written, -⟩ := starts value List.mem_cons_self
    have later := inductionHypothesis
      fun value member => starts value (List.mem_cons_of_mem _ member)
    rw [List.flatMap_cons, List.length_append, List.length_cons, written, List.length_cons]
    omega

/-- The fuel suffices for all items. -/
theorem reads_allItems (each : ∀ value ∈ values, Reads item (write value) value)
    (starts : ∀ value ∈ values, ∃ byte rest, write value = byte :: rest ∧ byte ≠ 101) :
    Reads (allItems item) (values.flatMap write ++ [101]) values := by
  have count := length_le_flatMap starts
  intro offset rest fits
  refine reads_items each starts ?_ offset rest fits
  simp only [List.length_append]
  omega

/-- No value starts with the end mark. -/
theorem exists_encode (written : BValue) :
    ∃ byte rest, written.encode = byte :: rest ∧ byte ≠ 101 := by
  cases written with
  | bytes content =>
    obtain ⟨digit, rest, same, -, upper⟩ := BValue.exists_encodeBytes content
    refine ⟨digit, rest, same, ?_⟩
    rintro rfl
    exact absurd upper (by decide)
  | integer number => exact ⟨105, _, rfl, by decide⟩
  | list values => exact ⟨108, _, rfl, by decide⟩
  | dict entries => exact ⟨100, _, rfl, by decide⟩

theorem reads_entry {written : List UInt8 × BValue}
    (small : written.1.length ≤ u64Max) (reads : Reads parse written.2.encode written.2) :
    Reads (entry parse) (BValue.encodeBytes written.1 ++ written.2.encode) written :=
  reads_bind (reads_bytes small) (reads_map reads (written.1, ·))

theorem exists_encodeEntry (written : List UInt8 × BValue) :
    ∃ byte rest, BValue.encodeBytes written.1 ++ written.2.encode = byte :: rest ∧ byte ≠ 101 := by
  obtain ⟨digit, tail, same, -, upper⟩ := BValue.exists_encodeBytes written.1
  refine ⟨digit, tail ++ written.2.encode, ?_, ?_⟩
  · rw [same]
    rfl
  · rintro rfl
    exact absurd upper (by decide)

/-- The entries of a dictionary are read back if its values are. -/
theorem reads_entries {entries : List (List UInt8 × BValue)} (ordered : Ordered entries)
    (small : ∀ entry ∈ entries, entry.1.length ≤ u64Max)
    (each : ∀ entry ∈ entries, Reads parse entry.2.encode entry.2) :
    Reads (do
        let entries ← allItems (entry parse)
        pure (BValue.dict (entries.foldl (fun map entry => insertEntry entry.1 entry.2 map) [])))
      (BValue.encodeEntries entries ++ [101]) (.dict entries) := by
  have items : Reads (allItems (entry parse)) (BValue.encodeEntries entries ++ [101]) entries := by
    rw [BValue.encodeEntries_eq]
    exact reads_allItems (fun written member =>
        reads_entry (small written member) (each written member))
      fun written _ => exists_encodeEntry written
  have map_eq : entries.foldl (fun map entry => insertEntry entry.1 entry.2 map) [] = entries :=
    foldl_insertEntry ordered
  have mapped := reads_map items fun entries => BValue.dict (entries.foldl
    (fun map entry => insertEntry entry.1 entry.2 map) [])
  rwa [map_eq] at mapped

/-- Values that are not nested too deep are read back. -/
theorem reads_value {written : BValue} (fits : written.Fits levels) :
    Reads (value levels) written.encode written := by
  induction levels generalizing written with
  | zero => exact fits.elim
  | succ levels inductionHypothesis =>
    cases written with
    | integer number =>
      exact reads_bind (reads_skip 105) (reads_digits fits.1 fits.2)
    | bytes content =>
      obtain ⟨digit, tail, same, lower, upper⟩ :=
        BValue.exists_encodeBytes content
      have other {byte : UInt8} (letter : 57 < byte) : digit ≠ byte := by
        rintro rfl
        exact absurd (UInt8.lt_of_lt_of_le letter upper) (by simp)
      refine (reads_map (reads_bytes fits) BValue.bytes).of_eq fun offset rest => ?_
      rw [same]
      unfold value
      simp only [List.cons_append, List.head?_cons]
      rw [if_neg (other (by decide)), if_neg (other (by decide)),
        if_neg (other (by decide)), if_pos ⟨lower, upper⟩]
    | list values =>
      have each : Reads (allItems (value levels)) (values.flatMap BValue.encode ++ [101]) values :=
        reads_allItems (fun value member => inductionHypothesis
          (fits value member)) fun value _ => exists_encode value
      rw [← BValue.encodeValues_eq] at each
      exact reads_bind (reads_skip 108) (reads_map each BValue.list)
    | dict entries =>
      obtain ⟨ordered, within⟩ := fits
      exact reads_bind (reads_skip 100) (reads_entries ordered
        (fun entry member => (within entry member).1)
        fun entry member => inductionHypothesis (within entry member).2)

/-! ## Dictionaries that are not closed -/

/-- Items that end with the input are refused for what the next item lacks. -/
theorem items_unclosed {reason : ProxyError}
    (each : ∀ value ∈ values, Reads item (write value) value)
    (starts : ∀ value ∈ values, ∃ byte rest, write value = byte :: rest ∧ byte ≠ 101)
    (ends : ∀ offset, ∃ after, item ⟨offset, []⟩ = (.error reason, after)) {offset : Nat}
    (fits : offset + (values.flatMap write).length ≤ u64Max) (enough : values.length < fuel) :
    ∃ after, items item fuel ⟨offset, values.flatMap write⟩ = (.error reason, after) := by
  induction values generalizing fuel offset with
  | nil =>
    obtain ⟨fuel, rfl⟩ := Nat.exists_eq_succ_of_ne_zero (Nat.ne_of_gt enough)
    obtain ⟨after, refused⟩ := ends offset
    exact ⟨after, bind_of_error refused _⟩
  | cons value values inductionHypothesis =>
    obtain ⟨fuel, rfl⟩ := Nat.exists_eq_succ_of_ne_zero
      (Nat.ne_of_gt (Nat.lt_of_le_of_lt (Nat.zero_le _) enough))
    obtain ⟨byte, tail, written, foreign⟩ := starts value List.mem_cons_self
    rw [List.flatMap_cons, List.length_append] at fits
    have fitsLater : offset + (write value).length + (values.flatMap write).length ≤ u64Max := by
      omega
    obtain ⟨after, refused⟩ := inductionHypothesis
      (fun value member => each value (List.mem_cons_of_mem _ member))
      (fun value member => starts value (List.mem_cons_of_mem _ member))
      fitsLater (Nat.lt_of_succ_lt_succ enough)
    refine ⟨after, ?_⟩
    rw [Nat.succ_eq_add_one, items_succ, List.flatMap_cons, if_neg, bind_of_ok (each value
      List.mem_cons_self offset _ (by omega)), bind_of_error refused]
    rw [written]
    exact fun same => foreign (Option.some.inj same)

/-- A dictionary without an end mark is refused. -/
theorem value_unclosed {entries : List (List UInt8 × BValue)}
    (each : ∀ entry ∈ entries, entry.1.length ≤ u64Max ∧ entry.2.Fits levels)
    (fits : (BValue.encodeEntries entries).length < u64Max) :
    ∃ after, value (levels + 1) (new (100 :: BValue.encodeEntries entries)) =
      (.error (.parse "invalid bencode byte string"), after) := by
  have starts : ∀ written ∈ entries, ∃ byte rest,
      BValue.encodeBytes written.1 ++ written.2.encode = byte :: rest ∧ byte ≠ 101 :=
    fun written _ => exists_encodeEntry written
  rw [BValue.encodeEntries_eq] at fits ⊢
  have small : 1 + (entries.flatMap fun entry =>
      BValue.encodeBytes entry.1 ++ entry.2.encode).length ≤ u64Max := by
    omega
  obtain ⟨after, refused⟩ := items_unclosed
    (fun written member => reads_entry (each written member).1
      (reads_value (each written member).2))
    starts (fun offset => ⟨⟨offset, []⟩, rfl⟩) small
    (Nat.lt_succ_of_le (length_le_flatMap starts))
  exact ⟨after, bind_of_error refused _⟩

/-! ## Every item takes a byte -/

/-- A parser that takes at least one byte. -/
def Shortens (parse : Faulty BencodeParser ProxyError α) : Prop :=
  ∀ parser value after, parse parser = (.ok value, after) → after.rest.length < parser.rest.length

theorem length_lt_of_splitFirst {text rest : List UInt8}
    (found : splitFirst [byte] text = some (before, rest)) :
    rest.length < text.length := by
  obtain ⟨rfl, -⟩ :=
    (splitFirst_eq_some found).resolve_right (List.cons_ne_nil _ _)
  simp only [List.length_append, List.length_cons]
  omega

theorem bytes_shortens : Shortens bytes := by
  intro parser content after ended
  unfold bytes at ended
  split at ended
  · cases ended
  · rename_i digits rest found
    have shorter := length_lt_of_splitFirst found
    split at ended
    · cases ended
    · split at ended
      · cases ended
      · split at ended
        · cases ended
        · cases ended
          exact Nat.lt_of_le_of_lt (List.drop_suffix _ _).length_le shorter

theorem digits_shortens : Shortens digits := by
  intro parser number after ended
  unfold digits at ended
  split at ended
  · cases ended
  · rename_i digits rest found
    split at ended
    · cases ended
    · cases ended
      exact length_lt_of_splitFirst found

theorem Shortens.bind (shortens : Shortens first)
    (shrinks : ∀ middle parser value after, next middle parser = (.ok value, after) →
        after.rest.length ≤ parser.rest.length) :
    Shortens (first >>= next) := by
  intro parser value after ended
  obtain ⟨middle, between, first_eq, ended⟩ := exists_of_bind_eq_ok ended
  exact Nat.lt_of_le_of_lt (shrinks _ _ _ _ ended) (shortens _ _ _ first_eq)

theorem Shortens.map {parse : Faulty BencodeParser ProxyError α} (shortens : Shortens parse)
    (view : α → β) :
    Shortens (do pure (view (← parse))) :=
  shortens.bind fun _ _ _ _ ended => by
    cases ended
    exact Nat.le_refl _

/-- Items are taken from the input. -/
theorem items_shrinks (shortens : Shortens item)
        (ended : items item fuel parser = (.ok values, after)) :
    after.rest.length ≤ parser.rest.length := by
  induction fuel generalizing parser values with
  | zero => cases ended
  | succ fuel inductionHypothesis =>
    rw [items_succ] at ended
    split at ended
    · cases ended
      exact (List.drop_suffix _ _).length_le
    · obtain ⟨value, between, first, ended⟩ := exists_of_bind_eq_ok ended
      obtain ⟨others, last, later, ended⟩ := exists_of_bind_eq_ok ended
      cases ended
      exact (inductionHypothesis later).trans (shortens _ _ _ first).le

/-- Fuel for each byte does not run out: more of it changes nothing. -/
theorem items_eq_of_lt (shortens : Shortens item) {more : Nat} (enough : parser.rest.length < fuel)
    (enoughMore : parser.rest.length < more) :
    items item fuel parser = items item more parser := by
  induction fuel generalizing more parser with
  | zero => exact absurd enough (Nat.not_lt_zero _)
  | succ fuel inductionHypothesis =>
    obtain ⟨more, rfl⟩ := Nat.exists_eq_succ_of_ne_zero
      (Nat.ne_of_gt (Nat.lt_of_le_of_lt (Nat.zero_le _) enoughMore))
    rw [Nat.succ_eq_add_one, items_succ, items_succ]
    split
    · rfl
    · rw [bind_apply, bind_apply]
      cases first : item parser with
      | mk exit after =>
        cases exit with
        | ok value =>
          have shorter := shortens _ _ _ first
          simp only [bind_apply]
          rw [inductionHypothesis (Nat.lt_of_lt_of_le shorter (Nat.le_of_lt_succ enough))
            (Nat.lt_of_lt_of_le shorter (Nat.le_of_lt_succ enoughMore))]
        | error reason => rfl
        | stopped => rfl

theorem entry_shortens (shortens : Shortens parse) : Shortens (entry parse) :=
  bytes_shortens.bind fun key _ _ _ ended =>
    (shortens.map (key, ·) _ _ _ ended).le

theorem skip_shortens_bind {next : Faulty BencodeParser ProxyError α}
    {value : α} (starts : parser.rest.head? = some byte)
    (shrinks : ∀ parser value after, next parser = (.ok value, after) →
      after.rest.length ≤ parser.rest.length)
    (ended : (do skip; next) parser = (.ok value, after)) :
    after.rest.length < parser.rest.length := by
  obtain ⟨_, between, skipped, ended⟩ := exists_of_bind_eq_ok ended
  cases skipped
  have later : after.rest.length ≤ (parser.rest.drop 1).length :=
    shrinks _ _ _ ended
  obtain ⟨tail, rest_eq⟩ := List.head?_eq_some_iff.mp starts
  rw [rest_eq] at later ⊢
  exact Nat.lt_of_le_of_lt later (Nat.lt_succ_self _)

theorem allItems_map_shrinks (shortens : Shortens item)
    (view : List α → β) (parser : BencodeParser) (value : β) (after : BencodeParser)
    (ended : (do pure (view (← allItems item)) :
      Faulty BencodeParser ProxyError β) parser = (.ok value, after)) :
    after.rest.length ≤ parser.rest.length := by
  obtain ⟨values, between, all, ended⟩ := exists_of_bind_eq_ok ended
  cases ended
  exact items_shrinks shortens all

/-- Every value takes a byte. -/
theorem value_shortens (levels : Nat) : Shortens (value levels) := by
  induction levels with
  | zero =>
    intro parser result after ended
    cases ended
  | succ levels inductionHypothesis =>
    intro parser result after ended
    unfold value at ended
    split at ended
    · cases ended
    · rename_i byte starts
      split at ended
      · exact skip_shortens_bind starts (fun _ _ _ ended => (digits_shortens _ _ _ ended).le) ended
      · split at ended
        · exact skip_shortens_bind starts
            (allItems_map_shrinks inductionHypothesis BValue.list) ended
        · split at ended
          · exact skip_shortens_bind starts
              (allItems_map_shrinks (entry_shortens inductionHypothesis) _)
              ended
          · split at ended
            · exact bytes_shortens.map BValue.bytes _ _ _ ended
            · cases ended

theorem value_of_head (starts : parser.rest.head? = some byte) :
    value (levels + 1) parser =
      if byte = 105 then integer parser
      else if byte = 108 then list (value levels) parser
      else if byte = 100 then dict (value levels) parser
      else if 48 ≤ byte ∧ byte ≤ 57 then
        (do pure (BValue.bytes (← bytes))) parser
      else fail (.parse "invalid bencode value") parser := by
  obtain ⟨offset, rest⟩ := parser
  cases rest with
  | nil => cases starts
  | cons first rest =>
    cases starts
    rfl

/-! ## What was read is read anywhere -/

/-- A parser takes a text from the front of its input, and reads the same value
from this text at any place. -/
def Local (parse : Faulty BencodeParser ProxyError α) : Prop :=
  ∀ parser value after, parse parser = (.ok value, after) →
    ∃ text, parser.rest = text ++ after.rest ∧
      after.offset = parser.offset + text.length ∧ Reads parse text value

theorem local_pure (value : α) : Local (pure value) := by
  intro parser result after ended
  cases ended
  exact ⟨[], rfl, rfl, reads_pure value⟩

/-- The rule of sequencing. -/
theorem Local.bind (isLocal : Local first) (later : ∀ middle, Local (next middle)) :
    Local (first >>= next) := by
  intro parser value after ended
  obtain ⟨middle, between, first_eq, ended⟩ := exists_of_bind_eq_ok ended
  obtain ⟨front, rest_eq, offset_eq, reads⟩ := isLocal _ _ _ first_eq
  obtain ⟨back, laterRest, laterOffset, readsLater⟩ := later _ _ _ _ ended
  refine ⟨front ++ back, ?_, ?_, reads_bind reads readsLater⟩
  · rw [rest_eq, laterRest, List.append_assoc]
  · rw [laterOffset, offset_eq, List.length_append, Nat.add_assoc]

theorem absent_of_splitFirst {text rest : List UInt8}
    (found : splitFirst [byte] text = some (before, rest)) :
    text = before ++ byte :: rest ∧ byte ∉ before := by
  obtain ⟨rfl, clear⟩ :=
    (splitFirst_eq_some found).resolve_right (List.cons_ne_nil _ _)
  refine ⟨rfl, fun member => clear ?_⟩
  rw [List.dropLast_singleton, List.append_nil]
  obtain ⟨left, right, rfl⟩ := List.append_of_mem member
  exact ⟨left, right, by rw [List.append_assoc, List.singleton_append]⟩

theorem local_digits : Local digits := by
  intro parser value after ended
  unfold digits at ended
  split at ended
  · cases ended
  · rename_i spelled rest found
    obtain ⟨rest_eq, absent⟩ := absent_of_splitFirst found
    split at ended
    · cases ended
    · rename_i number parsed
      cases ended
      refine ⟨spelled ++ [101], ?_, ?_, fun offset tail _ => ?_⟩
      · rw [rest_eq, List.append_assoc, List.singleton_append]
      · rw [List.length_append, List.length_singleton, Nat.add_assoc]
      · unfold digits
        rw [List.append_assoc, List.singleton_append]
        simp only [splitFirst_singleton absent, parsed]
        rw [List.length_append, List.length_singleton, Nat.add_assoc]

theorem local_bytes : Local bytes := by
  intro parser content after ended
  unfold bytes at ended
  split at ended
  · cases ended
  · rename_i spelled rest found
    obtain ⟨rest_eq, absent⟩ := absent_of_splitFirst found
    split at ended
    · cases ended
    · rename_i length parsed
      split at ended
      · cases ended
      · rename_i stop sum
        split at ended
        · cases ended
        · rename_i whole
          have length_eq : (rest.take length).length = length :=
            List.length_take_of_le (Nat.le_of_not_lt whole)
          obtain ⟨rfl, _⟩ := checkedAdd_eq_some_iff.mp sum
          cases ended
          refine ⟨spelled ++ 58 :: rest.take length, ?_, ?_, fun offset tail fits => ?_⟩
          · rw [rest_eq, List.append_assoc, List.cons_append, List.take_append_drop]
          · change parser.offset + spelled.length + 1 + length = _
            rw [List.length_append, List.length_cons, length_eq]
            omega
          · rw [List.length_append, List.length_cons, length_eq] at fits ⊢
            unfold bytes
            rw [List.append_assoc, List.cons_append]
            simp only [splitFirst_singleton absent, parsed]
            rw [checkedAdd_of_le (by omega)]
            simp only [List.length_append, length_eq]
            rw [if_neg (by omega), List.take_left' length_eq, List.drop_left' length_eq]
            simp only [Nat.add_assoc, Nat.add_comm 1]

theorem Local.after_byte {next : Faulty BencodeParser ProxyError α} (later : Local next) {value : α}
    (starts : parser.rest.head? = some byte) (ended : (do skip; next) parser = (.ok value, after)) :
    ∃ text, parser.rest = byte :: text ++ after.rest ∧
      after.offset = parser.offset + (byte :: text).length ∧
      Reads (do skip; next) (byte :: text) value := by
  obtain ⟨tail, rest_eq⟩ := List.head?_eq_some_iff.mp starts
  obtain ⟨_, between, skipped, ended⟩ := exists_of_bind_eq_ok ended
  cases skipped
  obtain ⟨text, laterRest, offset_eq, reads⟩ := later _ _ _ ended
  change parser.rest.drop 1 = text ++ after.rest at laterRest
  change after.offset = parser.offset + 1 + text.length at offset_eq
  refine ⟨text, ?_, ?_, reads_bind (reads_skip byte) reads⟩
  · rw [rest_eq] at laterRest ⊢
    exact congrArg (byte :: ·) laterRest
  · rw [offset_eq, List.length_cons]
    omega

/-- More rounds change nothing once the end mark is reached. -/
theorem items_more {more : Nat} (le : fuel ≤ more)
        (ended : items item fuel parser = (.ok values, after)) :
    items item more parser = (.ok values, after) := by
  induction fuel generalizing more parser values with
  | zero => cases ended
  | succ fuel inductionHypothesis =>
    obtain ⟨more, rfl⟩ := Nat.exists_eq_succ_of_ne_zero
      (Nat.ne_of_gt (Nat.lt_of_lt_of_le (Nat.succ_pos fuel) le))
    rw [items_succ] at ended
    rw [Nat.succ_eq_add_one, items_succ]
    split at ended
    · rename_i closes
      rw [if_pos closes]
      exact ended
    · rename_i continues
      rw [if_neg continues]
      obtain ⟨value, between, first, ended⟩ := exists_of_bind_eq_ok ended
      obtain ⟨others, last, later, ended⟩ := exists_of_bind_eq_ok ended
      cases ended
      rw [bind_of_ok first, bind_of_ok (inductionHypothesis (by omega) later)]
      rfl

/-- Items depend only on the bytes they take. -/
theorem Local.items (isLocal : Local item) (shortens : Shortens item) (fuel : Nat) :
    Local (items item fuel) := by
  induction fuel with
  | zero =>
    intro parser values after ended
    cases ended
  | succ fuel inductionHypothesis =>
    intro parser values after ended
    rw [items_succ] at ended
    split at ended
    · rename_i closes
      obtain ⟨tail, rest_eq⟩ := List.head?_eq_some_iff.mp closes
      obtain ⟨_, rest⟩ := parser
      cases rest_eq
      cases ended
      exact ⟨[101], rfl, rfl, fun _ _ _ => rfl⟩
    · rename_i continues
      have both : Local (do
          let value ← item
          let values ← BencodeParser.items item fuel
          pure (value :: values)) :=
        isLocal.bind fun value => inductionHypothesis.bind fun _ => local_pure _
      have shorter : after.rest.length < parser.rest.length :=
        shortens.bind (fun value _ _ _ later =>
          by
            obtain ⟨others, last, all, later⟩ := exists_of_bind_eq_ok later
            cases later
            exact items_shrinks shortens all) _ _ _ ended
      obtain ⟨text, rest_eq, offset_eq, reads⟩ := both _ _ _ ended
      refine ⟨text, rest_eq, offset_eq, reads.of_eq fun offset rest => if_neg ?_⟩
      -- The first byte is in the text, so that it does not depend on the rest.
      cases text with
      | nil =>
        rw [rest_eq, List.nil_append] at shorter
        exact absurd shorter (Nat.lt_irrefl _)
      | cons byte text =>
        rw [rest_eq] at continues
        exact continues

theorem Local.allItems (isLocal : Local item) (shortens : Shortens item) :
    Local (allItems item) := by
  intro parser values after ended
  obtain ⟨text, rest_eq, offset_eq, reads⟩ :=
    isLocal.items shortens (parser.rest.length + 1) _ _ _ ended
  refine ⟨text, rest_eq, offset_eq, fun offset rest fits => ?_⟩
  have enough := items_more (Nat.le_max_left _ ((text ++ rest).length + 1)) (reads offset rest fits)
  rw [BencodeParser.allItems, ← enough]
  exact items_eq_of_lt shortens (Nat.lt_succ_self _) (Nat.le_max_right _ _)

theorem Local.entry (isLocal : Local parse) : Local (entry parse) :=
  local_bytes.bind fun _ => isLocal.bind fun _ => local_pure _

/-- A value is read in the same way wherever it stands. -/
theorem local_value (levels : Nat) : Local (value levels) := by
  induction levels with
  | zero =>
    intro parser result after ended
    cases ended
  | succ levels inductionHypothesis =>
    intro parser result after ended
    have shortens := value_shortens levels
    have items : Local (do pure (BValue.list (← allItems (value levels)))) :=
      (inductionHypothesis.allItems shortens).bind fun _ => local_pure _
    have entries : Local (do
        let entries ← allItems (entry (value levels))
        pure (BValue.dict (entries.foldl (fun map entry => insertEntry entry.1 entry.2 map) []))) :=
      (inductionHypothesis.entry.allItems (entry_shortens shortens)).bind fun _ => local_pure _
    have content : Local (do pure (BValue.bytes (← bytes))) :=
      local_bytes.bind fun _ => local_pure _
    cases starts : parser.rest.head? with
    | none =>
      unfold value at ended
      rw [starts] at ended
      cases ended
    | some byte =>
      rw [value_of_head starts] at ended
      split at ended
      · rename_i isInteger
        obtain ⟨text, rest_eq, offset_eq, reads⟩ := local_digits.after_byte starts ended
        refine ⟨byte :: text, rest_eq, offset_eq, reads.of_eq fun offset rest => ?_⟩
        exact (value_of_head rfl).trans (if_pos isInteger)
      · rename_i notInteger
        split at ended
        · rename_i isList
          obtain ⟨text, rest_eq, offset_eq, reads⟩ := items.after_byte starts ended
          refine ⟨byte :: text, rest_eq, offset_eq, reads.of_eq fun offset rest => ?_⟩
          rw [List.cons_append, value_of_head rfl, if_neg notInteger, if_pos isList]
          rfl
        · rename_i notList
          split at ended
          · rename_i isDict
            obtain ⟨text, rest_eq, offset_eq, reads⟩ := entries.after_byte starts ended
            refine ⟨byte :: text, rest_eq, offset_eq, reads.of_eq fun offset rest => ?_⟩
            rw [List.cons_append, value_of_head rfl, if_neg notInteger,
              if_neg notList, if_pos isDict]
            rfl
          · rename_i notDict
            split at ended
            · rename_i isString
              have shorter := bytes_shortens.map BValue.bytes _ _ _ ended
              obtain ⟨text, rest_eq, offset_eq, reads⟩ := content _ _ _ ended
              refine ⟨text, rest_eq, offset_eq, reads.of_eq fun offset rest => ?_⟩
              cases text with
              | nil =>
                rw [rest_eq, List.nil_append] at shorter
                exact absurd shorter (Nat.lt_irrefl _)
              | cons first text =>
                rw [rest_eq] at starts
                cases starts
                rw [List.cons_append, value_of_head rfl, if_neg notInteger,
                  if_neg notList, if_neg notDict, if_pos isString]
            · cases ended

end BencodeParser
end P2pNetwork
end VideoProxy
