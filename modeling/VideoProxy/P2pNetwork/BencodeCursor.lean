import VideoProxy.P2pNetwork.Bencode

/-!
# The parser of bencoded values, as it moves over its input

`BencodeParser` holds the whole input, an offset in it and the depth of the value
that is read.  An index or a slice outside of the input and an overflow stop the
process here, and so does a loop that has used up its fuel.  None of this happens:
the parser goes the same way as the one that holds what is left of the input.
-/

namespace VideoProxy
namespace P2pNetwork

open Faulty

/-- The largest signed machine word. -/
def isizeMax : Nat := 2 ^ 63 - 1

/-- A slice of bytes; no slice is longer than the largest signed machine word. -/
structure ByteSlice where
  bytes : List UInt8
  bounded : bytes.length ≤ isizeMax

/-- `BencodeParser`, with its fields. -/
structure BencodeCursor where
  input : ByteSlice
  offset : Nat
  depth : Nat

namespace BencodeCursor

/-! ## The code -/

/-- An addition of machine words. -/
def add (left right : Nat) : Faulty BencodeCursor ProxyError Nat :=
  match checkedAdd left right with
  | some sum => pure sum
  | none => stop

/-- `self.offset = offset`. -/
def moveTo (offset : Nat) : Faulty BencodeCursor ProxyError Unit :=
  update fun cursor => { cursor with offset }

/-- `self.offset += 1`. -/
def skip : Faulty BencodeCursor ProxyError Unit := do
  let offset ← add (← gets offset) 1
  moveTo offset

/-- `self.input.get(self.offset)`. -/
def peek : Faulty BencodeCursor ProxyError (Option UInt8) :=
  gets fun cursor => cursor.input.bytes[cursor.offset]?

/-- `self.input[start..]`. -/
def sliceFrom (start : Nat) : Faulty BencodeCursor ProxyError (List UInt8) :=
  fun cursor =>
    if start ≤ cursor.input.bytes.length then
      (.ok (cursor.input.bytes.drop start), cursor)
    else (.stopped, cursor)

/-- `self.input.get(start..finish)`. -/
def get (start finish : Nat) : Faulty BencodeCursor ProxyError (Option (List UInt8)) :=
  gets fun cursor =>
    if start ≤ finish ∧ finish ≤ cursor.input.bytes.length then
      some ((cursor.input.bytes.take finish).drop start)
    else none

/-- `self.input[start..finish]`. -/
def slice (start finish : Nat) : Faulty BencodeCursor ProxyError (List UInt8) := do
  match ← get start finish with
  | some bytes => pure bytes
  | none => stop

/-- The place of a byte in the input from the offset on. -/
def find (byte : UInt8) : Faulty BencodeCursor ProxyError (Option Nat) := do
  let offset ← gets offset
  match (← sliceFrom offset).findIdx? (· = byte) with
  | none => pure none
  | some index => return some (← add index offset)

/-- The digits of an integer and its end mark. -/
def digits : Faulty BencodeCursor ProxyError BValue := do
  match ← find 101 with
  | none => fail (.parse "unterminated bencode integer")
  | some finish =>
    match Text.parseI64 (Text.fromAscii (← slice (← gets offset) finish)) with
    | none => fail (.parse "invalid bencode integer")
    | some value => do
        moveTo (← add finish 1)
        pure (.integer value)

/-- `BencodeParser::integer`. -/
def integer : Faulty BencodeCursor ProxyError BValue := do
  skip
  digits

/-- The bytes of a byte string, of which the length is known. -/
def content (length : Nat) : Faulty BencodeCursor ProxyError BValue := do
  let offset ← gets offset
  match checkedAdd offset length with
  | none => fail (.parse "bencode byte string is too large")
  | some finish =>
    match ← get offset finish with
    | none => fail (.parse "truncated bencode byte string")
    | some bytes => do
        moveTo finish
        pure (.bytes bytes)

/-- `BencodeParser::bytes`. -/
def bytes : Faulty BencodeCursor ProxyError BValue := do
  match ← find 58 with
  | none => fail (.parse "invalid bencode byte string")
  | some colon =>
    match Text.parseU64 (Text.fromAscii (← slice (← gets offset) colon)) with
    | none => fail (.parse "invalid bencode byte length")
    | some length => do
        moveTo (← add colon 1)
        content length

/-- The loops of `list` and `dict`, up to the end mark. -/
def loop (body : β → Faulty BencodeCursor ProxyError β) :
    Nat → β → Faulty BencodeCursor ProxyError β
  | 0, _ => stop
  | fuel + 1, values => do
      if (← peek) = some 101 then
        skip
        pure values
      else
        let values ← body values
        loop body fuel values

/-- `BencodeParser::list`, given how values are parsed. -/
def list (value : Faulty BencodeCursor ProxyError BValue)
    (fuel : Nat) : Faulty BencodeCursor ProxyError BValue := do
  skip
  let values ← loop (fun values => do pure (values ++ [← value])) fuel []
  pure (.list values)

/-- The body of the loop of `dict`. -/
def addEntry (value : Faulty BencodeCursor ProxyError BValue)
    (entries : List (List UInt8 × BValue)) :
    Faulty BencodeCursor ProxyError (List (List UInt8 × BValue)) := do
  match ← bytes with
  | .bytes key => do pure (insertEntry key (← value) entries)
  | _ => stop

/-- `BencodeParser::dict`, given how values are parsed. -/
def dict (value : Faulty BencodeCursor ProxyError BValue)
    (fuel : Nat) : Faulty BencodeCursor ProxyError BValue := do
  skip
  let entries ← loop (addEntry value) fuel []
  pure (.dict entries)

/-- `self.depth -= 1` and the result. -/
def leave (result : Except ProxyError BValue) :
    Faulty BencodeCursor ProxyError BValue := do
  match checkedSub (← gets depth) 1 with
  | none => stop
  | some depth => do
      update fun cursor => { cursor with depth }
      ofExcept result

/-- One level deeper: the depth is counted up before and down after, also when
there is an error. -/
def nested (parse : Faulty BencodeCursor ProxyError BValue) :
    Faulty BencodeCursor ProxyError BValue := do
  let depth ← add (← gets depth) 1
  update fun cursor => { cursor with depth }
  let result ← attempt parse
  leave result

/-- `BencodeParser::value`; fuel is for nested values and for the rounds of the
loops. -/
def value : Nat → Faulty BencodeCursor ProxyError BValue
  | 0 => stop
  | fuel + 1 => do
      if 32 ≤ (← gets depth) then
        fail (.parse "tracker response nesting is too deep")
      else
        nested do
          match ← peek with
          | none => fail (.parse "invalid bencode value")
          | some byte =>
            if byte = 105 then integer
            else if byte = 108 then list (value fuel) fuel
            else if byte = 100 then dict (value fuel) fuel
            else if 48 ≤ byte ∧ byte ≤ 57 then bytes
            else fail (.parse "invalid bencode value")

/-! ## The same way as on what is left of the input -/

/-- What is left of the input. -/
def view (cursor : BencodeCursor) : BencodeParser :=
  ⟨cursor.offset, cursor.input.bytes.drop cursor.offset⟩

/-- The offset is not behind the end of the input. -/
def Inside (cursor : BencodeCursor) : Prop :=
  cursor.offset ≤ cursor.input.bytes.length

/-- A parser went forward in the same input, and came back to its depth. -/
structure Leads (before after : BencodeCursor) : Prop where
  input_eq : after.input = before.input
  depth_eq : after.depth = before.depth
  forward : before.offset ≤ after.offset
  inside : after.Inside

theorem Leads.refl {cursor : BencodeCursor} (inside : cursor.Inside) : Leads cursor cursor :=
  ⟨rfl, rfl, Nat.le_refl _, inside⟩

theorem Leads.trans {before middle after : BencodeCursor} (first : Leads before middle)
    (second : Leads middle after) :
    Leads before after :=
  ⟨second.input_eq.trans first.input_eq, second.depth_eq.trans first.depth_eq,
    first.forward.trans second.forward, second.inside⟩

/-- Both parsers end in the same way, and without a stop. -/
inductive Agree (cursor : BencodeCursor) :
    Exit ProxyError α × BencodeCursor → Exit ProxyError α × BencodeParser → Prop
  | ok {value after} (leads : Leads cursor after) :
      Agree cursor (.ok value, after) (.ok value, after.view)
  | error {reason after seen} (leads : Leads cursor after) :
      Agree cursor (.error reason, after) (.error reason, seen)

/-- At this depth and with at most so many bytes left, a parser with a cursor goes
the same way as one on what is left. -/
def Follows (bound depth : Nat) (run : Faulty BencodeCursor ProxyError α)
    (parse : Faulty BencodeParser ProxyError α) : Prop :=
  ∀ cursor, cursor.Inside → cursor.depth = depth → cursor.view.rest.length ≤ bound →
    Agree cursor (run cursor) (parse cursor.view)

section Following

variable {α β : Type} {bound depth : Nat} {cursor : BencodeCursor}

theorem Leads.rest_length_le {after : BencodeCursor} (leads : Leads cursor after) :
    after.view.rest.length ≤ cursor.view.rest.length := by
  simp only [view, List.length_drop, leads.input_eq]
  have := leads.forward
  omega

variable {ended : Exit ProxyError α × BencodeCursor}
  {parse item : Faulty BencodeParser ProxyError α} {run : Faulty BencodeCursor ProxyError α}
  {index : Nat} {parser : BencodeParser}

theorem Leads.agree {after : BencodeCursor}
    {seen : Exit ProxyError α × BencodeParser} (leads : Leads cursor after)
    (agree : Agree after ended seen) :
    Agree cursor ended seen := by
  cases agree with
  | ok later => exact .ok (leads.trans later)
  | error later => exact .error (leads.trans later)

theorem Agree.exists_of_ok {value : α}
    {seen : BencodeParser} (agree : Agree cursor ended (.ok value, seen)) :
    ∃ after, ended = (.ok value, after) ∧ Leads cursor after ∧ after.view = seen := by
  cases agree with
  | ok leads => exact ⟨_, rfl, leads, rfl⟩

/-- The rule of sequencing for one input. -/
theorem Agree.bind {next : α → Faulty BencodeCursor ProxyError β}
    {nextParse : α → Faulty BencodeParser ProxyError β}
    (agree : Agree cursor (run cursor) (parse cursor.view))
    (later : ∀ value after, Leads cursor after → parse cursor.view = (.ok value, after.view) →
      Agree after (next value after) (nextParse value after.view)) :
    Agree cursor ((run >>= next) cursor) ((parse >>= nextParse) cursor.view) := by
  rw [bind_apply, bind_apply]
  generalize run cursor = ended at agree ⊢
  generalize parse cursor.view = seen at agree later ⊢
  cases agree with
  | ok leads => exact leads.agree (later _ _ leads rfl)
  | error leads => exact .error leads

/-- The rule of sequencing. -/
theorem Follows.bind {next : α → Faulty BencodeCursor ProxyError β}
    {nextParse : α → Faulty BencodeParser ProxyError β} (follows : Follows bound depth run parse)
    (later : ∀ value, Follows bound depth (next value) (nextParse value)) :
    Follows bound depth (run >>= next) (parse >>= nextParse) := by
  intro cursor inside deep small
  refine (follows cursor inside deep small).bind fun value after leads _ => ?_
  exact later value after leads.inside (leads.depth_eq.trans deep)
    (leads.rest_length_le.trans small)

theorem follows_pure (value : α) : Follows bound depth (pure value) (pure value) :=
  fun _ inside _ _ => .ok (.refl inside)

theorem Follows.map (follows : Follows bound depth run parse) (view : α → β) :
    Follows bound depth (do pure (view (← run))) (do pure (view (← parse))) :=
  follows.bind fun value => follows_pure (view value)

theorem Inside.lt_u64Max (inside : cursor.Inside) : cursor.offset < u64Max :=
  Nat.lt_of_le_of_lt (inside.trans cursor.input.bounded) (by decide)

theorem add_eq {left right : Nat} (fits : left + right ≤ u64Max) :
    add left right cursor = (.ok (left + right), cursor) := by
  rw [add, checkedAdd_of_le fits]
  rfl

theorem skip_eq (inside : cursor.Inside) :
    skip cursor = (.ok (), { cursor with offset := cursor.offset + 1 }) := by
  rw [skip, bind_of_ok (gets_apply _ cursor), bind_of_ok (add_eq inside.lt_u64Max)]
  rfl

theorem peek_eq : peek cursor = (.ok cursor.view.rest.head?, cursor) := by
  unfold peek view
  rw [gets_apply, List.head?_drop]

theorem lt_of_findIdx? {bytes : List UInt8} {test : UInt8 → Bool}
    (found : bytes.findIdx? test = some index) :
    index < bytes.length :=
  (List.findIdx?_eq_some_iff_findIdx_eq.mp found).1

theorem add_place_lt (place : index < cursor.view.rest.length) :
    index + cursor.offset < u64Max := by
  simp only [view, List.length_drop] at place
  have fits := cursor.input.bounded
  unfold isizeMax at fits
  unfold u64Max
  omega

/-- The search starts at the cursor and stays in range. -/
theorem find_eq (inside : cursor.Inside) (byte : UInt8) :
    find byte cursor = (.ok ((cursor.view.rest.findIdx? (· = byte)).map (· + cursor.offset)),
        cursor) := by
  have rest : sliceFrom cursor.offset cursor = (.ok cursor.view.rest, cursor) :=
    if_pos inside
  rw [find, bind_of_ok (gets_apply _ cursor), bind_of_ok rest]
  cases found : cursor.view.rest.findIdx? (· = byte) with
  | none => rfl
  | some index =>
    have bounded := (add_place_lt (lt_of_findIdx? found)).le
    change (do
      let place ← add index cursor.offset
      pure (some place)) cursor = _
    rw [bind_of_ok (add_eq bounded)]
    rfl

/-- A slice up to a byte that was found is in range. -/
theorem slice_eq (found : index < cursor.view.rest.length) :
    slice cursor.offset (index + cursor.offset) cursor =
      (.ok (cursor.view.rest.take index), cursor) := by
  simp only [view, List.length_drop] at found
  have within : cursor.offset ≤ index + cursor.offset ∧
      index + cursor.offset ≤ cursor.input.bytes.length := by
    omega
  have part : get cursor.offset (index + cursor.offset) cursor =
      (.ok (some (cursor.view.rest.take index)), cursor) := by
    rw [get, gets_apply, if_pos within, List.drop_take, Nat.add_sub_cancel]
    rfl
  rw [slice, bind_of_ok part]
  rfl

theorem view_forward (count : Nat) :
    ({ cursor with offset := cursor.offset + count } : BencodeCursor).view =
      ⟨cursor.offset + count, cursor.view.rest.drop count⟩ := by
  simp only [view, List.drop_drop]

theorem Leads.forward_of_le {count : Nat} (within : count ≤ cursor.view.rest.length)
    (inside : cursor.Inside) :
    Leads cursor { cursor with offset := cursor.offset + count } := by
  refine ⟨rfl, rfl, Nat.le_add_right _ _, ?_⟩
  simp only [view, List.length_drop] at within
  unfold Inside at inside ⊢
  dsimp only
  omega

theorem Agree.forward {value : α} {count offset seenOffset : Nat} (inside : cursor.Inside)
    (within : count ≤ cursor.view.rest.length) (offset_eq : offset = cursor.offset + count)
    (seen_eq : seenOffset = cursor.offset + count) :
    Agree cursor (.ok value, { cursor with offset })
      (.ok value, ⟨seenOffset, cursor.view.rest.drop count⟩) := by
  subst offset_eq seen_eq
  rw [← view_forward count]
  exact .ok (.forward_of_le within inside)

theorem skip_agree {byte : UInt8} (inside : cursor.Inside)
    (starts : cursor.view.rest.head? = some byte) :
    Agree cursor (skip cursor) (BencodeParser.skip cursor.view) := by
  have nonempty : 1 ≤ cursor.view.rest.length := by
    obtain ⟨rest, rest_eq⟩ := List.head?_eq_some_iff.mp starts
    rw [rest_eq, List.length_cons]
    omega
  rw [skip_eq inside]
  exact .forward inside nonempty rfl rfl

/-- Both read a number alike. -/
theorem digits_agree (inside : cursor.Inside) :
    Agree cursor (digits cursor) (BencodeParser.digits cursor.view) := by
  unfold digits BencodeParser.digits
  rw [bind_of_ok (find_eq inside 101), splitFirst_letter]
  cases found : cursor.view.rest.findIdx? (· = 101) with
  | none => exact .error (.refl inside)
  | some index =>
    have place := lt_of_findIdx? found
    simp only [Option.map_some]
    rw [bind_of_ok (gets_apply _ cursor), bind_of_ok (slice_eq place)]
    cases number : Text.parseI64 (Text.fromAscii (cursor.view.rest.take index)) with
    | none => exact .error (.refl inside)
    | some value =>
      have behind : index + cursor.offset + 1 ≤ u64Max := by
        have bound := add_place_lt place
        omega
      change Agree cursor ((do
        moveTo (← add (index + cursor.offset) 1)
        pure (BValue.integer value)) cursor) _
      rw [bind_of_ok (add_eq behind)]
      refine Agree.forward inside place (by omega) ?_
      rw [List.length_take, Nat.min_eq_left place.le]
      exact Nat.add_assoc _ _ _

/-- The bytes of a byte string, on what is left of the input. -/
def contentOf (length : Nat) (parser : BencodeParser) :
    Exit ProxyError BValue × BencodeParser :=
  match checkedAdd parser.offset length with
  | none => (.error (.parse "bencode byte string is too large"), parser)
  | some offset =>
    if parser.rest.length < length then
      (.error (.parse "truncated bencode byte string"), parser)
    else
      (.ok (.bytes (parser.rest.take length)), ⟨offset, parser.rest.drop length⟩)

theorem content_agree (inside : cursor.Inside) (length : Nat) :
    Agree cursor (content length cursor) (contentOf length cursor.view) := by
  have seen_eq : cursor.view.offset = cursor.offset := rfl
  unfold content contentOf
  rw [bind_of_ok (gets_apply _ cursor), seen_eq]
  cases fits : checkedAdd cursor.offset length with
  | none => exact .error (.refl inside)
  | some finish =>
    obtain ⟨rfl, -⟩ := checkedAdd_eq_some_iff.mp fits
    have left : cursor.view.rest.length =
        cursor.input.bytes.length - cursor.offset := List.length_drop
    unfold Inside at inside
    simp only
    split
    · rename_i short
      have part : get cursor.offset (cursor.offset + length) cursor = (.ok none, cursor) := by
        rw [get, gets_apply, if_neg (by omega)]
      rw [bind_of_ok part]
      exact .error (.refl inside)
    · rename_i enough
      have part : get cursor.offset (cursor.offset + length) cursor =
          (.ok (some (cursor.view.rest.take length)), cursor) := by
        rw [get, gets_apply, if_pos (by omega), List.drop_take, Nat.add_sub_cancel_left]
        rfl
      rw [bind_of_ok part]
      exact .forward inside (Nat.le_of_not_lt enough) rfl rfl

/-- An error leaves the parser where it was. -/
def restored (parser : BencodeParser) :
    Exit ProxyError α × BencodeParser → Exit ProxyError α × BencodeParser
  | (.ok value, after) => (.ok value, after)
  | (exit, _) => (exit, parser)

/-- Byte strings on what is left: after the colon comes their content. -/
theorem parse_bytes_eq {length : Nat} (found : parser.rest.findIdx? (· = 58) = some index)
    (number : Text.parseU64 (Text.fromAscii (parser.rest.take index)) = some length) :
    (do pure (BValue.bytes (← BencodeParser.bytes))) parser = restored parser (contentOf length
        ⟨parser.offset + (index + 1), parser.rest.drop (index + 1)⟩) := by
  have start_eq : parser.offset + (parser.rest.take index).length + 1 =
      parser.offset + (index + 1) := by
    rw [List.length_take, Nat.min_eq_left (lt_of_findIdx? found).le]
    rfl
  have split_eq : splitFirst [58] parser.rest =
      some (parser.rest.take index, parser.rest.drop (index + 1)) := by
    rw [splitFirst_letter, found]
    rfl
  rw [bind_apply]
  unfold BencodeParser.bytes contentOf
  simp only [split_eq, number, start_eq]
  cases checkedAdd (parser.offset + (index + 1)) length with
  | none => rfl
  | some offset =>
    by_cases short : (parser.rest.drop (index + 1)).length < length
    · simp only [if_pos short]
      rfl
    · simp only [if_neg short]
      rfl

theorem Agree.restored {seen : Exit ProxyError α × BencodeParser} (agree : Agree cursor ended seen)
    (parser : BencodeParser) :
    Agree cursor ended (restored parser seen) := by
  cases agree with
  | ok leads => exact .ok leads
  | error leads => exact .error leads

/-- Both read a byte string alike. -/
theorem bytes_agree (inside : cursor.Inside) :
    Agree cursor (bytes cursor) ((do pure (BValue.bytes (← BencodeParser.bytes))) cursor.view) := by
  unfold bytes
  rw [bind_of_ok (find_eq inside 58)]
  cases found : cursor.view.rest.findIdx? (· = 58) with
  | none =>
    have refused : BencodeParser.bytes cursor.view =
        (.error (.parse "invalid bencode byte string"), cursor.view) := by
      unfold BencodeParser.bytes
      rw [splitFirst_letter, found]
      rfl
    rw [bind_of_error refused]
    exact .error (.refl inside)
  | some index =>
    have place := lt_of_findIdx? found
    simp only [Option.map_some]
    rw [bind_of_ok (gets_apply _ cursor), bind_of_ok (slice_eq place)]
    cases number : Text.parseU64 (Text.fromAscii (cursor.view.rest.take index)) with
    | none =>
      have refused : BencodeParser.bytes cursor.view =
          (.error (.parse "invalid bencode byte length"), cursor.view) := by
        unfold BencodeParser.bytes
        rw [splitFirst_letter, found]
        simp only [Option.map_some, number]
        rfl
      rw [bind_of_error refused]
      exact .error (.refl inside)
    | some length =>
      have behind : index + cursor.offset + 1 ≤ u64Max := add_place_lt place
      have place_eq : index + cursor.offset + 1 = cursor.offset + (index + 1) := by
        omega
      have leads : Leads cursor
          { cursor with offset := cursor.offset + (index + 1) } :=
        .forward_of_le place inside
      have agree := content_agree leads.inside length
      rw [view_forward] at agree
      rw [parse_bytes_eq found number]
      refine leads.agree (Agree.restored ?_ cursor.view)
      simp only
      rw [bind_of_ok (add_eq behind), place_eq]
      exact agree

/-! ## The loops -/

theorem bind_peek (next : Option UInt8 → Faulty BencodeCursor ProxyError α) :
    (peek >>= next) cursor = next cursor.view.rest.head? cursor :=
  bind_of_ok peek_eq next

theorem allItems_end (item : Faulty BencodeParser ProxyError α)
    (ends : parser.rest.head? = some 101) :
    BencodeParser.allItems item parser = (do BencodeParser.skip; pure []) parser := by
  unfold BencodeParser.allItems
  rw [BencodeParser.items_succ, if_pos ends]

/-- The first item is read before the others. -/
theorem allItems_next (shortens : BencodeParser.Shortens item)
    (goesOn : parser.rest.head? ≠ some 101) :
    BencodeParser.allItems item parser = (do
        let value ← item
        let values ← BencodeParser.allItems item
        pure (value :: values)) parser := by
  unfold BencodeParser.allItems
  rw [BencodeParser.items_succ, if_neg goesOn, bind_apply, bind_apply]
  cases first : item parser with
  | mk exit after =>
    cases exit with
    | ok value =>
      have shorter := shortens _ _ _ first
      change (BencodeParser.items item parser.rest.length >>= _) after =
        (BencodeParser.items item (after.rest.length + 1) >>= _) after
      rw [bind_apply, bind_apply, BencodeParser.items_eq_of_lt shortens shorter
        (Nat.lt_succ_self _)]
    | error reason => rfl
    | stopped => rfl

theorem Follows.mono (follows : Follows bound depth run parse)
    {smaller : Nat} (le : smaller ≤ bound) :
    Follows smaller depth run parse :=
  fun cursor inside deep small => follows cursor inside deep (small.trans le)

/-- The loop goes through all items, if each round takes one. -/
theorem loop_follows {body : β → Faulty BencodeCursor ProxyError β} {absorb : β → α → β}
    (shortens : BencodeParser.Shortens item)
    (rounds : ∀ values, Follows bound depth (body values) (do pure (absorb values (← item))))
    {fuel : Nat} (enough : bound < fuel) (values : β) :
    Follows bound depth (loop body fuel values)
      (do pure ((← BencodeParser.allItems item).foldl absorb values)) := by
  induction fuel generalizing bound values with
  | zero => exact absurd enough (Nat.not_lt_zero _)
  | succ fuel inductionHypothesis =>
    intro cursor inside deep small
    rw [loop, bind_peek]
    split
    · rename_i ends
      rw [bind_of_eq (allItems_end item ends), bind_assoc]
      exact (skip_agree inside ends).bind fun _ after leads _ =>
        .ok (.refl leads.inside)
    · rename_i goesOn
      rw [bind_of_eq (allItems_next shortens goesOn)]
      have regrouped : (do
            let values' ← (do
              let value ← item
              let others ← BencodeParser.allItems item
              pure (value :: others))
            pure (values'.foldl absorb values)) =
          (do
            let values' ← (do pure (absorb values (← item)))
            pure ((← BencodeParser.allItems item).foldl absorb values')) := by
        simp only [bind_assoc, pure_bind, List.foldl_cons]
      rw [regrouped]
      refine (rounds values cursor inside deep small).bind fun values' after leads parsed => ?_
      have shorter : after.view.rest.length < cursor.view.rest.length :=
        shortens.map (absorb values) _ _ _ parsed
      exact inductionHypothesis
        (fun values => (rounds values).mono (shorter.le.trans small)) (by omega)
        values' after leads.inside (leads.depth_eq.trans deep) (Nat.le_refl _)

/-- A container: its first byte, its items and its end mark. -/
theorem container_agree {γ : Type} {body : β → Faulty BencodeCursor ProxyError β}
    {absorb : β → α → β} (shortens : BencodeParser.Shortens item)
    (rounds : ∀ values, Follows bound cursor.depth (body values) (do pure (absorb values (← item))))
    {fuel : Nat} (enough : bound < fuel) (values : β) (build : β → γ) {byte : UInt8}
    (inside : cursor.Inside) (starts : cursor.view.rest.head? = some byte)
    (small : cursor.view.rest.length ≤ bound) :
    Agree cursor ((do
        skip
        let values ← loop body fuel values
        pure (build values)) cursor)
      ((do
        BencodeParser.skip
        let items ← BencodeParser.allItems item
        pure (build (items.foldl absorb values))) cursor.view) := by
  have all := (loop_follows shortens rounds enough values).map build
  simp only [bind_assoc, pure_bind] at all
  exact (skip_agree inside starts).bind fun _ after leads _ =>
    all after leads.inside leads.depth_eq (leads.rest_length_le.trans small)

theorem foldl_append_singleton (values items : List α) :
    items.foldl (fun values value => values ++ [value]) values = values ++ items := by
  induction items generalizing values with
  | nil => exact (List.append_nil values).symm
  | cons item items inductionHypothesis =>
    rw [List.foldl_cons, inductionHypothesis, List.append_assoc]
    rfl

section Containers

variable {run : Faulty BencodeCursor ProxyError BValue}
  {parse : Faulty BencodeParser ProxyError BValue} {fuel : Nat} {byte : UInt8}

/-- Both read a list alike, if they read its items alike. -/
theorem list_agree (shortens : BencodeParser.Shortens parse)
    (follows : Follows bound cursor.depth run parse) (enough : bound < fuel)
    (inside : cursor.Inside) (starts : cursor.view.rest.head? = some byte)
    (small : cursor.view.rest.length ≤ bound) :
    Agree cursor (list run fuel cursor) (BencodeParser.list parse cursor.view) := by
  have rounds : ∀ values, Follows bound cursor.depth
      (do pure (values ++ [← run])) (do pure (values ++ [← parse])) :=
    fun values => follows.map fun value => values ++ [value]
  have agree := container_agree shortens rounds enough [] BValue.list inside starts small
  simp only [foldl_append_singleton, List.nil_append] at agree
  exact agree

/-- A round of the loop over the entries of a dictionary. -/
theorem addEntry_follows (follows : Follows bound depth run parse)
    (entries : List (List UInt8 × BValue)) :
    Follows bound depth (addEntry run entries) (do
        let entry ← BencodeParser.entry parse
        pure (insertEntry entry.1 entry.2 entries)) := by
  have regrouped : (do
        let entry ← BencodeParser.entry parse
        pure (insertEntry entry.1 entry.2 entries)) =
      (do
        let key ← (do pure (BValue.bytes (← BencodeParser.bytes)))
        match key with
        | .bytes key => do pure (insertEntry key (← parse) entries)
        | _ => stop) := by
    simp only [BencodeParser.entry, bind_assoc, pure_bind]
  rw [regrouped]
  intro cursor inside deep small
  refine (bytes_agree inside).bind fun key after leads parsed => ?_
  obtain ⟨bytes, between, -, ended⟩ := exists_of_bind_eq_ok parsed
  cases ended
  exact follows.map (fun value => insertEntry bytes value entries) after leads.inside
    (leads.depth_eq.trans deep) (leads.rest_length_le.trans small)

/-- Both read a dictionary alike, if they read its entries alike. -/
theorem dict_agree (shortens : BencodeParser.Shortens parse)
    (follows : Follows bound cursor.depth run parse) (enough : bound < fuel)
    (inside : cursor.Inside) (starts : cursor.view.rest.head? = some byte)
    (small : cursor.view.rest.length ≤ bound) :
    Agree cursor (dict run fuel cursor) (BencodeParser.dict parse cursor.view) :=
  container_agree (BencodeParser.entry_shortens shortens) (addEntry_follows follows)
    enough [] BValue.dict inside starts small

/-! ## Nested values -/

theorem leave_eq {depth : Nat} (deeper : cursor.depth = depth + 1)
    (result : Except ProxyError BValue) :
    leave result cursor = ofExcept result { cursor with depth } := by
  have less : checkedSub cursor.depth 1 = some depth :=
    checkedSub_eq_some_iff.mpr (by omega)
  rw [leave, bind_of_ok (gets_apply _ cursor), less]
  rfl

theorem Leads.leave {after : BencodeCursor}
    (leads : Leads { cursor with depth := cursor.depth + 1 } after) :
    Leads cursor { after with depth := cursor.depth } :=
  ⟨leads.input_eq, rfl, leads.forward, leads.inside⟩

/-- A level deeper and back. -/
theorem nested_agree (shallow : cursor.depth < u64Max)
    (agree : Agree { cursor with depth := cursor.depth + 1 }
      (run { cursor with depth := cursor.depth + 1 }) (parse cursor.view)) :
    Agree cursor (nested run cursor) (parse cursor.view) := by
  have deeper : (update fun cursor' : BencodeCursor =>
        { cursor' with depth := cursor.depth + 1 } :
        Faulty BencodeCursor ProxyError Unit) cursor =
      (.ok (), { cursor with depth := cursor.depth + 1 }) := rfl
  unfold nested
  rw [bind_of_ok (gets_apply _ cursor), bind_of_ok (add_eq shallow), bind_of_ok deeper,
    bind_apply, attempt]
  generalize run { cursor with depth := cursor.depth + 1 } = ended at agree
  generalize parse cursor.view = seen at agree
  cases agree with
  | ok leads =>
    simp only [leave_eq leads.depth_eq]
    exact .ok leads.leave
  | error leads =>
    simp only [leave_eq leads.depth_eq]
    exact .error leads.leave

/-- The first byte decides what is parsed. -/
theorem branch_agree {levels : Nat} (shortens : BencodeParser.Shortens (BencodeParser.value levels))
    (follows : Follows bound cursor.depth run (BencodeParser.value levels)) (enough : bound < fuel)
    (inside : cursor.Inside) (small : cursor.view.rest.length ≤ bound) :
    Agree cursor ((do
        match ← peek with
        | none => fail (.parse "invalid bencode value")
        | some byte =>
          if byte = 105 then integer
          else if byte = 108 then list run fuel
          else if byte = 100 then dict run fuel
          else if 48 ≤ byte ∧ byte ≤ 57 then bytes
          else fail (.parse "invalid bencode value")) cursor)
      (BencodeParser.value (levels + 1) cursor.view) := by
  rw [bind_peek]
  unfold BencodeParser.value
  cases starts : cursor.view.rest.head? with
  | none => exact .error (.refl inside)
  | some byte =>
    simp only
    split
    · exact (skip_agree inside starts).bind fun _ after leads _ =>
        digits_agree leads.inside
    · split
      · exact list_agree shortens follows enough inside starts small
      · split
        · exact dict_agree shortens follows enough inside starts small
        · split
          · exact bytes_agree inside
          · exact .error (.refl inside)

/-- The parser with a cursor goes the same way as the one on what is left. -/
theorem value_follows {levels : Nat} (levels_eq : BencodeParser.maxDepth - depth = levels)
    (enough : bound + levels < fuel) :
    Follows bound depth (value fuel) (BencodeParser.value levels) := by
  induction levels generalizing fuel depth with
  | zero =>
    obtain ⟨fuel, rfl⟩ := Nat.exists_eq_add_one.mpr (Nat.zero_lt_of_lt enough)
    intro cursor inside deep _
    have refused : 32 ≤ cursor.depth := by
      rw [deep]
      exact Nat.le_of_sub_eq_zero levels_eq
    rw [value, bind_apply, gets_apply]
    simp only [if_pos refused]
    exact .error (.refl inside)
  | succ levels inductionHypothesis =>
    obtain ⟨fuel, rfl⟩ := Nat.exists_eq_add_one.mpr (Nat.zero_lt_of_lt enough)
    have inner : Follows bound (depth + 1) (value fuel) (BencodeParser.value levels) :=
      inductionHypothesis (by omega) (by omega)
    have shortens := BencodeParser.value_shortens levels
    intro cursor inside deep small
    have allowed : ¬32 ≤ cursor.depth := by
      unfold BencodeParser.maxDepth at levels_eq
      omega
    rw [value, bind_apply, gets_apply]
    simp only [if_neg allowed]
    refine nested_agree (by unfold u64Max; omega) ?_
    rw [← deep] at inner
    exact branch_agree shortens inner (by omega) inside small

end Containers

end Following

/-- Parsing is total, within the input, and reads back every value that is not
nested too deep. -/
theorem bencode_total_complete :
    (∀ (cursor : BencodeCursor) (fuel : Nat), cursor.Inside →
      cursor.input.bytes.length + BencodeParser.maxDepth < fuel →
      ∃ after, after.input = cursor.input ∧ after.Inside ∧
        ((∃ result, value fuel cursor = (.ok result, after)) ∨
          ∃ reason, value fuel cursor = (.error reason, after))) ∧
    ∀ (written : BValue) (rest : List UInt8) (input : ByteSlice) (fuel : Nat),
      written.WellFormed → written.containers ≤ 31 →
      input.bytes = written.encode ++ rest →
      input.bytes.length + BencodeParser.maxDepth < fuel →
      value fuel ⟨input, 0, 0⟩ = (.ok written, ⟨input, written.encode.length, 0⟩) := by
  constructor
  · intro cursor fuel inside enough
    have agree := value_follows rfl
      (Nat.lt_of_le_of_lt (Nat.add_le_add_left (Nat.sub_le _ cursor.depth) _) enough)
      cursor inside rfl (List.drop_suffix _ _).length_le
    generalize value fuel cursor = ended at agree ⊢
    generalize BencodeParser.value _ cursor.view = seen at agree
    cases agree with
    | ok leads => exact ⟨_, leads.input_eq, leads.inside, .inl ⟨_, rfl⟩⟩
    | error leads => exact ⟨_, leads.input_eq, leads.inside, .inr ⟨_, rfl⟩⟩
  · intro written rest input fuel wellFormed shallow input_eq enough
    have bounded : written.encode.length ≤ u64Max := by
      have fits := input.bounded
      rw [input_eq, List.length_append] at fits
      unfold isizeMax at fits
      unfold u64Max
      omega
    have fits : written.Fits BencodeParser.maxDepth :=
      BValue.fits_of_wellFormed wellFormed (Nat.lt_succ_of_le shallow) bounded
    have agree : Agree ⟨input, 0, 0⟩ (value fuel ⟨input, 0, 0⟩) _ :=
      value_follows rfl enough ⟨input, 0, 0⟩ (Nat.zero_le _) rfl (Nat.le_refl _)
    have view_eq : view ⟨input, 0, 0⟩ = ⟨0, written.encode ++ rest⟩ := by
      rw [← input_eq]
      rfl
    have reads := BencodeParser.reads_value fits 0 rest (by omega)
    rw [view_eq, Nat.sub_zero, reads] at agree
    obtain ⟨after, ended, leads, seen_eq⟩ := agree.exists_of_ok
    rw [ended]
    obtain ⟨rfl, depth_eq, -, -⟩ := leads
    have offset_eq : after.offset = written.encode.length := by
      have same := congrArg BencodeParser.offset seen_eq
      change _ = 0 + written.encode.length at same
      rwa [Nat.zero_add] at same
    change after.depth = 0 at depth_eq
    rw [← offset_eq, ← depth_eq]

/-- A list in a dictionary. -/
def nestedList : BValue :=
  .dict [([97], .list [.integer (-5), .bytes [120]])]

theorem bencode_total_complete_nested :
    ∃ input : ByteSlice, input.bytes = nestedList.encode ++ [7] ∧ value 64 ⟨input, 0, 0⟩ =
        (.ok nestedList, ⟨input, nestedList.encode.length, 0⟩) := by
  have wellFormed : nestedList.WellFormed :=
    ⟨by decide, ⟨⟨by decide, by decide⟩, trivial, trivial⟩, trivial⟩
  refine ⟨⟨nestedList.encode ++ [7], by decide +kernel⟩, rfl, ?_⟩
  exact bencode_total_complete.2 nestedList [7] _ 64 wellFormed (by decide) rfl (by decide +kernel)

end BencodeCursor
end P2pNetwork
end VideoProxy
