import VideoProxy.Hls.Registration

/-!
# The references of a playlist

A tag with an attribute list is the name of the tag, a colon, and attributes
`NAME=VALUE` with commas between them, where a value may be quoted.  The references
of a playlist are the lines that are not tags and the values of the quoted
attributes named `URI`.

The rewriting does not read attributes.  It takes any `URI="` for the beginning of a
reference, be it in a title or at the end of a longer name, and the registration
takes any path of the proxy for one.  This module shows that the two together touch
exactly the references just if no tag has either of these elsewhere.
-/

namespace VideoProxy
namespace Hls

open Faulty

/-! ## Attributes -/

/-- A character of the name of a tag or of an attribute. -/
def isNameChar (char : Char) : Bool :=
  char.isUpper || char.isDigit || char = '-'

/-- The parts of a text between the commas that are not inside quotes. -/
def splitItems : Bool → Text → List Text
  | _, [] => [[]]
  | inside, char :: text =>
    if char = ',' ∧ inside = false then [] :: splitItems inside text
    else
      match splitItems (if char = '"' then !inside else inside) text with
      | [] => [[char]]
      | item :: items => (char :: item) :: items

/-- A value is a text between quotes, or one without any. -/
def isAttributeValue : Text → Bool
  | '"' :: rest => rest.getLast? = some '"' && !rest.dropLast.contains '"'
  | value => !value.contains '"'

/-- `NAME=VALUE`, possibly with white space around it. -/
def isAttribute (item : Text) : Bool :=
  match Text.splitOnce '=' (Text.trim item) with
  | none => false
  | some (name, value) => !name.isEmpty && name.all isNameChar && isAttributeValue value

/-- The name of a tag with its colon, and the items of its attribute list, if the
tag has one. -/
def attributeList (line : Text) : Option (Text × List Text) :=
  match Text.splitOnce ':' line with
  | none => none
  | some (tag, list) =>
    let items := splitItems false list
    if tag.tail.all isNameChar && items.all isAttribute then some (tag ++ [':'], items)
    else none

/-- The value of an attribute named `URI` that is not empty, with the text before
and after it. -/
def uriAttribute (item : Text) : Option (Text × Text × Text) :=
  match Text.stripStart needle (item.dropWhile Text.isWhitespace) with
  | none => none
  | some tail =>
    match Text.splitOnce '"' tail with
    | none => none
    | some (value, rest) =>
      if value.isEmpty then none
      else some (item.takeWhile Text.isWhitespace ++ needle, value, '"' :: rest)

/-- The pieces of a line from an item on, with the text since the last reference. -/
def itemPieces : Text → List Text → List Piece
  | before, [] => [.fixed (before ++ ['\n'])]
  | before, item :: items =>
    let comma := if items.isEmpty then [] else [',']
    match uriAttribute item with
    | none => itemPieces (before ++ (item ++ comma)) items
    | some (opening, value, closing) =>
      .fixed (before ++ opening) :: .reference value :: itemPieces (closing ++ comma) items

/-- The pieces of a tag: the values of its `URI` attributes are references. -/
def attributePieces (line : Text) : List Piece :=
  match attributeList line with
  | none => [.fixed (line ++ ['\n'])]
  | some (tag, items) => itemPieces tag items

/-- The pieces of a line: a line that is not a tag is a reference. -/
def playlistLine (line : Text) : List Piece :=
  if line.head? = some '#' then attributePieces line
  else if line.isEmpty then []
  else [.reference line, .fixed ['\n']]

/-- The pieces of a playlist. -/
def playlistPieces (content : Text) : List Piece :=
  (lines content).flatMap playlistLine

/-- The references of a playlist. -/
def playlistReferences (content : Text) : List Text :=
  (playlistPieces content).filterMap Piece.value?

/-- The text begins with `URI="v"` for a value that is not empty. -/
def beginsUri (text : Text) : Bool :=
  match Text.stripStart needle text with
  | none => false
  | some tail =>
    match Text.splitOnce '"' tail with
    | none => false
    | some (value, _) => !value.isEmpty

/-- The text has `URI="v"` somewhere. -/
def mentionsUri : Text → Bool
  | [] => false
  | char :: text => beginsUri (char :: text) || mentionsUri text

/-- Outside of its references, a playlist has neither the path of the proxy nor
anything that looks like a reference. -/
def Unambiguous (content : Text) : Prop :=
  ∀ piece ∈ playlistPieces content, ¬proxyPrefix <:+: (piece.render fun _ => []) ∧
    mentionsUri (piece.render fun _ => []) = false

instance (content : Text) : Decidable (Unambiguous content) :=
  inferInstanceAs (Decidable (∀ piece ∈ playlistPieces content, _))

/-! ## The pieces of a line -/

/-- The pieces of a line with its line feed: each reference stands between `URI="`
and the next quote. -/
inductive Spells : Text → List Piece → Prop
  | last (text : Text) : Spells text [.fixed (text ++ ['\n'])]
  | reference {front value rest pieces}
      (nonempty : value ≠ [])
      (unquoted : '"' ∉ value)
      (others : Spells ('"' :: rest) pieces) :
      Spells (front ++ (needle ++ (value ++ '"' :: rest)))
        (.fixed (front ++ needle) :: .reference value :: pieces)

theorem splitItems_ne_nil (inside : Bool) (text : Text) : splitItems inside text ≠ [] := by
  cases text with
  | nil => exact List.cons_ne_nil _ _
  | cons char text =>
    rw [splitItems]
    split
    · exact List.cons_ne_nil _ _
    · split
      · exact List.cons_ne_nil _ _
      · exact List.cons_ne_nil _ _

theorem intercalate_cons (item : Text) (items : List Text) :
    [','].intercalate (item :: items) =
      item ++ ((if items.isEmpty then [] else [',']) ++ [','].intercalate items) := by
  cases items with
  | nil => simp [List.intercalate]
  | cons other items => simp [List.intercalate]

theorem intercalate_splitItems (inside : Bool) (text : Text) :
    [','].intercalate (splitItems inside text) = text := by
  induction text generalizing inside with
  | nil => rfl
  | cons char text inductionHypothesis =>
    rw [splitItems]
    split
    · rename_i separates
      rw [intercalate_cons, inductionHypothesis, separates.1, List.isEmpty_eq_false_iff.mpr
        (splitItems_ne_nil inside text)]
      rfl
    · have rest_eq := inductionHypothesis (if char = '"' then !inside else inside)
      split
      · rename_i none
        exact absurd none (splitItems_ne_nil _ _)
      · rename_i item items split_eq
        rw [split_eq, intercalate_cons] at rest_eq
        rw [intercalate_cons, List.cons_append, rest_eq]

theorem uriAttribute_eq_some
    {item opening value closing : Text}
    (found : uriAttribute item = some (opening, value, closing)) :
    ∃ front rest, opening = front ++ needle ∧ closing = '"' :: rest ∧ value ≠ [] ∧
      '"' ∉ value ∧ item = opening ++ (value ++ closing) := by
  unfold uriAttribute at found
  split at found
  · cases found
  · rename_i tail stripped
    split at found
    · cases found
    · rename_i whole quoted
      split at found
      · cases found
      · rename_i nonempty
        cases found
        refine ⟨_, _, rfl, rfl, by simpa using nonempty, Text.not_mem_of_splitOnce quoted, ?_⟩
        rw [List.append_assoc, ← Text.eq_of_splitOnce quoted, ← Text.eq_of_stripStart stripped,
          List.takeWhile_append_dropWhile]

theorem itemPieces_spells (before : Text) (items : List Text) :
    Spells (before ++ [','].intercalate items) (itemPieces before items) := by
  induction items generalizing before with
  | nil =>
    rw [itemPieces, List.intercalate_nil, List.append_nil]
    exact .last before
  | cons item items inductionHypothesis =>
    rw [itemPieces, intercalate_cons]
    cases found : uriAttribute item with
    | none =>
      have others := inductionHypothesis
        (before ++ (item ++ if items.isEmpty then [] else [',']))
      rw [List.append_assoc, List.append_assoc] at others
      exact others
    | some parts =>
      obtain ⟨opening, value, closing⟩ := parts
      obtain ⟨front, rest, rfl, rfl, nonempty, unquoted, rfl⟩ := uriAttribute_eq_some found
      have others := inductionHypothesis ('"' :: rest ++ if items.isEmpty then [] else [','])
      rw [List.cons_append, List.cons_append, List.append_assoc] at others
      have spells := @Spells.reference (before ++ front) _ _ _ nonempty unquoted others
      simp only [List.append_assoc, List.cons_append] at spells ⊢
      exact spells

theorem attributePieces_spells (line : Text) : Spells line (attributePieces line) := by
  unfold attributePieces attributeList
  cases split_eq : Text.splitOnce ':' line with
  | none => exact .last line
  | some parts =>
    obtain ⟨tag, list⟩ := parts
    simp only
    split
    · exact .last line
    · rename_i start items found
      split at found
      · cases found
        have spells := itemPieces_spells (tag ++ [':']) (splitItems false list)
        rw [intercalate_splitItems, List.append_assoc, List.singleton_append,
          ← Text.eq_of_splitOnce split_eq] at spells
        exact spells
      · cases found

section Spelling

variable {line : Text} {pieces : List Piece}

/-- The pieces are the text of the line. -/
theorem Spells.text_eq (spells : Spells line pieces) :
    pieces.flatMap (Piece.render id) = line ++ ['\n'] := by
  induction spells with
  | last text => simp [Piece.render]
  | reference _ _ _ inductionHypothesis =>
    simp only [List.flatMap_cons, Piece.render, inductionHypothesis, id]
    simp

/-- After a reference comes the closing quote. -/
theorem Spells.shaped (spells : Spells line pieces) :
    Shaped pieces ∧ ∀ rest, line = '"' :: rest →
      ∃ text others, pieces = .fixed ('"' :: text) :: others := by
  induction spells with
  | last text =>
    refine ⟨.fixed separates_lineFeed .nil, fun rest line_eq => ?_⟩
    rw [line_eq]
    exact ⟨_, _, rfl⟩
  | @reference front value rest pieces _ _ _ inductionHypothesis =>
    obtain ⟨shaped, opens⟩ := inductionHypothesis
    obtain ⟨text, others, rfl⟩ := opens rest rfl
    refine ⟨Shaped.opening (.reference separates_quote shaped) front, fun tail line_eq => ?_⟩
    cases front with
    | nil => cases line_eq
    | cons char front =>
      cases line_eq
      exact ⟨_, _, rfl⟩

end Spelling

theorem playlistPieces_shaped (content : Text) : Shaped (playlistPieces content) := by
  unfold playlistPieces
  induction lines content with
  | nil => exact .nil
  | cons line others inductionHypothesis =>
    rw [List.flatMap_cons]
    refine Shaped.append ?_ inductionHypothesis
    unfold playlistLine
    split
    · exact (attributePieces_spells line).shaped.1
    · split
      · exact .nil
      · exact shaped_line line

/-- The pieces of a playlist are its lines that are not empty. -/
theorem playlistPieces_text (content : Text) :
    (playlistPieces content).flatMap (Piece.render id) =
      ((lines content).filter (!·.isEmpty)).flatMap (· ++ ['\n']) := by
  unfold playlistPieces
  induction lines content with
  | nil => rfl
  | cons line others inductionHypothesis =>
    rw [List.flatMap_cons, List.flatMap_append, inductionHypothesis, playlistLine]
    split
    · rename_i tag
      have nonempty : line.isEmpty = false := by
        cases line with
        | nil => cases tag
        | cons char line => rfl
      simp [(attributePieces_spells line).text_eq, nonempty]
    · split
      · rename_i empty
        simp [empty]
      · rename_i nonempty
        simp [nonempty, Piece.render]

/-! ## What the scan takes for a reference -/

theorem beginsUri_iff {text : Text} :
    beginsUri text = true ↔ ∃ value rest, value ≠ [] ∧ '"' ∉ value ∧
      text = needle ++ (value ++ '"' :: rest) := by
  unfold beginsUri
  constructor
  · intro begins
    split at begins
    · cases begins
    · rename_i tail stripped
      split at begins
      · cases begins
      · rename_i value rest quoted
        refine ⟨value, rest, by simpa using begins, Text.not_mem_of_splitOnce quoted, ?_⟩
        rw [← Text.eq_of_splitOnce quoted, ← Text.eq_of_stripStart stripped]
  · rintro ⟨value, rest, nonempty, unquoted, rfl⟩
    simp [Text.splitOnce_append unquoted, nonempty]

theorem mentionsUri_iff {text : Text} :
    mentionsUri text = true ↔ ∃ before value rest, value ≠ [] ∧ '"' ∉ value ∧
      text = before ++ (needle ++ (value ++ '"' :: rest)) := by
  induction text with
  | nil => simp [mentionsUri, needle]
  | cons char text inductionHypothesis =>
    rw [mentionsUri, Bool.or_eq_true, beginsUri_iff, inductionHypothesis]
    constructor
    · rintro (⟨value, rest, nonempty, unquoted, text_eq⟩ |
        ⟨before, value, rest, nonempty, unquoted, rfl⟩)
      · exact ⟨[], value, rest, nonempty, unquoted, text_eq⟩
      · exact ⟨char :: before, value, rest, nonempty, unquoted, rfl⟩
    · rintro ⟨before, value, rest, nonempty, unquoted, text_eq⟩
      cases before with
      | nil => exact .inl ⟨value, rest, nonempty, unquoted, text_eq⟩
      | cons _ before =>
        cases text_eq
        exact .inr ⟨before, value, rest, nonempty, unquoted, rfl⟩

/-- `URI="` does not overlap itself. -/
theorem eq_needle_append
    {char : Char}
    {front text : Text}
    (here : needle <+: char :: (front ++ (needle ++ text))) :
    ∃ tail, char :: front = needle ++ tail := by
  have needle_eq : needle = ['U', 'R', 'I', '=', '"'] := by decide
  rw [needle_eq] at here ⊢
  match front with
  | [] | [_] | [_, _] | [_, _, _] => simp at here
  | second :: third :: fourth :: fifth :: tail =>
    simp only [List.cons_append, List.cons_prefix_cons] at here
    obtain ⟨rfl, rfl, rfl, rfl, rfl, -⟩ := here
    exact ⟨tail, rfl⟩

/-- Of two places that look like references, the first is the second or ends before
the value of the second begins. -/
theorem first_place
    {before after value other rest more : Text}
    (unquoted : '"' ∉ value)
    (otherUnquoted : '"' ∉ other)
    (same : before ++ (needle ++ (value ++ '"' :: rest)) =
      after ++ (needle ++ (other ++ '"' :: more)))
    (le : before.length ≤ after.length) :
    (before = after ∧ value = other ∧ rest = more) ∨
      ∃ between, after ++ needle = before ++ (needle ++ (value ++ '"' :: between)) := by
  obtain ⟨tail, rfl⟩ : ∃ tail, after = before ++ tail := by
    have begins := List.prefix_of_prefix_length_le (List.prefix_append before _)
      (same ▸ List.prefix_append after _) le
    exact begins.imp fun _ => Eq.symm
  rw [List.append_assoc, List.append_cancel_left_eq] at same
  cases tail with
  | nil =>
    rw [List.nil_append, List.append_cancel_left_eq] at same
    exact .inl ⟨(List.append_nil before).symm, Text.append_cons_inj unquoted otherUnquoted same⟩
  | cons char tail =>
    obtain ⟨inner, tail_eq⟩ := eq_needle_append (show needle <+: char :: (tail ++ _) from
      same ▸ List.prefix_append _ _)
    -- The quote at the end of the second one is the last that can close the first.
    obtain ⟨first, between, inner_eq, firstUnquoted⟩ :=
      List.eq_append_cons_of_mem (show '"' ∈ inner ++ needle by simp [needle])
    rw [tail_eq, List.append_assoc, List.append_cancel_left_eq, ← List.append_assoc inner,
      inner_eq, List.append_assoc, List.cons_append] at same
    obtain ⟨rfl, -⟩ := Text.append_cons_inj unquoted firstUnquoted same
    refine .inr ⟨between, ?_⟩
    rw [List.append_assoc, tail_eq, List.append_assoc, inner_eq]

section Scan

variable {text : Text}

/-- Where `URI="` does not begin, the scan goes on with the next character. -/
theorem render_tagPieces_cons
    {char : Char}
    (notHere : ¬needle <+: char :: text)
    (fuel : Nat)
    (write : Text → Text) :
    (tagPieces fuel (char :: text)).flatMap (Piece.render write) =
      char :: (tagPieces fuel text).flatMap (Piece.render write) := by
  cases fuel with
  | zero => simp [tagPieces, Piece.render]
  | succ fuel =>
    rw [tagPieces, tagPieces, splitFirst, if_neg notHere]
    cases splitFirst needle text with
    | none => simp [Piece.render]
    | some parts =>
      cases quoted : Text.splitOnce '"' parts.2 with
      | none => simp [quoted, Piece.render]
      | some valueAndRest => simp [quoted, Piece.render]

theorem render_tagPieces_quote (rest : Text) (fuel : Nat) (write : Text → Text) :
    (tagPieces fuel ('"' :: rest)).flatMap (Piece.render write) =
      '"' :: (tagPieces fuel rest).flatMap (Piece.render write) := by
  apply render_tagPieces_cons
  intro here
  cases (List.cons_prefix_cons.mp here).1

theorem mentionsUri_needle (tail : Text) :
    mentionsUri (needle ++ tail) = (beginsUri (needle ++ tail) || mentionsUri tail) :=
  rfl

/-- Nothing counts before the first `URI="`. -/
theorem mentionsUri_of_first
    {before : Text}
    (clear : ¬needle <:+: before ++ needle.dropLast)
    (tail : Text) :
    mentionsUri (before ++ (needle ++ tail)) = mentionsUri (needle ++ tail) := by
  induction before with
  | nil => rfl
  | cons char before inductionHypothesis =>
    have notHere : beginsUri (char :: (before ++ (needle ++ tail))) = false := by
      rw [Bool.eq_false_iff]
      intro begins
      obtain ⟨value, rest, -, -, text_eq⟩ := beginsUri_iff.mp begins
      obtain ⟨inner, before_eq⟩ := eq_needle_append ⟨_, text_eq.symm⟩
      apply clear
      rw [before_eq]
      exact ((List.prefix_append _ _).trans (List.prefix_append _ _)).isInfix
    rw [List.cons_append, mentionsUri, notHere, Bool.false_or]
    exact inductionHypothesis fun occurs => clear (occurs.trans (List.suffix_cons _ _).isInfix)

theorem mentionsUri_of_unquoted (unquoted : '"' ∉ text) : mentionsUri text = false := by
  rw [Bool.eq_false_iff]
  intro mentions
  obtain ⟨before, value, rest, -, -, rfl⟩ := mentionsUri_iff.mp mentions
  exact unquoted (by simp)

theorem mentionsUri_of_absent (absent : ¬needle <:+: text) :
    mentionsUri (text ++ ['\n']) = false := by
  rw [Bool.eq_false_iff]
  intro mentions
  obtain ⟨before, value, rest, -, -, text_eq⟩ := mentionsUri_iff.mp mentions
  have occurs : needle <:+: text ++ '\n' :: [] :=
    ⟨before, value ++ '"' :: rest, by rw [text_eq, List.append_assoc]⟩
  rw [infix_append_cons_iff (by decide) (by decide)] at occurs
  rcases occurs with inText | inNothing
  · exact absent inText
  · exact absurd inNothing (by decide)

/-- A value that no quote closes is no reference. -/
theorem mentionsUri_of_unclosed (unclosed : Text.splitOnce '"' text = none) :
    mentionsUri (needle ++ (text ++ ['\n'])) = false := by
  have unquoted : '"' ∉ text ++ ['\n'] := by
    intro member
    rcases List.mem_append.mp member with inText | last
    · obtain ⟨first, rest, rfl, absent⟩ := List.eq_append_cons_of_mem inText
      rw [Text.splitOnce_append absent] at unclosed
      cases unclosed
    · exact absurd last (by decide)
  rw [mentionsUri_needle, mentionsUri_of_unquoted unquoted, Bool.or_false, Bool.eq_false_iff]
  intro begins
  obtain ⟨value, rest, -, -, text_eq⟩ := beginsUri_iff.mp begins
  rw [List.append_cancel_left text_eq] at unquoted
  exact unquoted (by simp)

/-- The scan leaves a line alone, or finds the first place that looks like a
reference and goes on at the quote after it. -/
theorem tagPieces_cases {fuel : Nat} (enough : text.length ≤ fuel) :
    (mentionsUri (text ++ ['\n']) = false ∧
      ∀ write, (tagPieces fuel text).flatMap (Piece.render write) = text ++ ['\n']) ∨
    ∃ before value rest less, value ≠ [] ∧ '"' ∉ value ∧
      text = before ++ (needle ++ (value ++ '"' :: rest)) ∧
      mentionsUri (before ++ needle) = false ∧ ('"' :: rest).length ≤ less ∧
      ∀ write, (tagPieces fuel text).flatMap (Piece.render write) =
        before ++ (needle ++ (write value ++
          (tagPieces less ('"' :: rest)).flatMap (Piece.render write))) := by
  induction fuel generalizing text with
  | zero =>
    cases List.length_eq_zero_iff.mp (Nat.le_zero.mp enough)
    exact .inl ⟨rfl, fun _ => rfl⟩
  | succ fuel inductionHypothesis =>
    cases found : splitFirst needle text with
    | none =>
      exact .inl ⟨mentionsUri_of_absent (splitFirst_eq_none_iff.mp found),
        fun write => by simp [tagPieces, found, Piece.render]⟩
    | some parts =>
      obtain ⟨before, tail⟩ := parts
      obtain ⟨rfl, clear⟩ := (splitFirst_eq_some found).resolve_right (by decide)
      cases quoted : Text.splitOnce '"' tail with
      | none =>
        refine .inl ⟨?_, fun write => by simp [tagPieces, found, quoted, Piece.render]⟩
        rw [List.append_assoc, List.append_assoc, mentionsUri_of_first clear,
          mentionsUri_of_unclosed quoted]
      | some valueAndRest =>
        obtain ⟨value, rest⟩ := valueAndRest
        have absent := Text.not_mem_of_splitOnce quoted
        have tail_eq := Text.eq_of_splitOnce quoted
        subst tail_eq
        by_cases empty : value = []
        · subst empty
          -- An empty value is passed over.
          have render_eq (write : Text → Text) :
              (tagPieces (fuel + 1) (before ++ (needle ++ '"' :: rest))).flatMap
                  (Piece.render write) =
                before ++ (needle ++ '"' :: (tagPieces fuel rest).flatMap
                  (Piece.render write)) := by
            rw [List.nil_append] at found quoted
            simp [tagPieces, found, quoted, Piece.render]
          have counts (more : Text) : mentionsUri (before ++ (needle ++ '"' :: more)) =
              mentionsUri more := by
            rw [mentionsUri_of_first clear]
            rfl
          have shorter : rest.length ≤ fuel := by
            simp only [List.length_append, List.length_cons] at enough
            omega
          simp only [List.nil_append, render_eq]
          rcases inductionHypothesis shorter with ⟨clearRest, rest_eq⟩ |
            ⟨front, other, more, less, nonempty, unquoted, rfl, clearFront, room, rest_eq⟩
          · refine .inl ⟨?_, fun write => ?_⟩
            · rw [List.append_assoc, List.append_assoc, List.cons_append, counts, clearRest]
            · rw [rest_eq]
              simp
          · refine .inr ⟨before ++ (needle ++ '"' :: front), other, more, less, nonempty,
              unquoted, by simp, ?_, room, fun write => ?_⟩
            · rw [List.append_assoc, List.append_assoc, List.cons_append, counts, clearFront]
            · rw [rest_eq]
              simp
        · refine .inr ⟨before, value, rest, fuel, empty, absent, rfl, ?_, ?_, fun write => ?_⟩
          · rw [← List.append_nil needle, mentionsUri_of_first clear]
            decide
          · simp only [List.length_append, List.length_cons] at enough ⊢
            have long : 1 ≤ needle.length := by decide
            omega
          · rw [render_tagPieces_quote]
            simp [tagPieces, found, quoted, empty, Piece.render]

end Scan

/-! ## Places in a text -/

/-- After so many quotes and one more comes the value, and then a quote. -/
def At (place : Nat) (value text : Text) : Prop :=
  ∃ before after, text = before ++ '"' :: (value ++ '"' :: after) ∧ before.count '"' = place

section Places

variable {place : Nat} {value other text : Text}

theorem At.unique
    (here : At place value text)
    (there : At place other text)
    (unquoted : '"' ∉ value)
    (otherUnquoted : '"' ∉ other) :
    value = other := by
  obtain ⟨before, after, rfl, rfl⟩ := here
  obtain ⟨front, back, same, count_eq⟩ := there
  induction before generalizing front with
  | nil =>
    cases front with
    | nil =>
      exact (Text.append_cons_inj unquoted otherUnquoted (List.cons.inj same).2).1
    | cons char front =>
      cases (List.cons.inj same).1
      simp at count_eq
  | cons char before inductionHypothesis =>
    cases front with
    | nil =>
      cases (List.cons.inj same).1
      simp at count_eq
    | cons char front =>
      obtain ⟨rfl, rest_eq⟩ := List.cons.inj same
      refine inductionHypothesis front rest_eq ?_
      rw [List.count_cons, List.count_cons] at count_eq
      omega

theorem At.within (here : At place value text) (front back : Text) :
    At (front.count '"' + place) value (front ++ (text ++ back)) := by
  obtain ⟨before, after, rfl, rfl⟩ := here
  exact ⟨front ++ before, after ++ back, by simp, List.count_append⟩

end Places

theorem not_mem_mediaPath (id : Nat) : '"' ∉ mediaPath id := by
  intro member
  rcases List.mem_append.mp member with inPath | inId
  · exact absurd inPath (by decide)
  · exact Text.not_mem_decimal (by decide) id inId

/-- The quotes of pieces are those of their fixed texts. -/
def quotes (pieces : List Piece) : Nat :=
  (pieces.flatMap (Piece.render fun _ => [])).count '"'

theorem count_render
    {write : Text → Text}
    (unquoted : ∀ value, '"' ∉ write value)
    (pieces : List Piece) :
    (pieces.flatMap (Piece.render write)).count '"' = quotes pieces := by
  unfold quotes
  induction pieces with
  | nil => rfl
  | cons piece pieces inductionHypothesis =>
    rw [List.flatMap_cons, List.flatMap_cons, List.count_append, List.count_append,
      inductionHypothesis]
    cases piece with
    | fixed text => rfl
    | reference value => rw [Piece.render, List.count_eq_zero_of_not_mem (unquoted value)]; rfl

theorem Renders.exists_of_append
    {resolves : Text → Nat → Prop}
    {front back : List Piece}
    {output : Text}
    (renders : Renders resolves (front ++ back) output) :
    ∃ first second, output = first ++ second ∧ first.count '"' = quotes front ∧
      Renders resolves front first ∧ Renders resolves back second := by
  induction front generalizing output with
  | nil => exact ⟨[], output, rfl, rfl, .nil, renders⟩
  | cons piece front inductionHypothesis =>
    cases renders with
    | fixed others =>
      obtain ⟨first, second, rfl, count_eq, renders, rest⟩ := inductionHypothesis others
      refine ⟨_, second, (List.append_assoc ..).symm, ?_, .fixed renders, rest⟩
      rw [quotes, List.flatMap_cons, List.count_append, List.count_append, count_eq]
      rfl
    | @reference _ id _ _ here others =>
      obtain ⟨first, second, rfl, count_eq, renders, rest⟩ := inductionHypothesis others
      refine ⟨_, second, (List.append_assoc ..).symm, ?_, .reference here renders, rest⟩
      rw [List.count_append, List.count_eq_zero_of_not_mem (not_mem_mediaPath id), count_eq,
        Nat.zero_add]
      rfl

/-! ## The first pass -/

/-- What is written is the pieces, and they hold nothing else that looks like a
reference. -/
def Follows (pieces : List Piece) (written : (Text → Text) → Text) : Prop :=
  (∀ text, .fixed text ∈ pieces → mentionsUri text = false) ∧
    ∀ write, written write = pieces.flatMap (Piece.render write)

/-- At some place a value is written for that should stay, since it is no
reference. -/
def GoesAstray (pieces : List Piece) (written : (Text → Text) → Text) : Prop :=
  ∃ place value, '"' ∉ value ∧
    (∃ text, .fixed text ∈ pieces ∧ mentionsUri text = true) ∧
    (∀ write, (∀ value, '"' ∉ write value) → At place (write value) (written write)) ∧
    ∀ resolves output, Renders resolves pieces output → At place value output

/-- What goes astray does so with more before and after it. -/
theorem GoesAstray.within
    {pieces : List Piece}
    {written longer : (Text → Text) → Text}
    (astray : GoesAstray pieces written)
    (front back : List Piece)
    (longer_eq : ∀ write, ∃ more, longer write =
      front.flatMap (Piece.render write) ++ (written write ++ more)) :
    GoesAstray (front ++ (pieces ++ back)) longer := by
  obtain ⟨place, value, unquoted, ⟨text, member, mentions⟩, wrote, stays⟩ := astray
  refine ⟨quotes front + place, value, unquoted, ⟨text, by simp [member], mentions⟩,
    fun write clean => ?_, fun resolves output renders => ?_⟩
  · obtain ⟨more, here⟩ := longer_eq write
    rw [here, ← count_render clean front]
    exact (wrote write clean).within _ more
  · obtain ⟨first, second, rfl, count_eq, -, others⟩ := renders.exists_of_append
    obtain ⟨middle, last, rfl, -, renders, -⟩ := others.exists_of_append
    rw [← count_eq]
    exact (stays resolves middle renders).within first last

/-- What looks like a reference inside a fixed text leads the scan astray. -/
theorem goesAstray_of_fixed
    {before value between rest : Text}
    {less : Nat}
    {written : (Text → Text) → Text}
    (nonempty : value ≠ [])
    (unquoted : '"' ∉ value)
    (others : List Piece)
    (written_eq : ∀ write, written write = before ++ (needle ++ (write value ++
      (tagPieces less ('"' :: rest)).flatMap (Piece.render write)))) :
    GoesAstray (.fixed (before ++ (needle ++ (value ++ '"' :: between))) :: others) written := by
  have opening (more : Text) : before ++ (needle ++ more) =
      (before ++ needle.dropLast) ++ '"' :: more := by
    rw [List.append_assoc]
    rfl
  refine ⟨(before ++ needle.dropLast).count '"', value, unquoted,
    ⟨_, List.mem_cons_self, mentionsUri_iff.mpr ⟨_, _, _, nonempty, unquoted, rfl⟩⟩,
    fun write _ => ?_, fun resolves output renders => ?_⟩
  · rw [written_eq, render_tagPieces_quote, opening]
    exact ⟨_, _, rfl, rfl⟩
  · cases renders with
    | @fixed _ _ rest _ =>
      rw [opening]
      exact ⟨_, between ++ rest, by simp, rfl⟩

/-- The scan of a line writes its pieces, or goes astray. -/
theorem Spells.follows_or_astray
    {line : Text}
    {pieces : List Piece}
    (spells : Spells line pieces)
    {fuel : Nat}
    (enough : line.length ≤ fuel) :
    Follows pieces (fun write => (tagPieces fuel line).flatMap (Piece.render write)) ∨
      GoesAstray pieces fun write => (tagPieces fuel line).flatMap (Piece.render write) := by
  induction spells generalizing fuel with
  | last text =>
    rcases tagPieces_cases enough with ⟨clear, render_eq⟩ |
      ⟨before, value, rest, less, nonempty, unquoted, rfl, -, -, render_eq⟩
    · refine .inl ⟨fun other member => ?_, fun write => ?_⟩
      · cases List.mem_singleton.mp member
        exact clear
      · exact (render_eq write).trans (List.append_nil _).symm
    · right
      have text_eq : before ++ (needle ++ (value ++ '"' :: rest)) ++ ['\n'] =
          before ++ (needle ++ (value ++ '"' :: (rest ++ ['\n']))) := by
        simp
      rw [text_eq]
      exact goesAstray_of_fixed nonempty unquoted [] render_eq
  | @reference front value rest pieces nonempty unquoted _ inductionHypothesis =>
    rcases tagPieces_cases enough with ⟨clear, -⟩ |
      ⟨before, other, more, less, otherNonempty, otherUnquoted, line_eq, clear, room, render_eq⟩
    · rw [mentionsUri_iff.mpr ⟨front, value, rest ++ ['\n'], nonempty, unquoted, by simp⟩] at clear
      cases clear
    · rcases Nat.lt_or_ge front.length before.length with lt | le
      · rcases first_place unquoted otherUnquoted line_eq lt.le with
          ⟨rfl, -⟩ | ⟨between, before_eq⟩
        · exact absurd lt (Nat.lt_irrefl _)
        · rw [before_eq, mentionsUri_iff.mpr ⟨_, _, _, nonempty, unquoted, rfl⟩] at clear
          cases clear
      · rcases first_place otherUnquoted unquoted line_eq.symm le with
          ⟨rfl, rfl, rfl⟩ | ⟨between, front_eq⟩
        · have written_eq (write : Text → Text) := (render_eq write).trans
            (show _ = [Piece.fixed (before ++ needle), .reference other].flatMap
                (Piece.render write) ++ (tagPieces less ('"' :: more)).flatMap
                  (Piece.render write) by simp [Piece.render])
          rcases inductionHypothesis room with ⟨othersClear, others_eq⟩ | astray
          · refine .inl ⟨fun text member => ?_, fun write => ?_⟩
            · rcases List.mem_cons.mp member with same | later
              · cases same
                exact clear
              · exact othersClear text (List.mem_of_ne_of_mem (by simp) later)
            · refine (written_eq write).trans ?_
              rw [show (tagPieces less ('"' :: more)).flatMap (Piece.render write) = _ from
                others_eq write, ← List.flatMap_append]
              rfl
          · have within := astray.within [.fixed (before ++ needle), .reference other] []
              fun write => ⟨[], (written_eq write).trans (congrArg _ (List.append_nil _).symm)⟩
            rw [List.append_nil] at within
            exact .inr within
        · rw [front_eq]
          exact .inr (goesAstray_of_fixed otherNonempty otherUnquoted _ render_eq)

theorem playlistLine_follows_or_astray (line : Text) :
    Follows (playlistLine line)
        (fun write => (linePieces line).flatMap (Piece.render write)) ∨
      GoesAstray (playlistLine line) fun write =>
        (linePieces line).flatMap (Piece.render write) := by
  unfold playlistLine linePieces
  by_cases tag : line.head? = some '#'
  · simp only [if_pos tag]
    exact (attributePieces_spells line).follows_or_astray (Nat.le_refl line.length)
  · simp only [if_neg tag]
    refine .inl ⟨fun text member => ?_, fun _ => rfl⟩
    split at member
    · cases member
    · cases List.mem_singleton.mp (List.mem_of_ne_of_mem (by simp) member)
      rfl

/-- The first pass writes the pieces of a playlist, or goes astray. -/
theorem follows_or_astray (content : Text) :
    Follows (playlistPieces content)
        (fun write => (pieces content).flatMap (Piece.render write)) ∨
      GoesAstray (playlistPieces content) fun write =>
        (pieces content).flatMap (Piece.render write) := by
  unfold pieces playlistPieces
  induction lines content with
  | nil => exact .inl ⟨(fun _ absurdly => nomatch absurdly), fun _ => rfl⟩
  | cons line others inductionHypothesis =>
    simp only [List.flatMap_cons, List.flatMap_append]
    rcases playlistLine_follows_or_astray line with ⟨clear, line_eq⟩ | astray
    · rcases inductionHypothesis with ⟨othersClear, others_eq⟩ | astray
      · refine .inl ⟨fun text member => ?_, fun write => ?_⟩
        · exact (List.mem_append.mp member).elim (clear text) (othersClear text)
        · rw [List.flatMap_append]
          exact congrArg₂ (· ++ ·) (line_eq write) (others_eq write)
      · have within := astray.within (playlistLine line) [] fun write =>
          ⟨[], congrArg₂ (· ++ ·) (line_eq write) (List.append_nil _).symm⟩
        rw [List.append_nil] at within
        exact .inr within
    · exact .inr (astray.within [] _ fun write => ⟨_, rfl⟩)

/-! ## The second pass -/

section Registering

open NumberedRegistry

variable {parse : Text → Option ParsedUrl} {registry after : NumberedRegistry} {first : Nat}

/-- A registry without sources that hands out ids from a given one on. -/
def countingFrom (first : Nat) : NumberedRegistry :=
  { NumberedRegistry.new with nextId := first }

theorem countingFrom_roomy
    {count : Nat}
    (positive : 0 < first)
    (small : first + maxRegisteredSources < 2 ^ 64)
    (fits : count ≤ maxRegisteredSources) :
    (countingFrom first).Roomy count := by
  refine ⟨?_, fun _ _ _ => rfl, positive, ?_⟩
  · change 0 + count ≤ maxRegisteredSources
    omega
  · change first + count < 2 ^ 64
    omega

/-- The registry handed out the ids from a given one on. -/
structure CountsFrom (first : Nat) (registry : NumberedRegistry) : Prop where
  positive : 0 < first
  small : first + maxRegisteredSources < 2 ^ 64
  listed : ∀ entry ∈ registry.entries.entries, first ≤ entry.1 ∧ entry.1 < registry.nextId
  next : registry.nextId = first + registry.entries.entries.length
  fits : registry.entries.entries.length ≤ maxRegisteredSources

theorem CountsFrom.registers
    (counts : CountsFrom first registry)
    {identity url : Text}
    {id : Nat}
    (registered : registerOrReuse parse identity url registry = (.ok id, after)) :
    first ≤ id ∧ id < first + maxRegisteredSources ∧ CountsFrom first after := by
  obtain ⟨positive, small, listed, next, fits⟩ := counts
  unfold registerOrReuse at registered
  split at registered
  · cases registered
  · split at registered
    · cases registered
    · split at registered
      · rename_i entry found
        cases registered
        have bounds := listed entry (List.mem_of_find?_eq_some found)
        exact ⟨bounds.1, by omega, positive, small, listed, next, fits⟩
      · split at registered
        · cases registered
        · rw [followingId_of_lt (by omega) (by omega)] at registered
          cases registered
          have fresh : registry.nextId ∉ registry.entries := by
            intro member
            obtain ⟨entry, inTable, same⟩ := List.mem_map.mp (AList.mem_keys.mp member)
            have below := (listed entry inTable).2
            omega
          refine ⟨by omega, by omega, positive, small, ?_, ?_, ?_⟩
          all_goals simp only [AList.entries_insert_of_notMem fresh, List.length_cons]
          · refine List.forall_mem_cons.mpr ⟨⟨?_, Nat.lt_succ_self _⟩, fun entry inTable => ?_⟩
            · change first ≤ registry.nextId
              omega
            · have bounds := listed entry inTable
              exact ⟨bounds.1, by omega⟩
          · omega
          · omega

/-- The pass keeps the quotes. -/
theorem CountsFrom.passes
    {text output : Text}
    (counts : CountsFrom first registry)
    (ended : registerRewrittenSources parse text registry = (.ok output, after)) :
    output.count '"' = text.count '"' ∧ CountsFrom first after := by
  induction text using pass_induction generalizing registry output with
  | clear text clear =>
    rw [registerRewrittenSources_of_clear clear] at ended
    cases ended
    exact ⟨rfl, counts⟩
  | step text before tail found inductionHypothesis =>
    rw [registerRewrittenSources_of_split found] at ended
    obtain ⟨path, middle, written, ended⟩ := exists_of_bind_eq_ok ended
    obtain ⟨others, final, later, ended⟩ := exists_of_bind_eq_ok ended
    cases ended
    obtain ⟨_, id, -, registered, rfl⟩ := registerReference_eq_ok written
    obtain ⟨count_eq, counts⟩ := inductionHypothesis (counts.registers registered).2.2 later
    refine ⟨?_, counts⟩
    have unquoted : '"' ∉ tail.takeWhile (!endsReference ·) := by
      intro member
      exact absurd (List.mem_takeWhile_imp member) (by decide)
    have tail_eq := congrArg (List.count '"')
      (List.takeWhile_append_dropWhile (p := (!endsReference ·)) (l := tail))
    rw [List.count_append, List.count_eq_zero_of_not_mem unquoted] at tail_eq
    rw [((splitFirst_eq_some found).resolve_right proxyPrefix_ne_nil).1]
    simp only [List.count_append, count_eq,
      List.count_eq_zero_of_not_mem (not_mem_mediaPath id), ← tail_eq,
      List.count_eq_zero_of_not_mem (show '"' ∉ proxyPrefix by decide)]
    omega

/-- The second pass puts an id in the place of what the first pass wrote. -/
theorem registerRewrittenSources_at
    {value text output : Text}
    {place : Nat}
    (counts : CountsFrom first registry)
    (here : At place (pushProxied value "/proxy".toList) text)
    (ended : registerRewrittenSources parse text registry = (.ok output, after)) :
    ∃ id, At place (mediaPath id) output ∧ first ≤ id ∧
      id < first + maxRegisteredSources := by
  obtain ⟨front, rest, rfl, rfl⟩ := here
  rw [registerRewrittenSources_append_cons separates_quote,
    registerRewrittenSources_append_cons separates_quote,
    registerRewrittenSources_pushProxied] at ended
  obtain ⟨before, middle, passed, ended⟩ := exists_of_bind_eq_ok ended
  obtain ⟨inner, final, inside, ended⟩ := exists_of_bind_eq_ok ended
  cases ended
  obtain ⟨path, middle, written, ended⟩ := exists_of_bind_eq_ok inside
  obtain ⟨others, final, -, ended⟩ := exists_of_bind_eq_ok ended
  cases ended
  obtain ⟨_, id, -, registered, rfl⟩ := registerReference_eq_ok written
  obtain ⟨count_eq, counts⟩ := counts.passes passed
  obtain ⟨above, below, -⟩ := counts.registers registered
  exact ⟨id, ⟨before, others, rfl, count_eq⟩, above, below⟩

/-- Where the first pass goes astray, the output is right for no registry but those
that hand out the one id whose path is written there already. -/
theorem GoesAstray.exists_value
    {absolute : Text → Text}
    {pieces : List Piece}
    {written : (Text → Text) → Text}
    (astray : GoesAstray pieces written) :
    ∃ value, ∀ first resolves output after, 0 < first →
      first + maxRegisteredSources < 2 ^ 64 →
      registerRewrittenSources parse
          (written fun value => pushProxied (absolute value) "/proxy".toList)
          (countingFrom first) =
        (.ok output, after) →
      Renders resolves pieces output →
      ∃ id, value = mediaPath id ∧ first ≤ id ∧ id < first + maxRegisteredSources := by
  obtain ⟨place, value, unquoted, -, wrote, stays⟩ := astray
  refine ⟨value, fun first resolves output after positive small ended renders => ?_⟩
  have clean (value : Text) : '"' ∉ pushProxied (absolute value) "/proxy".toList := by
    intro member
    rcases List.mem_append.mp member with inPath | rest
    · exact absurd inPath (by decide)
    · rcases List.mem_cons.mp rest with slash | encoded
      · exact absurd slash (by decide)
      · exact absurd (not_endsReference_of_mem encoded) (by decide)
  obtain ⟨id, here, bounds⟩ := registerRewrittenSources_at
    ⟨positive, small, (fun _ absurdly => (List.not_mem_nil absurdly).elim), rfl, Nat.zero_le _⟩
    (wrote _ clean) ended
  exact ⟨id, (stays resolves output renders).unique here unquoted (not_mem_mediaPath id), bounds⟩

end Registering

end Hls
end VideoProxy
