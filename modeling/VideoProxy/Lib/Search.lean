import Mathlib.Data.List.Infix

/-!
# Searching for a word

A text is split at the first occurrence of a word.  Occurrences cannot reach
across a letter that the word does not have, so a text that is put together from
parts with such letters between them has the occurrences of its parts.
-/

namespace VideoProxy

variable {α : Type*} [DecidableEq α] {word before text tail left right : List α}
  {letter : α}

/-- The text before the first occurrence of the word, and the text after it. -/
def splitFirst (word : List α) : List α → Option (List α × List α)
  | [] => if word = [] then some ([], []) else none
  | letter :: text =>
    if word <+: letter :: text then
      some ([], (letter :: text).drop word.length)
    else
      (splitFirst word text).map fun parts => (letter :: parts.1, parts.2)

omit [DecidableEq α] in
theorem append_dropLast_begins (before word tail : List α) :
    before ++ word.dropLast <+: before ++ (word ++ tail) :=
  (List.prefix_append_right_inj before).mpr
    (( List.dropLast_prefix word).trans (List.prefix_append word tail))

/-- The word is found after a text in which it does not begin. -/
theorem splitFirst_append (nonempty : word ≠ []) (clear : ¬word <:+: before ++ word.dropLast)
    (tail : List α) :
    splitFirst word (before ++ (word ++ tail)) = some (before, tail) := by
  induction before with
  | nil =>
    cases word with
    | nil => exact absurd rfl nonempty
    | cons letter word =>
      have here : letter :: word <+: letter :: (word ++ tail) :=
        List.prefix_append (letter :: word) tail
      rw [List.nil_append, List.cons_append, splitFirst, if_pos here]
      simp
  | cons letter before inductionHypothesis =>
    have later : ¬word <:+: before ++ word.dropLast := by
      intro occurs
      exact clear (occurs.trans (List.suffix_cons letter _).isInfix)
    have notHere : ¬word <+: letter :: (before ++ (word ++ tail)) := by
      intro here
      apply clear
      -- The word would begin here and end before the given occurrence does.
      refine (List.prefix_of_prefix_length_le here
        (append_dropLast_begins (letter :: before) word tail) ?_).isInfix
      simp only [List.length_append, List.length_cons, List.length_dropLast]
      omega
    rw [List.cons_append, splitFirst, if_neg notHere, inductionHypothesis later, Option.map_some]

theorem splitFirst_eq_none_iff : splitFirst word text = none ↔ ¬word <:+: text := by
  induction text with
  | nil =>
    rw [splitFirst, List.infix_nil]
    split <;> simp [*]
  | cons letter text inductionHypothesis =>
    rw [splitFirst, List.infix_cons_iff, not_or]
    split
    · rename_i here
      simp [here]
    · rename_i notHere
      rw [Option.map_eq_none_iff, inductionHypothesis]
      simp [notHere]

/-- Where a text is split, the word occurs for the first time. -/
theorem splitFirst_eq_some (found : splitFirst word text = some (before, tail)) :
    text = before ++ (word ++ tail) ∧ ¬word <:+: before ++ word.dropLast ∨ word = [] := by
  induction text generalizing before with
  | nil =>
    unfold splitFirst at found
    split at found
    · exact .inr ‹_›
    · cases found
  | cons letter text inductionHypothesis =>
    by_cases empty : word = []
    · exact .inr empty
    · left
      unfold splitFirst at found
      split at found
      · rename_i here
        cases found
        obtain ⟨rest, same⟩ := here
        refine ⟨?_, ?_⟩
        · rw [← same, List.drop_left]
          rfl
        · intro occurs
          have bound := occurs.length_le
          have positive := List.length_pos_of_ne_nil empty
          simp only [List.nil_append, List.length_dropLast] at bound
          omega
      · rename_i notHere
        obtain ⟨⟨first, rest⟩, foundLater, same⟩ :=
          Option.map_eq_some_iff.mp found
        cases same
        obtain ⟨rfl, clear⟩ :=
          (inductionHypothesis foundLater).resolve_right empty
        refine ⟨rfl, fun occurs => ?_⟩
        rcases List.infix_cons_iff.mp occurs with here | later
        · exact notHere (here.trans (append_dropLast_begins (letter :: first) word rest))
        · exact clear later

theorem splitFirst_letter (letter : α) (text : List α) :
    splitFirst [letter] text = (text.findIdx? (· = letter)).map fun index =>
        (text.take index, text.drop (index + 1)) := by
  induction text with
  | nil => rfl
  | cons head text inductionHypothesis =>
    rw [splitFirst, List.findIdx?_cons, inductionHypothesis]
    by_cases same : head = letter
    · simp [same]
    · have foreign : ¬[letter] <+: head :: text :=
        fun begins => same (List.cons_prefix_cons.mp begins).1.symm
      rw [if_neg foreign, decide_eq_false same, if_neg Bool.false_ne_true,
        Option.map_map, Option.map_map]
      rfl

/-- The text after the last occurrence of the word; the fuel bounds the letters
left. -/
def afterLast (word : List α) : Nat → List α → List α
  | 0, text => text
  | fuel + 1, text =>
    match splitFirst word text with
    | none => text
    | some (_, tail) => afterLast word fuel tail

theorem afterLast_of_clear (clear : ¬word <:+: text) (fuel : Nat) :
    afterLast word fuel text = text := by
  cases fuel with
  | zero => rfl
  | succ fuel => rw [afterLast, splitFirst_eq_none_iff.mpr clear]

theorem afterLast_suffix (nonempty : word ≠ []) (fuel : Nat) (text : List α) :
    afterLast word fuel text <:+ text := by
  induction fuel generalizing text with
  | zero => exact List.suffix_refl text
  | succ fuel inductionHypothesis =>
    rw [afterLast]
    cases found : splitFirst word text with
    | none => exact List.suffix_refl text
    | some parts =>
      obtain ⟨before, tail⟩ := parts
      obtain ⟨rfl, _⟩ := (splitFirst_eq_some found).resolve_right nonempty
      rw [← List.append_assoc]
      exact (inductionHypothesis tail).trans (List.suffix_append _ tail)

omit [DecidableEq α] in
/-- An occurrence is on one side of a letter that the word does not have. -/
theorem infix_append_cons_iff (nonempty : word ≠ []) (foreign : letter ∉ word) :
    word <:+: left ++ letter :: right ↔ word <:+: left ∨ word <:+: right := by
  rw [List.infix_append_iff, List.infix_cons_iff]
  constructor
  · rintro (onLeft | (here | onRight) | ⟨first, second, rfl, ends, begins⟩)
    · exact .inl onLeft
    · cases word with
      | nil => exact absurd rfl nonempty
      | cons other word =>
        rw [List.cons_prefix_cons] at here
        exact absurd (here.1 ▸ List.mem_cons_self) foreign
    · exact .inr onRight
    · cases second with
      | nil =>
        rw [List.append_nil]
        exact .inl ends.isInfix
      | cons other second =>
        rw [List.cons_prefix_cons] at begins
        refine absurd ?_ foreign
        rw [← begins.1]
        exact List.mem_append_right first List.mem_cons_self
  · rintro (onLeft | onRight)
    · exact .inl onLeft
    · exact .inr (.inl (.inr onRight))

/-- A text that goes on is split where its beginning is. -/
theorem splitFirst_append_right (nonempty : word ≠ [])
    (found : splitFirst word text = some (before, tail)) (more : List α) :
    splitFirst word (text ++ more) = some (before, tail ++ more) := by
  obtain ⟨rfl, clear⟩ := (splitFirst_eq_some found).resolve_right nonempty
  rw [List.append_assoc, List.append_assoc]
  exact splitFirst_append nonempty clear (tail ++ more)

/-- What comes before a letter that the word does not have is passed over, if the
word is not in it. -/
theorem splitFirst_append_cons (nonempty : word ≠ []) (foreign : letter ∉ word)
    (clear : ¬word <:+: left) (right : List α) :
    splitFirst word (left ++ letter :: right) =
      (splitFirst word right).map fun parts => (left ++ letter :: parts.1, parts.2) := by
  cases found : splitFirst word right with
  | none =>
    rw [Option.map_none, splitFirst_eq_none_iff, infix_append_cons_iff nonempty foreign]
    exact not_or.mpr ⟨clear, splitFirst_eq_none_iff.mp found⟩
  | some parts =>
    obtain ⟨rfl, later⟩ := (splitFirst_eq_some found).resolve_right nonempty
    have longer : ¬word <:+: left ++ letter :: parts.1 ++ word.dropLast := by
      rw [List.append_assoc, List.cons_append, infix_append_cons_iff nonempty foreign]
      exact not_or.mpr ⟨clear, later⟩
    rw [← List.cons_append, ← List.append_assoc, splitFirst_append nonempty longer,
      Option.map_some]

/-! ## Leading runs -/

section Runs

variable {continues : α → Bool}

omit [DecidableEq α] in
theorem takeWhile_append_cons_of_neg (ends : ¬continues letter) :
    (left ++ letter :: right).takeWhile continues = left.takeWhile continues := by
  induction left with
  | nil => exact List.takeWhile_cons_of_neg ends
  | cons other left inductionHypothesis =>
    rw [List.cons_append, List.takeWhile_cons, List.takeWhile_cons, inductionHypothesis]

omit [DecidableEq α] in
theorem dropWhile_append_cons_of_neg (ends : ¬continues letter) :
    (left ++ letter :: right).dropWhile continues =
      left.dropWhile continues ++ letter :: right := by
  induction left with
  | nil => exact List.dropWhile_cons_of_neg ends
  | cons other left inductionHypothesis =>
    rw [List.cons_append, List.dropWhile_cons, List.dropWhile_cons, inductionHypothesis]
    split <;> rfl

end Runs

end VideoProxy
