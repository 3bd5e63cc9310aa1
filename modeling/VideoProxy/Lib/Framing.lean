import VideoProxy.Lib.Text

/-!
# Texts that are put together and told apart again

A part of a text is found again when it stands behind its size, or when it stops
at a character that it does not have itself.
-/

namespace VideoProxy
namespace Text

variable {left right leftRest rightRest : Text}

/-! ## Parts behind their size -/

/-- The bytes that a text takes in UTF-8. -/
def byteSize (text : Text) : Nat :=
  (String.ofList text).utf8ByteSize

theorem byteSize_append (left right : Text) :
    byteSize (left ++ right) = byteSize left + byteSize right := by
  rw [byteSize, String.ofList_append, String.utf8ByteSize_append]
  rfl

theorem byteSize_replicate (count : Nat) :
    byteSize (List.replicate count 'x') = count := by
  induction count with
  | zero => rfl
  | succ count inductionHypothesis =>
    rw [List.replicate_succ', byteSize_append, inductionHypothesis]
    rfl

theorem byteSize_le (text : Text) : byteSize text ≤ 4 * text.length := by
  induction text with
  | nil => exact Nat.le_refl 0
  | cons char text inductionHypothesis =>
    have step : byteSize (char :: text) = char.utf8Size + byteSize text := by
      rw [byteSize, String.ofList_cons, String.utf8ByteSize_append, String.utf8ByteSize_singleton]
      rfl
    have small := char.utf8Size_le_four
    rw [step, List.length_cons]
    omega

theorem eq_nil_of_byteSize {text : Text} (empty : byteSize text = 0) : text = [] := by
  have none : String.ofList text = "" := String.utf8ByteSize_eq_zero_iff.mp empty
  rw [← @String.toList_ofList text, none]
  rfl

theorem append_inj_of_byteSize (same : left ++ leftRest = right ++ rightRest)
    (sizes : byteSize left = byteSize right) :
    left = right ∧ leftRest = rightRest := by
  rcases List.append_eq_append_iff.mp same with
    ⟨more, rfl, rfl⟩ | ⟨more, rfl, rfl⟩
  · rw [byteSize_append] at sizes
    obtain rfl := eq_nil_of_byteSize (by omega : byteSize more = 0)
    exact ⟨(List.append_nil left).symm, rfl⟩
  · rw [byteSize_append] at sizes
    obtain rfl := eq_nil_of_byteSize (by omega : byteSize more = 0)
    exact ⟨List.append_nil right, rfl⟩

/-- A text behind its size. -/
def framed (value : Text) : Text :=
  decimal (byteSize value) ++ ':' :: value

theorem framed_append_inj :
    framed left ++ leftRest = framed right ++ rightRest ↔ left = right ∧ leftRest = rightRest := by
  constructor
  · intro same
    have noColon : ∀ value, ':' ∉ decimal value := not_mem_decimal (by decide)
    simp only [framed, List.append_assoc, List.cons_append] at same
    obtain ⟨sizes, rest⟩ := append_cons_inj (noColon _) (noColon _) same
    exact append_inj_of_byteSize rest (decimal_inj.mp sizes)
  · rintro ⟨rfl, rfl⟩
    rfl

/-- A frame determines its text. -/
theorem framed_inj : framed left = framed right ↔ left = right := by
  rw [← List.append_nil (framed left), ← List.append_nil (framed right),
    framed_append_inj, and_iff_left rfl]

/-! ## Parts that stop -/

/-- The text does not begin with a character that continues a part. -/
def Stops (continues : Char → Bool) (text : Text) : Prop :=
  ∀ char ∈ text.head?, continues char = false

theorem takeWhile_append_of_stops {continues : Char → Bool}
    (all : ∀ char ∈ left, continues char = true) (stops : Stops continues leftRest) :
    (left ++ leftRest).takeWhile continues = left := by
  rw [List.takeWhile_append_of_pos all]
  cases leftRest with
  | nil => exact List.append_nil left
  | cons char rest =>
    rw [List.takeWhile_cons_of_neg, List.append_nil]
    simp [stops char rfl]

/-- Parts that stop can be told apart. -/
theorem append_inj_of_stops {continues : Char → Bool}
    (leftAll : ∀ char ∈ left, continues char = true)
    (rightAll : ∀ char ∈ right, continues char = true) (leftStops : Stops continues leftRest)
    (rightStops : Stops continues rightRest) (same : left ++ leftRest = right ++ rightRest) :
    left = right ∧ leftRest = rightRest := by
  have front := congrArg (List.takeWhile continues) same
  rw [takeWhile_append_of_stops leftAll leftStops,
    takeWhile_append_of_stops rightAll rightStops] at front
  subst front
  exact ⟨rfl, List.append_cancel_left same⟩

/-! ## Lower case -/

theorem eq_of_toLower_eq {char mark : Char} (below : mark.toNat < 97)
    (lower : char.toLower = mark) :
    char = mark := by
  unfold Char.toLower at lower
  split at lower
  · rename_i upper
    exfalso
    have shifted : char.val + ('a'.val - 'A'.val) = mark.val :=
      congrArg Char.val lower
    have value := congrArg UInt32.toNat shifted
    have low : 65 ≤ char.val.toNat := upper.1
    have high : char.val.toNat ≤ 90 := upper.2
    have sum : (char.val + ('a'.val - 'A'.val)).toNat = char.val.toNat + 32 := by
      rw [UInt32.toNat_add]
      exact Nat.mod_eq_of_lt (by change _ + 32 < 2 ^ 32; omega)
    have small : mark.val.toNat < 97 := below
    omega
  · exact lower

end Text
end VideoProxy
