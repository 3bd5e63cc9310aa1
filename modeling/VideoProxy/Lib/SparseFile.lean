import Mathlib.Data.List.Basic
import Mathlib.Order.Nat

/-!
# Sparse files

A sparse file has a length and, below it, cells that either hold a stored byte
or are holes.  A write at an offset stores its bytes there, and extends the file
when they pass its end; the region skipped by such a write consists of holes.
A read returns what a file system returns, so a hole is read as a zero byte.
-/

namespace VideoProxy

/-- A file whose cells hold a stored byte or are holes. -/
structure SparseFile where
  /-- Length of the file in bytes. -/
  length : Nat
  /-- Stored bytes by offset; `none` is a hole. -/
  cell : Nat → Option UInt8
  /-- Nothing is stored at or after the end of the file. -/
  bounded : ∀ offset, length ≤ offset → cell offset = none

namespace SparseFile

/-- The file that a creating open leaves behind. -/
def empty : SparseFile where
  length := 0
  cell := fun _ => none
  bounded := fun _ _ => rfl

/-- The byte that reading the cell at an offset gives. -/
def byteAt (file : SparseFile) (offset : Nat) : UInt8 :=
  (file.cell offset).getD 0

/-- Store a block of bytes at an offset.  An empty block changes nothing, even
past the end of the file. -/
def write (file : SparseFile) (offset : Nat) (bytes : List UInt8) : SparseFile where
  length := if bytes = [] then file.length
    else max file.length (offset + bytes.length)
  cell := fun position =>
    if offset ≤ position ∧ position < offset + bytes.length then
      bytes[position - offset]?
    else file.cell position
  bounded := by
    intro position outside
    by_cases empty : bytes = []
    · subst bytes
      simp only [if_true, List.length_nil, Nat.add_zero] at outside ⊢
      rw [if_neg (by omega)]
      exact file.bounded position outside
    · simp only [if_neg empty] at outside
      rw [if_neg (by omega)]
      exact file.bounded position (by omega)

variable {bytes : List UInt8} {file : SparseFile} {offset position : Nat}

/-- A write reaches up to its last byte. -/
theorem write_length (file : SparseFile) (offset : Nat) (nonempty : bytes ≠ []) :
    (file.write offset bytes).length = max file.length (offset + bytes.length) :=
  if_neg nonempty

theorem length_le_write_length (file : SparseFile) (offset : Nat) (bytes : List UInt8) :
    file.length ≤ (file.write offset bytes).length := by
  simp only [write]
  split <;> omega

@[simp] theorem write_nil (file : SparseFile) (offset : Nat) : file.write offset [] = file := by
  cases file with
  | mk length cell bounded =>
    simp only [write, List.length_nil, Nat.add_zero, if_true, mk.injEq, true_and]
    funext position
    rw [if_neg (by omega)]

theorem write_length_le {bound : Nat} (bounded : file.length ≤ bound)
    (fits : bytes ≠ [] → offset + bytes.length ≤ bound) :
    (file.write offset bytes).length ≤ bound := by
  by_cases empty : bytes = []
  · subst bytes
    rw [write_nil]
    exact bounded
  · rw [write_length file offset empty]
    have fits := fits empty
    omega

/-- A write puts its bytes where they belong. -/
theorem cell_write_inside (file : SparseFile) (lower : offset ≤ position)
    (upper : position < offset + bytes.length) :
    (file.write offset bytes).cell position = bytes[position - offset]? :=
  if_pos ⟨lower, upper⟩

/-- A write leaves the other cells alone. -/
theorem cell_write_outside (file : SparseFile)
    (outside : ¬(offset ≤ position ∧ position < offset + bytes.length)) :
    (file.write offset bytes).cell position = file.cell position :=
  if_neg outside

theorem cell_write_inside_isSome (file : SparseFile) (lower : offset ≤ position)
    (upper : position < offset + bytes.length) :
    ((file.write offset bytes).cell position).isSome := by
  rw [cell_write_inside file lower upper, List.getElem?_eq_getElem (by omega)]
  rfl

theorem cell_write_isSome (stored : (file.cell position).isSome) (offset : Nat)
    (bytes : List UInt8) :
    ((file.write offset bytes).cell position).isSome := by
  by_cases inside : offset ≤ position ∧ position < offset + bytes.length
  · exact cell_write_inside_isSome file inside.1 inside.2
  · rw [cell_write_outside file inside]
    exact stored

/-- Cells beyond the end are empty. -/
theorem lt_length_of_isSome (stored : (file.cell position).isSome) : position < file.length := by
  by_contra outside
  rw [file.bounded position (by omega)] at stored
  simp at stored

/-- The bytes that a read of `count` cells from `offset` returns: those that
exist, up to the end of the file. -/
def read (file : SparseFile) (offset count : Nat) : List UInt8 :=
  (List.range' offset (min count (file.length - offset))).map file.byteAt

@[simp] theorem read_length (file : SparseFile) (offset count : Nat) :
    (file.read offset count).length = min count (file.length - offset) := by
  simp [read]

/-- Adjacent reads make up one. -/
theorem read_append (file : SparseFile) {first second : Nat}
    (inside : offset + first ≤ file.length) :
    file.read offset first ++ file.read (offset + first) second =
      file.read offset (first + second) := by
  simp only [read, ← List.map_append]
  rw [show min first (file.length - offset) = first by omega, show min (first + second) (file.length
    - offset) = first + min second (file.length - (offset + first)) by omega]
  rw [List.range'_append_1]

theorem read_take (file : SparseFile) (offset count first : Nat) :
    (file.read offset count).take first = file.read offset (min first count) := by
  have cut (length : Nat) : (List.range' offset length).take first =
      List.range' offset (min first length) := by
    apply List.ext_getElem <;> simp
  rw [read, ← List.map_take, cut, read, Nat.min_assoc]

theorem read_eq_map (file : SparseFile) {count : Nat} (inside : offset + count ≤ file.length) :
    file.read offset count = (List.range' offset count).map file.byteAt := by
  rw [read, show min count (file.length - offset) = count by omega]

end SparseFile
end VideoProxy
