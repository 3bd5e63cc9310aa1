import VideoProxy.Lib.Text
import VideoProxy.Utils.Stream

/-!
# HTTP headers and responses

Header maps keep the values of a name in order.  Header names are written in
lower case, as the map stores them.  The body of a response is a byte stream.
-/

namespace VideoProxy

/-- A map from header names to their values, in order. -/
abbrev Headers := List (String × Text)

namespace Headers

/-- The first value of a header. -/
def get (headers : Headers) (name : String) : Option Text :=
  (headers.find? fun header => header.1 = name).map Prod.snd

/-- All values of a header are removed. -/
def remove (headers : Headers) (name : String) : Headers :=
  headers.filter fun header => header.1 ≠ name

/-- The value replaces all values of a header. -/
def insert (headers : Headers) (name : String) (value : Text) : Headers :=
  headers.remove name ++ [(name, value)]

/-- `HeaderValue::to_str`: the text of a value of visible characters. -/
def toStr (value : Text) : Option Text :=
  if value.all fun char =>
      (32 ≤ char.toNat && char.toNat < 127) || char = '\t' then
    some value
  else none

@[simp] theorem get_insert_self (headers : Headers) (name : String) (value : Text) :
    (headers.insert name value).get name = some value := by
  have absent : (headers.remove name).find? (fun header => decide (header.1 = name)) = none := by
    rw [List.find?_eq_none]
    intro header member
    simp only [remove, List.mem_filter] at member
    simpa using member.2
  simp [get, insert, List.find?_append, absent]

theorem get_remove_ne {name other : String} (ne : other ≠ name) (headers : Headers) :
    (headers.remove name).get other = headers.get other := by
  unfold get remove
  congr 1
  induction headers with
  | nil => rfl
  | cons header rest inductionHypothesis =>
    by_cases dropped : header.1 = name
    · rw [List.filter_cons_of_neg (by simp [dropped]), inductionHypothesis,
        List.find?_cons_of_neg (by simp [dropped, ne.symm])]
    · rw [List.filter_cons_of_pos (by simp [dropped])]
      by_cases found : header.1 = other
      · rw [List.find?_cons_of_pos (by simp [found]), List.find?_cons_of_pos (by simp [found])]
      · rw [List.find?_cons_of_neg (by simp [found]), inductionHypothesis,
          List.find?_cons_of_neg (by simp [found])]

theorem get_insert_ne {name other : String} (ne : other ≠ name) (headers : Headers) (value : Text) :
    (headers.insert name value).get other = headers.get other := by
  rw [← get_remove_ne ne headers]
  unfold get insert
  rw [List.find?_append]
  simp [ne.symm]

end Headers

theorem Headers.toStr_eq_some {value : Text}
    (visible : ∀ char ∈ value, 32 ≤ char.toNat ∧ char.toNat < 127) :
    Headers.toStr value = some value := by
  unfold toStr
  rw [if_pos]
  rw [List.all_eq_true]
  intro char member
  simp [visible char member]

theorem Headers.eq_of_toStr {value text : Text} (visible : Headers.toStr value = some text) :
    text = value := by
  unfold toStr at visible
  split at visible
  · cases visible
    rfl
  · cases visible

/-- A response of the proxy. -/
structure Response where
  status : Nat
  headers : Headers
  body : ByteStream

end VideoProxy
