import VideoProxy.Utils.Error

/-!
# Byte streams

A stream of the proxy is the list of the items that it yields before it ends.
Its contents are the bytes of its chunks, unless one of its items is an error.
-/

namespace VideoProxy

/-- Blocks of bytes. -/
abbrev Bytes := List UInt8

/-- The items that a stream yields before it ends. -/
abbrev ByteStream := List (Except ProxyError Bytes)

/-- The bytes of a stream that is read to its end, or its first error. -/
def contents : ByteStream → Except ProxyError Bytes
  | [] => .ok []
  | .error reason :: _ => .error reason
  | .ok chunk :: rest => (contents rest).map (chunk ++ ·)

variable {bytes : Bytes} {first second : ByteStream} {last : Nat}

theorem contents_cons_eq_ok {item : Except ProxyError Bytes} {rest : ByteStream}
    (whole : contents (item :: rest) = .ok bytes) :
    ∃ chunk others, item = .ok chunk ∧ contents rest = .ok others ∧ bytes = chunk ++ others := by
  cases item with
  | error reason => cases whole
  | ok chunk =>
    cases restWhole : contents rest with
    | error reason =>
      rw [contents, restWhole] at whole
      cases whole
    | ok others =>
      rw [contents, restWhole] at whole
      cases whole
      exact ⟨chunk, others, rfl, rfl, rfl⟩

theorem contents_ok_cons {rest : ByteStream} {others : Bytes} (whole : contents rest = .ok others)
    (chunk : Bytes) :
    contents (.ok chunk :: rest) = .ok (chunk ++ others) := by
  rw [contents, whole]
  rfl

theorem contents_append {left right : Bytes}
    (firstWhole : contents first = .ok left) (secondWhole : contents second = .ok right) :
    contents (first ++ second) = .ok (left ++ right) := by
  induction first generalizing left with
  | nil =>
    cases firstWhole
    exact secondWhole
  | cons item rest inductionHypothesis =>
    obtain ⟨chunk, others, rfl, othersWhole, rfl⟩ :=
      contents_cons_eq_ok firstWhole
    rw [List.cons_append, List.append_assoc]
    exact contents_ok_cons (inductionHypothesis othersWhole) chunk

/-- The bytes of a stream before its first error. -/
def delivered : ByteStream → Bytes
  | .ok chunk :: rest => chunk ++ delivered rest
  | .error _ :: _ => []
  | [] => []

theorem delivered_of_contents {stream : ByteStream} (whole : contents stream = .ok bytes) :
    delivered stream = bytes := by
  induction stream generalizing bytes with
  | nil =>
    cases whole
    rfl
  | cons item rest inductionHypothesis =>
    obtain ⟨chunk, others, rfl, othersWhole, rfl⟩ := contents_cons_eq_ok whole
    rw [delivered, inductionHypothesis othersWhole]

/-- A stream without errors delivers its contents. -/
theorem contents_eq_ok_iff {stream : ByteStream} :
    contents stream = .ok bytes ↔
      (∀ reason, .error reason ∉ stream) ∧ bytes = delivered stream := by
  induction stream generalizing bytes with
  | nil =>
    refine ⟨fun whole => ?_, fun ⟨_, same⟩ => same ▸ rfl⟩
    cases whole
    exact ⟨fun _ => List.not_mem_nil, rfl⟩
  | cons item rest inductionHypothesis =>
    cases item with
    | error reason =>
      refine iff_of_false (fun absurdly => ?_) fun ⟨faultless, _⟩ =>
        faultless reason List.mem_cons_self
      cases absurdly
    | ok chunk =>
      constructor
      · intro whole
        obtain ⟨_, others, same, othersWhole, rfl⟩ := contents_cons_eq_ok whole
        cases same
        obtain ⟨faultless, rfl⟩ := inductionHypothesis.mp othersWhole
        refine ⟨fun reason member => faultless reason ?_, rfl⟩
        simpa using member
      · rintro ⟨faultless, rfl⟩
        refine contents_ok_cons (inductionHypothesis.mpr ⟨fun reason member => ?_, rfl⟩) chunk
        exact faultless reason (List.mem_cons_of_mem _ member)

theorem delivered_append (faultless : ∀ reason, .error reason ∉ first) :
    delivered (first ++ second) = delivered first ++ delivered second := by
  induction first with
  | nil => rfl
  | cons item first inductionHypothesis =>
    cases item with
    | error reason => exact absurd List.mem_cons_self (faultless reason)
    | ok chunk =>
      rw [List.cons_append, delivered, delivered, List.append_assoc,
        inductionHypothesis fun reason member =>
          faultless reason (List.mem_cons_of_mem _ member)]

theorem delivered_append_of_error {reason : ProxyError} (fails : .error reason ∈ first) :
    delivered (first ++ second) = delivered first := by
  induction first with
  | nil => cases fails
  | cons item first inductionHypothesis =>
    cases item with
    | error other => rfl
    | ok chunk =>
      rw [List.cons_append, delivered, delivered, inductionHypothesis (by simpa using fails)]

/-- A longer stream delivers more. -/
theorem delivered_mono (begins : first <+: second) : delivered first <+: delivered second := by
  induction first generalizing second with
  | nil => exact List.nil_prefix
  | cons item first inductionHypothesis =>
    cases second with
    | nil => exact absurd begins (by simp)
    | cons other second =>
      obtain ⟨rfl, later⟩ := List.cons_prefix_cons.mp begins
      cases item with
      | error reason => exact List.prefix_refl []
      | ok chunk =>
        exact (List.prefix_append_right_inj chunk).mpr (inductionHypothesis later)

/-! ## Pieces of a resource -/

/-- The bytes from one position to another one, both included. -/
def slice (content : Bytes) (first last : Nat) : Bytes :=
  (content.drop first).take (last + 1 - first)

theorem slice_length {content : Bytes} {first : Nat} (inside : last < content.length) :
    (slice content first last).length = last + 1 - first := by
  unfold slice
  rw [List.length_take, List.length_drop]
  omega

/-- Neighbouring slices add up. -/
theorem slice_append (content : Bytes) {first middle : Nat} (ordered : first < middle)
    (reaches : middle ≤ last) :
    slice content first (middle - 1) ++ slice content middle last = slice content first last := by
  unfold slice
  have split : last + 1 - first = (middle - first) + (last + 1 - middle) := by
    omega
  rw [split, List.take_add, List.drop_drop]
  congr 3 <;> omega

end VideoProxy
