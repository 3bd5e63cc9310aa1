import VideoProxy.Utils.Range

/-!
# The language of range headers

What a range header says, in the terms of RFC 7233, apart from how the proxy
reads it: a header denotes a byte-range specifier, and a specifier selects
positions of a resource.  The notion of a number is a parameter, since the
reader of the proxy takes more spellings of a number than the grammar has.
The proxy accepts exactly the headers that denote a nonempty specifier in its
own spelling of numbers, and the interval it computes for an accepted header is
the set of selected positions.
-/

namespace VideoProxy

/-- The three forms of a byte-range specifier: `N-M`, `N-` and `-N`. -/
inductive ByteRange
  | between (first last : Nat)
  | onwards (first : Nat)
  | final (count : Nat)
  deriving DecidableEq

namespace ByteRange

/-- The positions of a resource of `total` bytes that a specifier selects. -/
def Selects (total : Nat) : ByteRange → Nat → Prop
  | between first last, position =>
    first ≤ position ∧ position ≤ last ∧ position < total
  | onwards first, position => first ≤ position ∧ position < total
  | final count, position => total ≤ position + count ∧ position < total

/-- The specifiers that select something of a long enough resource. -/
def Satisfiable : ByteRange → Prop
  | between first last => first ≤ last
  | onwards _ => True
  | final count => 0 < count

instance : DecidablePred Satisfiable
  | between first last => inferInstanceAs (Decidable (first ≤ last))
  | onwards _ => inferInstanceAs (Decidable True)
  | final count => inferInstanceAs (Decidable (0 < count))

/-- The proxy's own representation of a specifier. -/
def toSpec : ByteRange → RangeSpec
  | between first last => .offset first last
  | onwards first => .offset first openEnded
  | final count => .suffix count

end ByteRange

/-- A header denotes a specifier, for a given notion of what text is a number;
white space around the two positions does not count. -/
inductive Denotes (number : Text → Nat → Prop) : Text → ByteRange → Prop
  | between
      {first second : Text}
      {start finish : Nat}
      (startReads : number (Text.trim first) start)
      (finishReads : number (Text.trim second) finish) :
      Denotes number ("bytes=".toList ++ (first ++ '-' :: second)) (.between start finish)
  | onwards
      {first second : Text}
      {start : Nat}
      (startReads : number (Text.trim first) start)
      (unbounded : Text.trim second = []) :
      Denotes number ("bytes=".toList ++ (first ++ '-' :: second)) (.onwards start)
  | final
      {first second : Text}
      {count : Nat}
      (suffix : Text.trim first = [])
      (countReads : number (Text.trim second) count) :
      Denotes number ("bytes=".toList ++ (first ++ '-' :: second)) (.final count)

/-- The number reader of the standard library as a notion of number. -/
def Reads (text : Text) (value : Nat) : Prop :=
  Text.parseU64 text = some value

/-- The grammar of range headers, with digits as the only characters of a
number. -/
def WellFormedHeader (header : Text) : Prop :=
  ∃ range : ByteRange, Denotes Text.Numeral header range ∧ range.Satisfiable

/-- A header that follows the grammar except for plus signs before numbers, and
has one. -/
def SignedHeader (header : Text) : Prop :=
  (∃ range : ByteRange,
    Denotes (fun text value => Text.Numeral text value ∨ Text.Positive text value)
      header range ∧ range.Satisfiable) ∧
    '+' ∈ header

/-! ## What the reader accepts -/

theorem Reads.ne_nil {text : Text} {value : Nat} (reads : Reads text value) : text ≠ [] := by
  rintro rfl
  cases reads

variable {part header : Text} {spec : RangeSpec} {range : ByteRange}

theorem Reads.plain {value : Nat} (reads : Reads (Text.trim part) value) :
    '-' ∉ part ∧ ',' ∉ part := by
  have absent {char : Char} (visible : Text.isWhitespace char = false)
      (noNumber : ¬(char = '+' ∨ char.isDigit = true)) :
      char ∉ part := by
    intro member
    exact noNumber (Text.isDigit_of_parseU64 reads (Text.mem_trim_of_mem visible member))
  exact ⟨absent (by decide) (by decide), absent (by decide) (by decide)⟩

theorem not_mem_of_trim_eq_nil (blank : Text.trim part = []) {char : Char}
    (visible : Text.isWhitespace char = false) :
    char ∉ part := by
  intro member
  have kept := Text.mem_trim_of_mem visible member
  rw [blank] at kept
  cases kept

theorem plain_of_trim_eq_nil (blank : Text.trim part = []) : '-' ∉ part ∧ ',' ∉ part :=
  ⟨not_mem_of_trim_eq_nil blank (by decide), not_mem_of_trim_eq_nil blank (by decide)⟩

theorem parseRangeSpec_parts (parsed : parseRangeSpec header = .ok spec) :
    ∃ first second, header = "bytes=".toList ++ (first ++ '-' :: second) ∧
      parseRangeParts (Text.trim first) (Text.trim second) = .ok spec := by
  unfold parseRangeSpec at parsed
  split at parsed
  · cases parsed
  · rename_i range stripped
    split at parsed
    · cases parsed
    · split at parsed
      · rename_i first second parts
        have joined : ['-'].intercalate (range.splitOn '-') = range :=
          List.intercalate_splitOn '-'
        rw [parts] at joined
        refine ⟨first, second, ?_, parsed⟩
        rw [Text.eq_of_stripStart stripped, ← joined]
        simp [List.intercalate]
      · cases parsed

/-- The forms of two positions that are accepted. -/
theorem parseRangeParts_eq_ok {first second : Text}
    (parsed : parseRangeParts first second = .ok spec) :
    (∃ count, first = [] ∧ Reads second count ∧ 0 < count ∧ spec = .suffix count) ∨
    (∃ start, Reads first start ∧ second = [] ∧ spec = .offset start openEnded) ∨
    (∃ start finish, Reads first start ∧ Reads second finish ∧
      start ≤ finish ∧ spec = .offset start finish) := by
  unfold parseRangeParts at parsed
  split at parsed
  · rename_i suffix
    split at parsed
    · cases parsed
    · rename_i count countReads
      split at parsed
      · cases parsed
      · rename_i nonzero
        cases parsed
        exact Or.inl ⟨count, List.isEmpty_iff.mp suffix, countReads,
          Nat.pos_of_ne_zero nonzero, rfl⟩
  · split at parsed
    · cases parsed
    · rename_i start startReads
      simp only at parsed
      split at parsed
      · cases parsed
      · rename_i finish finish_eq
        split at parsed
        · cases parsed
        · rename_i ordered
          cases parsed
          right
          split at finish_eq
          · rename_i unbounded
            cases finish_eq
            exact Or.inl ⟨start, startReads, List.isEmpty_iff.mp unbounded, rfl⟩
          · exact Or.inr ⟨start, finish, startReads, finish_eq, by omega, rfl⟩

theorem parseRangeParts_of_reads {first : Text} {start : Nat} (reads : Reads first start)
    (second : Text) :
    parseRangeParts first second =
      match (if second.isEmpty then some openEnded else Text.parseU64 second) with
      | none => .error (.request "Invalid end position")
      | some finish =>
        if start > finish then
          .error (.request "Invalid range: start > end")
        else .ok (.offset start finish) := by
  have bounded : first.isEmpty = false := List.isEmpty_eq_false_iff.mpr reads.ne_nil
  unfold parseRangeParts
  rw [reads]
  rw [bounded]
  rfl

/-- A header that denotes a specifier is accepted if the specifier can be
satisfied. -/
theorem parseRangeSpec_of_denotes (denotes : Denotes Reads header range) :
    ∃ error, parseRangeSpec header =
      if range.Satisfiable then .ok range.toSpec else .error error := by
  cases denotes with
  | between startReads finishReads =>
    rename_i first second start finish
    have bounded : (Text.trim second).isEmpty = false :=
      List.isEmpty_eq_false_iff.mpr finishReads.ne_nil
    rw [parseRangeSpec_positions startReads.plain finishReads.plain, parseRangeParts_of_reads
      startReads, bounded, if_neg Bool.false_ne_true, finishReads]
    refine ⟨.request "Invalid range: start > end", ?_⟩
    by_cases ordered : start ≤ finish
    · exact (if_neg (Nat.not_lt.mpr ordered)).trans (if_pos ordered).symm
    · exact (if_pos (Nat.lt_of_not_le ordered)).trans (if_neg ordered).symm
  | onwards startReads unbounded =>
    rw [parseRangeSpec_positions startReads.plain (plain_of_trim_eq_nil unbounded),
      parseRangeParts_of_reads startReads, unbounded]
    exact ⟨.request "Invalid range: start > end",
      if_neg (Nat.not_lt.mpr (Text.parseU64_le startReads))⟩
  | final suffix countReads =>
    rw [parseRangeSpec_positions (plain_of_trim_eq_nil suffix) countReads.plain]
    unfold parseRangeParts
    rw [suffix, countReads]
    refine ⟨.invalidRange "后缀范围长度不能为 0", ?_⟩
    simp only [ByteRange.Satisfiable, ByteRange.toSpec, Nat.pos_iff_ne_zero, ne_eq,
      ite_not, List.isEmpty_nil, if_true]

theorem parseRangeSpec_eq_ok_iff :
    parseRangeSpec header = .ok spec ↔
      ∃ range : ByteRange, Denotes Reads header range ∧ range.Satisfiable ∧
        spec = range.toSpec := by
  constructor
  · intro parsed
    obtain ⟨first, second, rfl, parts⟩ := parseRangeSpec_parts parsed
    rcases parseRangeParts_eq_ok parts with
      ⟨count, suffix, countReads, positive, rfl⟩ |
      ⟨start, startReads, unbounded, rfl⟩ |
      ⟨start, finish, startReads, finishReads, ordered, rfl⟩
    · exact ⟨.final count, .final suffix countReads, positive, rfl⟩
    · exact ⟨.onwards start, .onwards startReads unbounded, trivial, rfl⟩
    · exact ⟨.between start finish, .between startReads finishReads, ordered, rfl⟩
  · rintro ⟨range, denotes, satisfiable, rfl⟩
    obtain ⟨error, parsed⟩ := parseRangeSpec_of_denotes denotes
    rw [parsed, if_pos satisfiable]

theorem eq_toSpec_of_denotes
    (accepted : parseRangeSpec header = .ok spec) (denotes : Denotes Reads header range) :
    spec = range.toSpec := by
  obtain ⟨error, parsed⟩ := parseRangeSpec_of_denotes denotes
  rw [accepted] at parsed
  split at parsed
  · cases parsed
    rfl
  · cases parsed

/-! ## Positions selected by an accepted header -/

/-- The interval of a resource for a specification, as a request computes it. -/
def RangeSpec.interval (spec : RangeSpec) (total : Nat) : Except ProxyError (Nat × Nat) := do
  let (start, finish) ← spec.endpoints (some total)
  resolveRange start finish (some total)

/-- An outcome is the set of positions that a specifier selects: a nonempty
closed interval inside the resource, or an error if there are none. -/
def Exactly (range : ByteRange) (total : Nat) :
    Except ProxyError (Nat × Nat) → Prop
  | .ok (start, finish) =>
    start ≤ finish ∧ finish < total ∧ (∀ position, start ≤ position ∧ position ≤ finish ↔
        range.Selects total position) ∧
      rangeLength start finish = .ok (finish - start + 1)
  | .error _ => ∀ position, ¬range.Selects total position

theorem exactly_resolveRange {start finish total : Nat}
    (ordered : start ≤ finish) (word : total ≤ u64Max)
    (positions : ∀ position, range.Selects total position ↔
        start ≤ position ∧ position ≤ finish ∧ position < total) :
    Exactly range total (resolveRange start finish (some total)) := by
  cases outcome : resolveRange start finish (some total) with
  | ok resolved =>
    obtain ⟨inside, rfl⟩ := resolveRange_some_eq_ok_iff.mp outcome
    refine ⟨by omega, by omega, fun position => ?_, rangeLength_of_le (by omega) ?_⟩
    · rw [positions]
      omega
    · rw [openEnded]
      omega
  | error error =>
    intro position selected
    rw [positions] at selected
    have resolves : resolveRange start finish (some total) = .ok (start, _) :=
      resolveRange_some_eq_ok_iff.mpr ⟨Nat.lt_of_le_of_lt selected.1 selected.2.2, rfl⟩
    rw [outcome] at resolves
    cases resolves

/-- The interval of a readable specification is what its specifier selects. -/
theorem exactly_interval {total : Nat} (readable : range.toSpec.WellFormed)
    (positive : 0 < total) (word : total ≤ u64Max) :
    Exactly range total (range.toSpec.interval total) := by
  cases range with
  | between first last =>
    exact exactly_resolveRange readable.1 word fun position => Iff.rfl
  | onwards first =>
    refine exactly_resolveRange readable.1 word fun position => ?_
    simp only [ByteRange.Selects, openEnded]
    omega
  | final count =>
    have counted : 0 < count := readable.1
    have located : (RangeSpec.suffix count).endpoints (some total) =
        .ok (total - count, total - 1) := by
      cases total with
      | zero => cases positive
      | succ last => rfl
    change Exactly (.final count) total (RangeSpec.interval (.suffix count) total)
    rw [RangeSpec.interval, located]
    refine exactly_resolveRange (by omega) word fun position => ?_
    simp only [ByteRange.Selects]
    omega

/-- An accepted header denotes a specifier, and the interval computed for it is
what the specifier selects; a printed range is read back. -/
theorem parseRangeSpec_exactly
    {header : Text}
    {spec : RangeSpec}
    (accepted : parseRangeSpec header = .ok spec)
    {total : Nat}
    (positive : 0 < total)
    (word : total ≤ u64Max) :
    (∃ range, Denotes Reads header range) ∧
    (∀ range, Denotes Reads header range → Exactly range total (spec.interval total)) ∧
    ∀ start finish, start ≤ finish → finish ≤ u64Max →
      parseRange (formatRange start finish) = .ok (start, finish) := by
  obtain ⟨denoted, denotes, _, _⟩ := parseRangeSpec_eq_ok_iff.mp accepted
  refine ⟨⟨denoted, denotes⟩, fun range others => ?_,
    fun start finish ordered bounded => parseRange_formatRange ordered bounded⟩
  have readable := parseRangeSpec_wellFormed accepted
  rw [eq_toSpec_of_denotes accepted others] at readable ⊢
  exact exactly_interval readable positive word

theorem parseRangeSpec_exactly_suffix :
    (∃ range, Denotes Reads "bytes= -500".toList range) ∧
    (∀ range, Denotes Reads "bytes= -500".toList range →
      Exactly range 1000 (RangeSpec.interval (.suffix 500) 1000)) ∧
    ∀ start finish, start ≤ finish → finish ≤ u64Max →
      parseRange (formatRange start finish) = .ok (start, finish) :=
  parseRangeSpec_exactly (by decide +kernel) (by decide) (by decide)

/-! ## Headers accepted against the grammar -/

/-- A header denotes the same specifier under a notion of number that agrees on
its parts. -/
theorem Denotes.mono {number other : Text → Nat → Prop} (denotes : Denotes number header range)
    (weaker : ∀ part value, part ⊆ header →
      number (Text.trim part) value → other (Text.trim part) value) :
    Denotes other header range := by
  have firstInside (first second : Text) :
      first ⊆ "bytes=".toList ++ (first ++ '-' :: second) :=
    fun _ member => List.mem_append_right _ (List.mem_append_left _ member)
  have secondInside (first second : Text) :
      second ⊆ "bytes=".toList ++ (first ++ '-' :: second) :=
    fun _ member => List.mem_append_right _
      (List.mem_append_right _ (List.mem_cons_of_mem _ member))
  cases denotes with
  | between startReads finishReads =>
    exact .between (weaker _ _ (firstInside _ _) startReads)
      (weaker _ _ (secondInside _ _) finishReads)
  | onwards startReads unbounded =>
    exact .onwards (weaker _ _ (firstInside _ _) startReads) unbounded
  | final suffix countReads =>
    exact .final suffix (weaker _ _ (secondInside _ _) countReads)

/-- A plus sign of a header stands in one of its numbers. -/
theorem Denotes.exists_plus {number : Text → Nat → Prop}
    (denotes : Denotes number header range) (signed : '+' ∈ header) :
    ∃ text value, number text value ∧ '+' ∈ text := by
  have inPart {first second : Text} (member : '+' ∈ "bytes=".toList ++ (first ++ '-' :: second)) :
      '+' ∈ Text.trim first ∨ '+' ∈ Text.trim second := by
    rw [List.mem_append, List.mem_append, List.mem_cons] at member
    rcases member with inUnit | inFirst | isDash | inSecond
    · exact absurd inUnit (by decide)
    · exact Or.inl (Text.mem_trim_of_mem (by decide) inFirst)
    · exact absurd isDash (by decide)
    · exact Or.inr (Text.mem_trim_of_mem (by decide) inSecond)
  cases denotes with
  | between startReads finishReads =>
    rcases inPart signed with member | member
    · exact ⟨_, _, startReads, member⟩
    · exact ⟨_, _, finishReads, member⟩
  | onwards startReads unbounded =>
    rcases inPart signed with member | member
    · exact ⟨_, _, startReads, member⟩
    · rw [unbounded] at member
      cases member
  | final suffix countReads =>
    rcases inPart signed with member | member
    · rw [suffix] at member
      cases member
    · exact ⟨_, _, countReads, member⟩

theorem WellFormedHeader.unsigned (wellFormed : WellFormedHeader header) : '+' ∉ header := by
  intro signed
  obtain ⟨range, denotes, _⟩ := wellFormed
  obtain ⟨text, value, numeral, member⟩ := denotes.exists_plus signed
  exact numeral.not_mem (by decide) member

theorem wellFormedHeader_of_accepted
    (accepted : parseRangeSpec header = .ok spec) (unsigned : '+' ∉ header) :
    WellFormedHeader header := by
  obtain ⟨range, denotes, satisfiable, _⟩ := parseRangeSpec_eq_ok_iff.mp accepted
  refine ⟨range, denotes.mono fun part value inside reads => ?_, satisfiable⟩
  rcases Text.parseU64_eq_some_iff.mp reads with numeral | ⟨digits, trimmed, _⟩
  · exact numeral
  · have signed : '+' ∈ Text.trim part := by
      rw [trimmed]
      exact List.mem_cons_self
    exact absurd (inside (Text.mem_of_mem_trim signed)) unsigned

theorem accepted_of_wellFormedHeader (wellFormed : WellFormedHeader header) :
    ∃ spec, parseRangeSpec header = .ok spec := by
  obtain ⟨range, denotes, satisfiable⟩ := wellFormed
  refine ⟨range.toSpec, parseRangeSpec_eq_ok_iff.mpr ⟨range, ?_, satisfiable, rfl⟩⟩
  exact denotes.mono fun part value _ numeral =>
    Text.parseU64_eq_some_iff.mpr (Or.inl numeral)

/-- Acceptance and the grammar agree on a header exactly if it is not one with
plus signs. -/
theorem accepts_wellFormed_iff (header : Text) :
    ((∃ spec, parseRangeSpec header = .ok spec) ↔ WellFormedHeader header) ↔
      ¬SignedHeader header := by
  have accepted_iff : (∃ spec, parseRangeSpec header = .ok spec) ↔ ∃ range : ByteRange,
        Denotes (fun text value => Text.Numeral text value ∨ Text.Positive text value)
          header range ∧ range.Satisfiable := by
    have same : (fun text value => Text.Numeral text value ∨ Text.Positive text value) = Reads := by
      funext text value
      exact propext Text.parseU64_eq_some_iff.symm
    rw [same]
    constructor
    · rintro ⟨spec, accepted⟩
      obtain ⟨range, denotes, satisfiable, _⟩ := parseRangeSpec_eq_ok_iff.mp accepted
      exact ⟨range, denotes, satisfiable⟩
    · rintro ⟨range, denotes, satisfiable⟩
      exact ⟨_, parseRangeSpec_eq_ok_iff.mpr ⟨range, denotes, satisfiable, rfl⟩⟩
  constructor
  · intro agree signed
    exact (agree.mp (accepted_iff.mpr signed.1)).unsigned signed.2
  · intro unsigned
    constructor
    · rintro ⟨spec, accepted⟩
      refine wellFormedHeader_of_accepted accepted fun plus => ?_
      exact unsigned ⟨accepted_iff.mp ⟨spec, accepted⟩, plus⟩
    · exact accepted_of_wellFormedHeader

/-- A sign is accepted. -/
theorem signed_range_accepted :
    parseRangeSpec "bytes=+5-10".toList = .ok (.offset 5 10) ∧
      ¬WellFormedHeader "bytes=+5-10".toList :=
  ⟨by decide +kernel, fun wellFormed => wellFormed.unsigned (by decide)⟩

end VideoProxy
