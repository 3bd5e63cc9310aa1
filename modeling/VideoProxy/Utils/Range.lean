import VideoProxy.Lib.Text
import VideoProxy.Utils.Error

/-!
# Byte ranges

Parsing, normalising and measuring single HTTP byte ranges, as the module
`utils::range` of the proxy does.  An open-ended range carries the sentinel
`openEnded` as its end until a total length is known.
-/

namespace VideoProxy

/-- `OPEN_ENDED`: end of a range `bytes=N-` before it is resolved. -/
def openEnded : Nat := u64Max

/-- `RangeSpec`: the two forms of a single byte range. -/
inductive RangeSpec
  | offset (start finish : Nat)
  | suffix (length : Nat)
  deriving DecidableEq

/-- `RangeSpec::endpoints`. -/
def RangeSpec.endpoints :
    RangeSpec → Option Nat → Except ProxyError (Nat × Nat)
  | .offset start finish, _ => .ok (start, finish)
  | .suffix _, some 0 => .error (.invalidRange "资源长度为 0")
  | .suffix length, some total => .ok (total - length, total - 1)
  | .suffix _, none =>
    .error (.invalidRange "总长度未知，无法定位后缀范围")

/-- The part of `parse_range_spec` after the two positions have been split
apart and trimmed. -/
def parseRangeParts (first second : Text) : Except ProxyError RangeSpec :=
  if first.isEmpty then
    match Text.parseU64 second with
    | none => .error (.request "Invalid suffix length")
    | some length =>
      if length = 0 then
        .error (.invalidRange "后缀范围长度不能为 0")
      else .ok (.suffix length)
  else
    match Text.parseU64 first with
    | none => .error (.request "Invalid start position")
    | some start =>
      let finish :=
        if second.isEmpty then some openEnded else Text.parseU64 second
      match finish with
      | none => .error (.request "Invalid end position")
      | some finish =>
        if start > finish then
          .error (.request "Invalid range: start > end")
        else .ok (.offset start finish)

/-- `parse_range_spec`. -/
def parseRangeSpec (header : Text) : Except ProxyError RangeSpec :=
  match Text.stripStart "bytes=".toList header with
  | none => .error (.request "Invalid range format")
  | some range =>
    if range.contains ',' then
      .error (.invalidRange "multiple byte ranges are not supported")
    else
      match range.splitOn '-' with
      | [first, second] =>
        parseRangeParts (Text.trim first) (Text.trim second)
      | _ => .error (.request "Invalid range format")

/-- `parse_range`: the range must already have the form `start-end`. -/
def parseRange (header : Text) : Except ProxyError (Nat × Nat) :=
  match parseRangeSpec header with
  | .ok (.offset start finish) => .ok (start, finish)
  | .ok (.suffix _) =>
    .error (.invalidRange "后缀范围需先借总长度解析为具体区间")
  | .error error => .error error

/-- `format_range`. -/
def formatRange (start finish : Nat) : Text :=
  if finish = openEnded then
    "bytes=".toList ++ Text.decimal start ++ ['-']
  else
    "bytes=".toList ++ Text.decimal start ++ ['-'] ++ Text.decimal finish

/-- `resolve_range`: bound a range by the total length of the resource. -/
def resolveRange (start finish : Nat) : Option Nat → Except ProxyError (Nat × Nat)
  | some 0 => .error (.invalidRange "资源长度为 0")
  | some total =>
    let last := total - 1
    if start > last then
      .error (.invalidRange s!"范围起点 {start} 超出资源长度 {total}")
    else .ok (start, min finish last)
  | none =>
    if finish = openEnded then
      .error (.invalidRange "总长度未知，无法确定开区间的结束位置")
    else .ok (start, finish)

/-- `range_length`: number of bytes of a closed range. -/
def rangeLength (start finish : Nat) : Except ProxyError Nat :=
  match (checkedSub finish start).bind fun span => checkedAdd span 1 with
  | some length => .ok length
  | none => .error (.invalidRange s!"无效范围: {start}-{finish}")

/-- `clamp_end_to_upstream_length`. -/
def clampEndToUpstreamLength (start finish upstreamLength : Nat) : Nat :=
  match upstreamLength with
  | 0 => finish
  | length => min finish (saturatingAdd start (length - 1))

/-! ## Lengths and bounds -/

variable {finish start : Nat}

theorem rangeLength_of_le (ordered : start ≤ finish) (closed : finish < openEnded) :
    rangeLength start finish = .ok (finish - start + 1) := by
  have word : finish - start + 1 ≤ u64Max := by
    unfold openEnded at closed
    omega
  have span : checkedSub finish start = some (finish - start) :=
    checkedSub_eq_some_iff.mpr ⟨ordered, rfl⟩
  simp [rangeLength, span, checkedAdd_of_le word]

theorem rangeLength_eq_ok_iff {length : Nat} :
    rangeLength start finish = .ok length ↔ start ≤ finish ∧ finish - start + 1 ≤ u64Max ∧
        finish - start + 1 = length := by
  unfold rangeLength checkedSub checkedAdd
  by_cases ordered : start ≤ finish
  · by_cases word : finish - start + 1 ≤ u64Max
    · simp only [if_pos ordered, Option.bind_some, if_pos word, Except.ok.injEq]
      exact ⟨fun length_eq => ⟨ordered, word, length_eq⟩, fun bounds => bounds.2.2⟩
    · simp only [if_pos ordered, Option.bind_some, if_neg word, reduceCtorEq, false_iff, not_and]
      intro _ fits
      exact absurd fits word
  · simp only [if_neg ordered, Option.bind_none, reduceCtorEq, false_iff]
    intro fits
    exact ordered fits.1

theorem resolveRange_some_eq_ok_iff {total : Nat} {resolved : Nat × Nat} :
    resolveRange start finish (some total) = .ok resolved ↔
      start < total ∧ resolved = (start, min finish (total - 1)) := by
  cases total with
  | zero => simp [resolveRange]
  | succ last =>
    simp only [resolveRange, Nat.add_sub_cancel]
    by_cases inside : start > last
    · rw [if_pos inside]
      simp only [reduceCtorEq, false_iff, not_and]
      omega
    · rw [if_neg inside]
      simp only [Except.ok.injEq]
      constructor
      · intro equal
        exact ⟨by omega, equal.symm⟩
      · intro resolved_eq
        exact resolved_eq.2.symm

theorem clampEndToUpstreamLength_of_body {last : Nat} (ordered : start ≤ last)
    (inside : last ≤ finish) (word : last ≤ u64Max) :
    clampEndToUpstreamLength start finish (last - start + 1) = last := by
  unfold clampEndToUpstreamLength
  simp only
  rw [Nat.add_sub_cancel, saturatingAdd_of_le (by omega)]
  omega

theorem clampEndToUpstreamLength_eq_iff {upstreamLength : Nat}
    (positive : 0 < upstreamLength) (word : finish ≤ u64Max) :
    clampEndToUpstreamLength start finish upstreamLength = finish ↔
      finish < start + upstreamLength := by
  cases upstreamLength with
  | zero => cases positive
  | succ length =>
    simp only [clampEndToUpstreamLength, Nat.add_sub_cancel, saturatingAdd]
    omega

/-! ## Reading a printed range -/

theorem isEmpty_decimal (value : Nat) : (Text.decimal value).isEmpty = false := by
  rw [List.isEmpty_eq_false_iff]
  exact Text.decimal_ne_nil value

theorem parseRangeSpec_positions {first second : Text} (firstPlain : '-' ∉ first ∧ ',' ∉ first)
    (secondPlain : '-' ∉ second ∧ ',' ∉ second) :
    parseRangeSpec ("bytes=".toList ++ (first ++ '-' :: second)) =
      parseRangeParts (Text.trim first) (Text.trim second) := by
  have parts : (first ++ '-' :: second).splitOn '-' = [first, second] := by
    have noDash : ∀ text : Text, '-' ∉ text → ∀ char ∈ text, (char == '-') = false := by
      intro text absent char member
      rw [beq_eq_false_iff_ne]
      rintro rfl
      exact absent member
    rw [List.splitOn_eq_splitOnP, List.splitOnP_append_cons_of_forall_mem (noDash first
      firstPlain.1) '-' (by simp), List.splitOnP_eq_singleton (noDash second secondPlain.1)]
  have noComma : (first ++ '-' :: second).contains ',' = false := by
    simp [firstPlain.2, secondPlain.2]
  unfold parseRangeSpec
  rw [Text.stripStart_append]
  simp only [noComma, parts, Bool.false_eq_true, if_false]

theorem decimal_plain (value : Nat) : '-' ∉ Text.decimal value ∧ ',' ∉ Text.decimal value :=
  ⟨Text.not_mem_decimal (by decide) value, Text.not_mem_decimal (by decide) value⟩

/-- A printed range reads back as the same range, the open-ended sentinel
included. -/
theorem parseRange_formatRange (ordered : start ≤ finish) (word : finish ≤ u64Max) :
    parseRange (formatRange start finish) = .ok (start, finish) := by
  have startReads : Text.parseU64 (Text.decimal start) = some start := by
    rw [Text.parseU64_decimal, if_pos (by omega)]
  have finishReads : Text.parseU64 (Text.decimal finish) = some finish := by
    rw [Text.parseU64_decimal, if_pos word]
  suffices parsed : parseRangeSpec (formatRange start finish) = .ok (.offset start finish) by
    rw [parseRange, parsed]
  unfold formatRange
  split
  · rename_i unbounded
    rw [List.append_assoc,
      parseRangeSpec_positions (decimal_plain start) (by simp), Text.trim_decimal]
    simp [parseRangeParts, isEmpty_decimal, startReads, Text.trim, ← unbounded, ordered]
  · rw [List.append_assoc, List.append_assoc, List.singleton_append,
      parseRangeSpec_positions (decimal_plain start) (decimal_plain finish),
      Text.trim_decimal, Text.trim_decimal]
    simp [parseRangeParts, isEmpty_decimal, startReads, finishReads, ordered]

/-! ## Ranges that can be read -/

/-- The ranges that can be read: nonempty ones of machine words. -/
def RangeSpec.WellFormed : RangeSpec → Prop
  | .offset start finish => start ≤ finish ∧ finish ≤ u64Max
  | .suffix length => 0 < length ∧ length ≤ u64Max

theorem parseRangeSpec_wellFormed {header : Text} {spec : RangeSpec}
    (parsed : parseRangeSpec header = .ok spec) :
    spec.WellFormed := by
  have parts {first second : Text} (read : parseRangeParts first second = .ok spec) :
      spec.WellFormed := by
    unfold parseRangeParts at read
    split at read
    · split at read
      · cases read
      · split at read
        · cases read
        · rename_i length_eq nonempty
          cases read
          exact ⟨Nat.pos_of_ne_zero nonempty, Text.parseU64_le length_eq⟩
    · split at read
      · cases read
      · simp only at read
        split at read
        · cases read
        · rename_i last last_eq
          split at read
          · cases read
          · rename_i ordered
            cases read
            refine ⟨by omega, ?_⟩
            split at last_eq
            · cases last_eq
              exact le_rfl
            · exact Text.parseU64_le last_eq
  unfold parseRangeSpec at parsed
  split at parsed
  · cases parsed
  · split at parsed
    · cases parsed
    · split at parsed
      · exact parts parsed
      · cases parsed

theorem parseRange_eq_ok {header : Text} (parsed : parseRange header = .ok (start, finish)) :
    start ≤ finish ∧ finish ≤ u64Max := by
  unfold parseRange at parsed
  split at parsed
  · rename_i first last spec_eq
    cases parsed
    exact parseRangeSpec_wellFormed spec_eq
  · cases parsed
  · cases parsed

end VideoProxy
