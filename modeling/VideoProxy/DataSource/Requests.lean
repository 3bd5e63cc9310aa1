import VideoProxy.Handlers.Network

/-!
# Requests that matter

A fetch asks for its range until a response is accepted, and then for the rest of
it each time the body fails.  What the upstream would answer to a request that
starts before the range makes no difference to the fetch, whereas a refusal of
the range itself is passed on.
-/

namespace VideoProxy
namespace NetSource

/-- A `Range` header whose first position is not before a given one. -/
def AsksFrom (position : Nat) (range : Text) : Prop :=
  ∃ first last, range = formatRange first last ∧ position ≤ first

theorem formatRange_eq_append (start finish : Nat) :
    ∃ rest, formatRange start finish = "bytes=".toList ++ (Text.decimal start ++ '-' :: rest) := by
  unfold formatRange
  split
  · exact ⟨[], by rw [List.append_assoc]⟩
  · refine ⟨Text.decimal finish, ?_⟩
    simp only [List.append_assoc, List.singleton_append]

theorem first_eq_of_formatRange_eq {first last otherFirst otherLast : Nat}
    (same : formatRange first last = formatRange otherFirst otherLast) :
    first = otherFirst := by
  obtain ⟨rest, range_eq⟩ := formatRange_eq_append first last
  obtain ⟨otherRest, other_eq⟩ := formatRange_eq_append otherFirst otherLast
  rw [range_eq, other_eq, List.append_cancel_left_eq] at same
  exact Text.decimal_inj.mp
    (Text.append_cons_inj (decimal_plain first).1 (decimal_plain otherFirst).1 same).1

theorem asksFrom_formatRange_iff {position first last : Nat} :
    AsksFrom position (formatRange first last) ↔ position ≤ first := by
  constructor
  · rintro ⟨otherFirst, otherLast, same, after⟩
    rw [first_eq_of_formatRange_eq same]
    exact after
  · exact fun after => ⟨first, last, rfl, after⟩

end NetSource

/-- Two upstreams that answer alike to every request from a position on. -/
structure Upstream.AgreeFrom
    (position : Nat)
    (first second : Upstream) : Prop where
  policy : first.policy = second.policy
  opening : ∀ attempt range, NetSource.AsksFrom position range →
    first.opening attempt range = second.opening attempt range
  resuming : ∀ attempt range, NetSource.AsksFrom position range →
    first.resuming attempt range = second.resuming attempt range

/-- An upstream that answers to one range with a given status. -/
def Upstream.refusing
    (range : Text)
    (status : Nat)
    (upstream : Upstream) : Upstream :=
  { upstream with
    opening := fun attempt sent =>
      if sent = range then .answered ⟨status, "", [], []⟩
      else upstream.opening attempt sent }

/-- A refusal before a position changes nothing from there on. -/
theorem Upstream.agreeFrom_refusing
    (upstream : Upstream)
    {position : Nat} {range : Text}
    (before : ¬NetSource.AsksFrom position range)
    (status : Nat) :
    upstream.AgreeFrom position (upstream.refusing range status) where
  policy := rfl
  opening := by
    intro attempt sent asked
    have other : sent ≠ range := by
      rintro rfl
      exact before asked
    exact (if_neg other).symm
  resuming := fun _ _ _ => rfl

namespace NetSource

section Resuming

variable {first second : Nat → Text → Exchange} {rangeStart : Nat}
  (alike : ∀ attempt range, AsksFrom rangeStart range →
    first attempt range = second attempt range)
include alike

/-- A body is resumed inside its range. -/
theorem wrapBody_congr
    (rangeEnd attempt : Nat)
    (retry : Option (ByteStream → Nat → ByteStream))
    (body : ByteStream)
    (bytesRead : Nat) :
    wrapBody first rangeStart rangeEnd attempt retry body bytesRead =
      wrapBody second rangeStart rangeEnd attempt retry body bytesRead := by
  induction body generalizing bytesRead with
  | nil => rfl
  | cons item body inductionHypothesis =>
    cases item with
    | ok chunk => simp only [wrapBody, inductionHypothesis]
    | error error =>
      cases retry with
      | none => simp only [wrapBody, inductionHypothesis]
      | some retry =>
        simp only [wrapBody]
        cases added : checkedAdd rangeStart bytesRead with
        | none => rfl
        | some resumeStart =>
          have inside : rangeStart ≤ resumeStart := by
            rw [← (checkedAdd_eq_some_iff.mp added).1]
            exact Nat.le_add_right _ _
          simp only [alike (attempt + 1) _ (asksFrom_formatRange_iff.mpr inside)]

theorem wrapWithRetry_congr (rangeEnd maxAttempts remaining : Nat) :
    wrapWithRetry first rangeStart rangeEnd maxAttempts remaining =
      wrapWithRetry second rangeStart rangeEnd maxAttempts remaining := by
  induction remaining with
  | zero =>
    funext body bytesRead
    exact wrapBody_congr alike _ _ _ _ _
  | succ remaining inductionHypothesis =>
    funext body bytesRead
    rw [wrapWithRetry, wrapWithRetry, inductionHypothesis]
    exact wrapBody_congr alike _ _ _ _ _

end Resuming

/-- A range is downloaded alike from upstreams that agree from its start on. -/
theorem downloadStream_congr
    {position start finish : Nat} {upstream other : Upstream}
    (agree : upstream.AgreeFrom position other)
    (inside : position ≤ start)
    (ordered : start ≤ finish)
    (word : finish ≤ u64Max) :
    downloadStream upstream (formatRange start finish) =
      downloadStream other (formatRange start finish) := by
  have opened : (fun attempt => upstream.opening attempt (formatRange start finish)) =
      fun attempt => other.opening attempt (formatRange start finish) := by
    funext attempt
    exact agree.opening attempt _ (asksFrom_formatRange_iff.mpr inside)
  have resumed (attempt : Nat) (range : Text) (asked : AsksFrom start range) :
      upstream.resuming attempt range = other.resuming attempt range := by
    obtain ⟨first, last, rfl, after⟩ := asked
    exact agree.resuming attempt _ (asksFrom_formatRange_iff.mpr (inside.trans after))
  unfold downloadStream
  rw [agree.policy, parseRange_formatRange ordered word, opened]
  refine bind_congr fun _ => ?_
  change (downloadLoop _ _ start finish _ _ _ >>= _) =
    (downloadLoop _ _ start finish _ _ _ >>= _)
  refine bind_congr fun accepted => ?_
  rw [wrapWithRetry_congr resumed]

/-- A refusal with one of two statuses ends the first attempt. -/
theorem downloadStream_refusing
    {upstream : Upstream}
    (allowed : upstream.policy = .ok ())
    {range : Text} {ends : Nat × Nat}
    (parsed : parseRange range = .ok ends) :
    downloadStream (upstream.refusing range 416) range =
        .error (.invalidRange ("上游拒绝范围请求: " ++ String.ofList range)) ∧
      downloadStream (upstream.refusing range 401) range =
        .error (.upstreamAuthorizationExpired none) := by
  constructor
  all_goals
    unfold downloadStream Upstream.refusing
    simp only [allowed, parsed, if_true]
    rfl

end NetSource

namespace NetworkHandler

theorem fetch_congr
    {position start finish : Nat} {upstream other : Upstream}
    (agree : upstream.AgreeFrom position other)
    (inside : position ≤ start)
    (ordered : start ≤ finish)
    (word : finish ≤ u64Max) :
    fetch upstream (formatRange start finish) =
      fetch other (formatRange start finish) := by
  unfold fetch
  rw [NetSource.downloadStream_congr agree inside ordered word]

/-- The answer to the range itself makes a difference. -/
theorem exists_refusals
    {upstream : Upstream}
    (allowed : upstream.policy = .ok ())
    {range : Text} {ends : Nat × Nat}
    (parsed : parseRange range = .ok ends) :
    ∃ first second, first ≠ second ∧
      fetch (upstream.refusing range 416) range = .error first ∧
      fetch (upstream.refusing range 401) range = .error second := by
  obtain ⟨refused, expired⟩ := NetSource.downloadStream_refusing allowed parsed
  have fails {other : Upstream} {reason : ProxyError}
      (ended : NetSource.downloadStream other range = .error reason) :
      fetch other range = .error reason := by
    unfold fetch
    rw [ended]
    rfl
  exact ⟨_, _, by simp, fails refused, fails expired⟩

end NetworkHandler
end VideoProxy
