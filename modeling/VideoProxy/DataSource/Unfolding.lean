import Mathlib.Logic.Relation
import VideoProxy.DataSource.Resume

/-!
# The stream of a resumed body, turn by turn

`wrap_with_retry` unfolds a state: the current body, the bytes read so far and the
number of the attempt.  Each turn of its loop takes one item from the body and
passes it on, or asks the upstream for the rest when the item is a failure.

The state here also keeps what was yielded and how many responses were taken, so
that the invariant can speak about both.  As long as nothing failed, what was
yielded and what the body still delivers are, together, a beginning of the
resource from the start of the range on.
-/

namespace VideoProxy

theorem append_begins {first second whole : Bytes} (begins : first <+: whole)
    (continues : second <+: whole.drop first.length) :
    first ++ second <+: whole := by
  obtain ⟨rest, rfl⟩ := begins
  rw [List.drop_left] at continues
  exact (List.prefix_append_right_inj first).mpr continues

theorem totalBytes_append (first second : ByteStream) :
    totalBytes (first ++ second) = totalBytes first + totalBytes second := by
  induction first with
  | nil => exact (Nat.zero_add _).symm
  | cons item first inductionHypothesis =>
    cases item with
    | error reason => exact inductionHypothesis
    | ok chunk =>
      rw [List.cons_append, totalBytes, totalBytes, inductionHypothesis, Nat.add_assoc]

theorem length_delivered {stream : ByteStream} (faultless : ∀ reason, .error reason ∉ stream) :
    (delivered stream).length = totalBytes stream := by
  induction stream with
  | nil => rfl
  | cons item stream inductionHypothesis =>
    cases item with
    | error reason => exact absurd List.mem_cons_self (faultless reason)
    | ok chunk =>
      rw [delivered, totalBytes, List.length_append, inductionHypothesis
        fun reason member => faultless reason (List.mem_cons_of_mem _ member)]

namespace NetSource

/-- The state of the stream, with the items yielded and the number of responses
taken so far. -/
structure Unfolding where
  body : ByteStream
  bytesRead : Nat
  attempt : Nat
  yielded : ByteStream
  responses : Nat

namespace Unfolding

/-- The state in which the first body is read. -/
def initial (body : ByteStream) : Unfolding where
  body := body
  bytesRead := 0
  attempt := 1
  yielded := []
  responses := 1

/-- Yield an item and go on with a body, a number of bytes and an attempt. -/
def yield (state : Unfolding) (item : Except ProxyError Bytes) (body : ByteStream)
    (bytesRead attempt : Nat) : Unfolding :=
  { state with body, bytesRead, attempt, yielded := state.yielded ++ [item] }

end Unfolding

section Turns

variable (resuming : Nat → Text → Exchange)
variable (rangeStart rangeEnd maxAttempts : Nat)

/-- One turn of the loop of `wrap_with_retry`; none when the stream has ended. -/
def turn (state : Unfolding) : Option Unfolding :=
  match state.body with
  | [] => none
  | .ok chunk :: body =>
    match advanceBytesRead state.bytesRead chunk.length rangeStart rangeEnd with
    | .error error =>
      some (state.yield (.error error) [] state.bytesRead maxAttempts)
    | .ok next => some (state.yield (.ok chunk) body next state.attempt)
  | .error error :: body =>
    if state.attempt ≥ maxAttempts then
      some (state.yield (.error (.network ("流式读取失败: " ++ error.display))) body
        state.bytesRead state.attempt)
    else
      match checkedAdd rangeStart state.bytesRead with
      | none =>
        some (state.yield (.error (.network "续传位置超出可表示范围")) [] state.bytesRead maxAttempts)
      | some resumeStart =>
        let resumeRange := formatRange resumeStart rangeEnd
        match tryDownload resumeRange resumeStart rangeEnd
            (resuming (state.attempt + 1) resumeRange) with
        | .ok (response, _) =>
          some { state with
            body := response.body
            attempt := state.attempt + 1
            responses := state.responses + 1 }
        | .error retryError =>
          some (state.yield (.error retryError) body state.bytesRead (state.attempt + 1))

/-- States that turns lead to. -/
def Turns : Unfolding → Unfolding → Prop :=
  Relation.ReflTransGen fun before after =>
    turn resuming rangeStart rangeEnd maxAttempts before = some after

end Turns

section Inverting

variable {resuming : Nat → Text → Exchange}
variable {rangeStart rangeEnd maxAttempts : Nat}

/-- What one turn does. -/
inductive Turned (before : Unfolding) : Unfolding → Prop
  | passed {chunk : Bytes} {body : ByteStream} {next : Nat}
      (item : before.body = .ok chunk :: body)
      (counts : advanceBytesRead before.bytesRead chunk.length rangeStart rangeEnd = .ok next) :
      Turned before (before.yield (.ok chunk) body next before.attempt)
  | failed {reason : ProxyError} {body : ByteStream} {attempt : Nat}
      (within : before.attempt ≤ maxAttempts → before.attempt ≤ attempt ∧ attempt ≤ maxAttempts) :
      Turned before (before.yield (.error reason) body before.bytesRead attempt)
  | resumed {error : ProxyError} {body : ByteStream} {resumeStart : Nat}
      {accepted : NetResponse × Nat}
      (item : before.body = .error error :: body)
      (left : before.attempt < maxAttempts)
      (sum : rangeStart + before.bytesRead = resumeStart)
      (answers : tryDownload (formatRange resumeStart rangeEnd) resumeStart rangeEnd
        (resuming (before.attempt + 1) (formatRange resumeStart rangeEnd)) = .ok accepted) :
      Turned before
        { before with
          body := accepted.1.body
          attempt := before.attempt + 1
          responses := before.responses + 1 }

theorem turn_eq_some {before after : Unfolding}
    (turns : turn resuming rangeStart rangeEnd maxAttempts before = some after) :
    @Turned resuming rangeStart rangeEnd maxAttempts before after := by
  unfold turn at turns
  split at turns
  · cases turns
  · rename_i chunk body item
    split at turns
    · cases turns
      exact .failed fun bounded => ⟨bounded, Nat.le_refl _⟩
    · rename_i next counts
      cases turns
      exact .passed item counts
  · rename_i error body item
    split at turns
    · cases turns
      exact .failed fun bounded => ⟨Nat.le_refl _, bounded⟩
    · rename_i left
      split at turns
      · cases turns
        exact .failed fun bounded => ⟨bounded, Nat.le_refl _⟩
      · rename_i resumeStart sum
        simp only at turns
        split at turns
        · rename_i response length answers
          cases turns
          exact .resumed item (Nat.not_le.mp left) (checkedAdd_eq_some_iff.mp sum).1 answers
        · cases turns
          exact .failed fun _ => ⟨Nat.le_succ _, Nat.not_le.mp left⟩

/-- A chunk that is counted ends inside a closed range. -/
theorem advanceBytesRead_eq_ok {bytesRead chunkLength next : Nat}
    (counts : advanceBytesRead bytesRead chunkLength rangeStart rangeEnd = .ok next) :
    bytesRead + chunkLength = next ∧ (rangeEnd ≠ openEnded → next ≤ rangeEnd + 1 - rangeStart) := by
  unfold advanceBytesRead at counts
  split at counts
  · cases counts
  · rename_i sum added
    obtain ⟨rfl, -⟩ := checkedAdd_eq_some_iff.mp added
    split at counts
    · split at counts
      · cases counts
      · rename_i expected span
        split at counts
        · cases counts
        · rename_i inside
          cases counts
          simp only [Option.bind_eq_some_iff, checkedSub_eq_some_iff,
            checkedAdd_eq_some_iff] at span
          obtain ⟨length, ⟨ordered, rfl⟩, rfl, -⟩ := span
          exact ⟨rfl, fun _ => by omega⟩
    · rename_i unbounded
      cases counts
      exact ⟨rfl, fun closed => absurd closed unbounded⟩

end Inverting

/-! ## What every turn keeps -/

/-- What holds of the stream at every moment. -/
structure Resumes (resource : Bytes) (rangeStart rangeEnd maxAttempts : Nat)
    (state : Unfolding) : Prop where
  counted : totalBytes state.yielded = state.bytesRead
  within : rangeEnd ≠ openEnded → state.bytesRead ≤ rangeEnd + 1 - rangeStart
  taken : state.responses ≤ state.attempt
  attempts : state.attempt ≤ maxAttempts
  begins : delivered (state.yielded ++ state.body) <+: resource.drop rangeStart

section Keeping

variable {resource : Bytes}
variable {resuming : Nat → Text → Exchange}
variable {rangeStart rangeEnd maxAttempts : Nat}

theorem resumes_initial (positive : 0 < maxAttempts) {body : ByteStream}
    (opens : delivered body <+: resource.drop rangeStart) :
    Resumes resource rangeStart rangeEnd maxAttempts (.initial body) where
  counted := rfl
  within _ := Nat.zero_le _
  taken := Nat.le_refl _
  attempts := positive
  begins := opens

theorem delivered_append_error (first : ByteStream) (reason : ProxyError) (second : ByteStream) :
    delivered (first ++ .error reason :: second) = delivered first := by
  by_cases faultless : ∀ other, .error other ∉ first
  · rw [delivered_append faultless, delivered, List.append_nil]
  · push Not at faultless
    obtain ⟨other, fails⟩ := faultless
    exact delivered_append_of_error fails

theorem Resumes.turn (resumed : ∀ attempt first accepted,
      tryDownload (formatRange first rangeEnd) first rangeEnd
          (resuming attempt (formatRange first rangeEnd)) = .ok accepted →
        delivered accepted.1.body <+: resource.drop first)
    {before after : Unfolding} (resumes : Resumes resource rangeStart rangeEnd maxAttempts before)
    (turns : NetSource.turn resuming rangeStart rangeEnd maxAttempts before = some after) :
    Resumes resource rangeStart rangeEnd maxAttempts after := by
  cases turn_eq_some turns with
  | @passed chunk body next item counts =>
    obtain ⟨rfl, inside⟩ := advanceBytesRead_eq_ok counts
    have begins := resumes.begins
    rw [item] at begins
    refine ⟨?_, inside, resumes.taken, resumes.attempts, ?_⟩
    · rw [Unfolding.yield, totalBytes_append, resumes.counted]
      rfl
    · rw [Unfolding.yield, List.append_assoc]
      exact begins
  | @failed reason body attempt within =>
    obtain ⟨later, bounded⟩ := within resumes.attempts
    refine ⟨?_, resumes.within, resumes.taken.trans later, bounded, ?_⟩
    · rw [Unfolding.yield, totalBytes_append, resumes.counted]
      rfl
    · rw [Unfolding.yield, List.append_assoc]
      change delivered (before.yielded ++ .error reason :: body) <+: _
      rw [delivered_append_error]
      exact (delivered_mono (List.prefix_append _ _)).trans resumes.begins
  | @resumed error body resumeStart accepted item left sum answers =>
    refine ⟨resumes.counted, resumes.within, Nat.succ_le_succ resumes.taken, left, ?_⟩
    have continues := resumed _ _ _ answers
    have begins := resumes.begins
    rw [item, delivered_append_error] at begins
    by_cases faultless : ∀ reason, .error reason ∉ before.yielded
    · rw [delivered_append faultless]
      refine append_begins begins ?_
      rw [length_delivered faultless, resumes.counted, List.drop_drop, sum]
      exact continues
    · push Not at faultless
      obtain ⟨reason, fails⟩ := faultless
      rw [delivered_append_of_error fails]
      exact begins

end Keeping

/-! ## The whole stream -/

section Ending

variable {resuming : Nat → Text → Exchange}
variable {rangeStart rangeEnd maxAttempts : Nat}

/-- From a state on, the turns yield these items and come to an end. -/
def Unfolds (resuming : Nat → Text → Exchange) (rangeStart rangeEnd maxAttempts : Nat)
    (state : Unfolding) (stream : ByteStream) : Prop :=
  ∃ final, Turns resuming rangeStart rangeEnd maxAttempts state final ∧
    turn resuming rangeStart rangeEnd maxAttempts final = none ∧
    final.yielded = state.yielded ++ stream

variable {state : Unfolding}

theorem unfolds_nil (ended : state.body = []) :
    Unfolds resuming rangeStart rangeEnd maxAttempts state [] := by
  refine ⟨state, .refl, ?_, (List.append_nil _).symm⟩
  rw [turn, ended]

theorem Unfolds.cons {before after : Unfolding} {items stream : ByteStream}
    (turns : turn resuming rangeStart rangeEnd maxAttempts before = some after)
    (yields : after.yielded = before.yielded ++ items)
    (unfolds : Unfolds resuming rangeStart rangeEnd maxAttempts after stream) :
    Unfolds resuming rangeStart rangeEnd maxAttempts before (items ++ stream) := by
  obtain ⟨final, reaches, ended, yielded_eq⟩ := unfolds
  refine ⟨final, .head turns reaches, ended, ?_⟩
  rw [yielded_eq, yields, List.append_assoc]

/-- The items of one body, and of what follows it. -/
theorem unfolds_wrapBody {retry : Option (ByteStream → Nat → ByteStream)} {attempt : Nat}
    (exhausted : retry = none → maxAttempts ≤ attempt)
    (retries : ∀ next, retry = some next → attempt < maxAttempts ∧
      ∀ state : Unfolding, state.attempt = attempt + 1 →
        Unfolds resuming rangeStart rangeEnd maxAttempts state (next state.body state.bytesRead))
    (current : state.attempt = attempt) :
    Unfolds resuming rangeStart rangeEnd maxAttempts state
      (wrapBody resuming rangeStart rangeEnd attempt retry state.body state.bytesRead) := by
  generalize body_eq : state.body = body
  induction body generalizing state with
  | nil => exact unfolds_nil body_eq
  | cons item body inductionHypothesis =>
    subst current
    cases item with
    | ok chunk =>
      unfold wrapBody
      cases counts : advanceBytesRead state.bytesRead chunk.length rangeStart rangeEnd with
      | error error =>
        have turns : turn resuming rangeStart rangeEnd maxAttempts state =
            some (state.yield (.error error) [] state.bytesRead maxAttempts) := by
          unfold turn
          simp only [body_eq, counts]
        exact Unfolds.cons turns rfl (unfolds_nil rfl)
      | ok next =>
        have turns : turn resuming rangeStart rangeEnd maxAttempts state =
            some (state.yield (.ok chunk) body next state.attempt) := by
          unfold turn
          simp only [body_eq, counts]
        exact Unfolds.cons turns rfl
          (@inductionHypothesis (state.yield (.ok chunk) body next state.attempt) rfl rfl)
    | error error =>
      unfold wrapBody
      cases retry with
      | none =>
        have turns : turn resuming rangeStart rangeEnd maxAttempts state =
            some (state.yield (.error (.network ("流式读取失败: " ++ error.display)))
              body state.bytesRead state.attempt) := by
          unfold turn
          simp only [body_eq, if_pos (exhausted rfl)]
        exact Unfolds.cons turns rfl
          (@inductionHypothesis (state.yield _ body state.bytesRead state.attempt) rfl rfl)
      | some next =>
        obtain ⟨left, continues⟩ := retries next rfl
        have again := Nat.not_le.mpr left
        cases sum : checkedAdd rangeStart state.bytesRead with
        | none =>
          have turns : turn resuming rangeStart rangeEnd maxAttempts state =
              some (state.yield (.error (.network "续传位置超出可表示范围")) []
                state.bytesRead maxAttempts) := by
            unfold turn
            simp only [body_eq, if_neg again, sum]
          exact Unfolds.cons turns rfl (unfolds_nil rfl)
        | some resumeStart =>
          simp only
          cases answers : tryDownload (formatRange resumeStart rangeEnd)
              resumeStart rangeEnd (resuming (state.attempt + 1)
                (formatRange resumeStart rangeEnd)) with
          | ok accepted =>
            have turns : turn resuming rangeStart rangeEnd maxAttempts state = some { state with
                  body := accepted.1.body
                  attempt := state.attempt + 1
                  responses := state.responses + 1 } := by
              unfold turn
              simp only [body_eq, if_neg again, sum, answers]
            exact Unfolds.cons turns (List.append_nil _).symm (continues _ rfl)
          | error retryError =>
            have turns : turn resuming rangeStart rangeEnd maxAttempts state =
                some (state.yield (.error retryError) body state.bytesRead
                  (state.attempt + 1)) := by
              unfold turn
              simp only [body_eq, if_neg again, sum, answers]
            exact Unfolds.cons turns rfl (continues _ rfl)

theorem unfolds_wrapWithRetry {remaining : Nat} (left : state.attempt + remaining = maxAttempts) :
    Unfolds resuming rangeStart rangeEnd maxAttempts state
      (wrapWithRetry resuming rangeStart rangeEnd maxAttempts remaining state.body
        state.bytesRead) := by
  induction remaining generalizing state with
  | zero =>
    exact unfolds_wrapBody (fun _ => by omega) (fun _ absurdly => by cases absurdly) left
  | succ remaining inductionHypothesis =>
    refine unfolds_wrapBody (fun absurdly => by cases absurdly) ?_ (by omega)
    intro next same
    cases same
    exact ⟨by omega, fun state later => inductionHypothesis (by omega)⟩

end Ending

/-- Resuming leaves no gap and repeats nothing.  If every body that is accepted for
an offset delivers a beginning of the resource from there on, then at every moment
what was yielded before the first failure is a beginning of the resource from the
start of the range on, a closed range is not exceeded, and no more responses are
taken than attempts are allowed; and the stream comes to its end. -/
theorem wrapWithRetry_exact (resource : Bytes)
    {resuming : Nat → Text → Exchange}
    {rangeStart rangeEnd maxAttempts : Nat}
    (positive : 0 < maxAttempts)
    {body : ByteStream}
    (opens : delivered body <+: resource.drop rangeStart)
    (resumed : ∀ attempt first accepted, tryDownload (formatRange first rangeEnd) first rangeEnd
          (resuming attempt (formatRange first rangeEnd)) = .ok accepted →
        delivered accepted.1.body <+: resource.drop first) :
    (∀ state, Turns resuming rangeStart rangeEnd maxAttempts (.initial body) state →
      delivered state.yielded = (resource.drop rangeStart).take (delivered state.yielded).length ∧
        (rangeEnd ≠ openEnded → totalBytes state.yielded ≤ rangeEnd + 1 - rangeStart) ∧
        state.responses ≤ maxAttempts) ∧
    ∃ final, Turns resuming rangeStart rangeEnd maxAttempts (.initial body) final ∧
      turn resuming rangeStart rangeEnd maxAttempts final = none ∧
      final.yielded = wrapWithRetry resuming rangeStart rangeEnd maxAttempts
        (maxAttempts - 1) body 0 := by
  constructor
  · intro state reaches
    have resumes : Resumes resource rangeStart rangeEnd maxAttempts state := by
      induction reaches with
      | refl => exact resumes_initial positive opens
      | tail _ turns inductionHypothesis => exact inductionHypothesis.turn resumed turns
    refine ⟨?_, fun closed => ?_, resumes.taken.trans resumes.attempts⟩
    · exact List.prefix_iff_eq_take.mp
        ((delivered_mono (List.prefix_append _ _)).trans resumes.begins)
    · rw [resumes.counted]
      exact resumes.within closed
  · exact @unfolds_wrapWithRetry resuming rangeStart rangeEnd maxAttempts
      (.initial body) (maxAttempts - 1) (Nat.add_sub_cancel' positive)

/-- A body that breaks after one byte, and the two others as the rest. -/
theorem wrapWithRetry_exact_broken :
    ∃ final, Turns (fun _ _ => .answered (partialContent "2" "bytes 1-2/4" [.ok [1, 2]]))
        0 2 3 (.initial [.ok [0], .error (.network "connection reset")]) final ∧
      final.yielded = [.ok [0], .ok [1, 2]] := by
  obtain ⟨-, final, reaches, -, yielded_eq⟩ := @wrapWithRetry_exact [0, 1, 2, 3]
    (fun _ _ => .answered (partialContent "2" "bytes 1-2/4" [.ok [1, 2]])) 0 2 3
    (by decide) [.ok [0], .error (.network "connection reset")] (by decide) (by
      intro attempt first accepted answers
      obtain ⟨response, same, answer⟩ := tryDownload_eq_ok (by decide) answers
      cases same
      obtain ⟨value, last, total, found, split_eq, -⟩ := (answer.verified rfl).range
      cases found
      cases split_eq
      rw [answer.response_eq]
      decide)
  exact ⟨final, reaches, yielded_eq⟩

end NetSource
end VideoProxy
