import VideoProxy.DataSource.Download
import VideoProxy.Handlers.Network
import Mathlib.Data.Bool.AllAny

/-!
# Fetching from an origin of one resource

An origin of a resource answers a range request with an error, with a beginning
of the range as a `206` that says so, or with the whole resource as a `200`.
What is fetched from it is a piece of the resource that starts where the request
does, with its length and the total length of the resource.
-/

namespace VideoProxy

/-! ## Printed ranges -/

namespace ResponseBuilder

variable {totalSize : Nat}

theorem contentRange_eq (start finish : Nat) (positive : 0 < totalSize) :
    contentRange start finish totalSize = "bytes ".toList ++
      ((Text.decimal start ++ '-' :: Text.decimal finish) ++ '/' :: Text.decimal totalSize) := by
  unfold contentRange
  rw [if_pos positive]
  simp only [List.append_assoc, List.cons_append, List.nil_append]

theorem trim_contentRange (start finish : Nat) (positive : 0 < totalSize) :
    Text.trim (contentRange start finish totalSize) = contentRange start finish totalSize := by
  unfold contentRange
  rw [if_pos positive]
  apply Text.trim_append_decimal
  intro char first
  have word : "bytes ".toList = 'b' :: "ytes ".toList := by decide
  simp only [word, List.cons_append, List.head?_cons, Option.some.injEq] at first
  subst first
  decide

/-- The positions and the total of a printed range are read back. -/
theorem splitContentRange_contentRange {start finish : Nat} (positive : 0 < totalSize)
    {parts : Nat × Nat × Text}
    (split_eq : NetSource.splitContentRange (contentRange start finish totalSize) = .ok parts) :
    parts = (start, finish, Text.decimal totalSize) := by
  have noSlash : '/' ∉ Text.decimal start ++ '-' :: Text.decimal finish := by
    simp [Text.not_mem_decimal (show '/'.isDigit = false by decide)]
  unfold NetSource.splitContentRange at split_eq
  rw [trim_contentRange start finish positive, contentRange_eq start finish positive,
    Text.stripStart_append, Option.bind_some, Text.splitOnce_append noSlash] at split_eq
  simp only [Text.splitOnce_append (decimal_plain start).1, Text.parseU64_decimal] at split_eq
  split at split_eq
  · rename_i first last first_eq last_eq
    split at first_eq
    · split at last_eq
      · cases first_eq
        cases last_eq
        cases split_eq
        rfl
      · cases last_eq
    · cases first_eq
  · cases split_eq

theorem toStr_contentRange (start finish : Nat) (positive : 0 < totalSize) :
    Headers.toStr (contentRange start finish totalSize) =
      some (contentRange start finish totalSize) := by
  apply Headers.toStr_eq_some
  intro char member
  have number {value : Nat} (digit : char ∈ Text.decimal value) :
      32 ≤ char.toNat ∧ char.toNat < 127 := by
    have bounds := Text.toNat_of_isDigit (Text.isDigit_of_mem_decimal digit)
    omega
  have word : ∀ char ∈ "bytes ".toList, 32 ≤ char.toNat ∧ char.toNat < 127 :=
    List.all_iff_forall_prop.mp (by decide)
  rw [contentRange_eq start finish positive] at member
  simp only [List.mem_append, List.mem_cons] at member
  rcases member with fixed | (first | rfl | last) | rfl | total
  · exact word char fixed
  · exact number first
  · decide
  · exact number last
  · decide
  · exact number total

theorem afterLast_contentRange (start finish : Nat) (positive : 0 < totalSize) :
    NetworkHandler.afterLast '/' (contentRange start finish totalSize) =
      Text.decimal totalSize := by
  have plain : ∀ char ∈ (Text.decimal totalSize).reverse, decide (char ≠ '/') = true := by
    intro char member
    have absent := Text.not_mem_decimal (show '/'.isDigit = false by decide) totalSize
    rw [decide_eq_true_eq]
    rintro rfl
    exact absent (List.mem_reverse.mp member)
  unfold NetworkHandler.afterLast
  rw [contentRange_eq start finish positive, ← List.append_assoc, List.reverse_append,
    List.reverse_cons, List.append_assoc, List.takeWhile_append_of_pos plain]
  simp

end ResponseBuilder

/-! ## Origins -/

/-- The answers of an origin of a resource to a request for a range: no answer,
an error status, a beginning of the range, or the whole resource. -/
inductive Exchange.Honest (content : Bytes) (start finish : Nat) : Exchange → Prop
  | unbuildable : Honest content start finish .unbuildable
  | timedOut : Honest content start finish .timedOut
  | failed (message : String) : Honest content start finish (.failed message)
  | refused
      {response : HttpResponse}
      (status : ¬(200 ≤ response.status ∧ response.status < 300)) :
      Honest content start finish (.answered response)
  | partialContent
      {response : HttpResponse}
      (status : response.status = 206)
      (last : Nat)
      (ordered : start ≤ last)
      (requested : last ≤ finish)
      (inside : last < content.length)
      (range : response.headers.get "content-range" =
        some (ResponseBuilder.contentRange start last content.length))
      (body : contents (NetSource.v1DataStream response.body) = .ok (slice content start last)) :
      Honest content start finish (.answered response)
  | full
      {response : HttpResponse}
      (status : response.status = 200)
      (length : ∀ value, response.headers.get "content-length" = some value →
        value = Text.decimal content.length)
      (range : ∀ value, response.headers.get "content-range" = some value →
        value = ResponseBuilder.contentRange 0 (content.length - 1) content.length)
      (body : contents (NetSource.v1DataStream response.body) = .ok content) :
      Honest content start finish (.answered response)

/-- An upstream that answers every request for a range like an origin. -/
def Upstream.Honest (content : Bytes) (upstream : Upstream) : Prop :=
  ∀ attempt range start finish, parseRange range = .ok (start, finish) →
    Exchange.Honest content start finish (upstream.opening attempt range)

/-- The answer of an origin that sends at most a number of bytes at a time. -/
def cappedAnswer (content : Bytes) (cap start finish : Nat) : HttpResponse :=
  if start < content.length then
    let last := min finish (min (start + cap) (content.length - 1))
    { status := 206, reason := "Partial Content"
      headers := [("content-length", Text.decimal (last - start + 1)), ("content-range",
          ResponseBuilder.contentRange start last content.length)]
      body := [.ok (slice content start last)] }
  else
    { status := 416, reason := "Range Not Satisfiable", headers := [], body := [] }

/-- An origin that sends at most `cap + 1` bytes at a time. -/
def cappedOrigin (content : Bytes) (cap : Nat) : Upstream where
  policy := .ok ()
  opening := fun _ range =>
    match parseRange range with
    | .ok (start, finish) => .answered (cappedAnswer content cap start finish)
    | .error _ => .unbuildable
  resuming := fun _ _ => .timedOut

theorem cappedOrigin_honest (content : Bytes) (cap : Nat) :
    (cappedOrigin content cap).Honest content := by
  intro attempt range start finish parsed
  obtain ⟨ordered, _⟩ := parseRange_eq_ok parsed
  simp only [cappedOrigin, parsed]
  by_cases inside : start < content.length
  · rw [cappedAnswer, if_pos inside]
    refine .partialContent rfl _ ?_ (Nat.min_le_left _ _) (by omega) rfl ?_
    · omega
    · simp [NetSource.v1DataStream, contents, Except.map]
  · rw [cappedAnswer, if_neg inside]
    exact .refused (by simp)

/-- What was fetched for a range of a resource: a piece of it up to a last
position, with its length and the total. -/
structure FetchedUpstream.Piece (content : Bytes) (start last : Nat)
    (fetched : FetchedUpstream) : Prop where
  ordered : start ≤ last
  inside : last < content.length
  length_eq : fetched.contentLength = last - start + 1
  total_eq : fetched.upstream.totalSize = some content.length
  word : content.length ≤ u64Max
  body : contents fetched.stream = .ok (slice content start last)

theorem slice_all (content : Bytes) : slice content 0 (content.length - 1) = content := by
  unfold slice
  rw [List.drop_zero, List.take_of_length_le (by omega)]

theorem FetchedUpstream.stream_of_contents {fetched : FetchedUpstream} {bytes : Bytes}
    (whole : contents fetched.body = .ok bytes) :
    contents fetched.stream = .ok bytes := by
  have kept (body : ByteStream) : ∀ {bytes : Bytes}, contents body = .ok bytes →
        contents { fetched with body }.stream = .ok bytes := by
    induction body with
    | nil => exact id
    | cons item rest inductionHypothesis =>
      intro bytes whole
      obtain ⟨chunk, others, rfl, othersWhole, rfl⟩ :=
        contents_cons_eq_ok whole
      exact contents_ok_cons (inductionHypothesis othersWhole) chunk
  exact kept fetched.body whole

namespace NetworkHandler

theorem totalSizeFromContentRange_of_get {headers : Headers} {start finish total : Nat}
    (found : headers.get "content-range" = some (ResponseBuilder.contentRange start finish total))
    (positive : 0 < total) :
    totalSizeFromContentRange headers =
      if total ≤ u64Max then total else 0 := by
  unfold totalSizeFromContentRange
  rw [found, Option.bind_some, ResponseBuilder.toStr_contentRange start finish positive,
    Option.bind_some, ResponseBuilder.afterLast_contentRange start finish positive,
    Text.trim_decimal, Text.parseU64_decimal]
  split <;> rfl

theorem totalSize_of_declared {response : NetResponse} {length total : Nat} (positive : 0 < total)
    (declared : totalSizeFromContentRange response.headers = total ∨
      (totalSizeFromContentRange response.headers = 0 ∧ response.status = 200 ∧ length = total)) :
    totalSize response length = total := by
  unfold totalSize
  rcases declared with declared | ⟨absent, status, rfl⟩
  · rw [declared]
    cases total with
    | zero => cases positive
    | succ total => rfl
  · rw [absent]
    exact if_pos status

/-- What an origin is asked for and answers is a piece of its resource. -/
theorem fetch_piece {content : Bytes} (positive : 0 < content.length) {upstream : Upstream}
    (honest : upstream.Honest content) {range : Text} {start finish : Nat}
    (parsed : parseRange range = .ok (start, finish)) {fetched : FetchedUpstream}
    (ended : fetch upstream range = .ok fetched) :
    ∃ last, last ≤ finish ∧ fetched.Piece content start last := by
  unfold fetch at ended
  obtain ⟨⟨net, length⟩, downloaded, ended⟩ := exists_of_except_ok ended
  cases ended
  obtain ⟨start', finish', attempt, response, accepted, parsed', opened,
    promise, net_eq⟩ := NetSource.downloadStream_eq_ok downloaded
  rw [parsed] at parsed'
  cases parsed'
  obtain ⟨ordered, bounded⟩ := parseRange_eq_ok parsed
  have answer := honest attempt range start finish parsed
  rw [opened] at answer
  have headers_eq : net.headers = response.headers := by
    rw [net_eq, promise.response_eq]
  have status_eq : net.status = response.status := by
    rw [net_eq, promise.response_eq]
  have unwrapped {last : Nat} (inside : last < content.length)
      (word : content.length ≤ u64Max) (reaches : start ≤ last)
      (requested : last ≤ finish)
      (body : contents (NetSource.v1DataStream response.body) = .ok (slice content start last)) :
      net.body = NetSource.v1DataStream response.body := by
    have length_eq : (slice content start last).length = last + 1 - start :=
      slice_length inside
    rw [net_eq, promise.response_eq]
    exact NetSource.wrapWithRetry_of_contents _ ordered bounded _ _ body (by omega) (by omega)
  cases answer with
  | refused status => exact absurd promise.success status
  | partialContent status last reaches requested inside range_eq body =>
    obtain ⟨value, last', total, found, split_eq, _, _, length_eq, sized⟩ :=
      (promise.verified status).range
    rw [range_eq] at found
    cases found
    have parts := ResponseBuilder.splitContentRange_contentRange positive split_eq
    cases parts
    have word : content.length ≤ u64Max := by
      rcases sized with unknown | ⟨size, size_eq, _⟩
      · have star : '*' ∈ Text.decimal content.length := by
          rw [unknown]
          decide
        exact absurd star (Text.not_mem_decimal (by decide) _)
      · rw [Text.parseU64_decimal] at size_eq
        exact (Option.ite_none_right_eq_some.mp size_eq).1
    have total_eq : totalSize net length = content.length := by
      apply totalSize_of_declared positive
      left
      rw [headers_eq, totalSizeFromContentRange_of_get range_eq positive, if_pos word]
    refine ⟨last, requested, reaches, inside, length_eq.symm, ?_, word,
      FetchedUpstream.stream_of_contents ?_⟩
    · simp only [total_eq]
      exact if_pos positive
    · rw [unwrapped inside word reaches requested body]
      exact body
  | full status declared ranged body =>
    obtain ⟨rfl, rfl⟩ := promise.whole (by omega)
    obtain ⟨value, found, length_eq, _⟩ :=
      NetSource.contentLength_eq_ok promise.length_eq
    rw [declared value found, Text.parseU64_decimal] at length_eq
    obtain ⟨word, length_eq⟩ := Option.ite_none_right_eq_some.mp length_eq
    have piece : contents (NetSource.v1DataStream response.body) =
        .ok (slice content 0 (content.length - 1)) := by
      rw [slice_all]
      exact body
    have total_eq : totalSize net length = content.length := by
      apply totalSize_of_declared positive
      cases present : response.headers.get "content-range" with
      | none =>
        right
        rw [headers_eq, status_eq, totalSizeFromContentRange, present]
        exact ⟨rfl, status, (Option.some.inj length_eq).symm⟩
      | some value =>
        left
        rw [ranged value present] at present
        rw [headers_eq, totalSizeFromContentRange_of_get present positive, if_pos word]
    have last_le : content.length - 1 ≤ openEnded := by
      unfold openEnded
      omega
    refine ⟨content.length - 1, last_le, Nat.zero_le _, by omega, ?_, ?_,
      word, FetchedUpstream.stream_of_contents ?_⟩
    · have same := Option.some.inj length_eq
      change length = content.length - 1 - 0 + 1
      omega
    · simp only [total_eq]
      exact if_pos positive
    · rw [unwrapped (by omega) word (Nat.zero_le _) last_le piece]
      exact piece

end NetworkHandler
end VideoProxy
