import VideoProxy.DataSource.Download

/-!
# Resumed bodies

The length that the proxy promises to its client is that of the first response.
A body that breaks is continued by new requests up to the end of the range that
was asked for, which may be further than the end of the first response.  So the
promise is kept, whatever the bodies are, exactly when every response to a
request for the rest ends where the first one does.
-/

namespace VideoProxy

/-- The number of bytes in the chunks of a stream. -/
def totalBytes : ByteStream → Nat
  | [] => 0
  | .ok chunk :: rest => chunk.length + totalBytes rest
  | .error _ :: rest => totalBytes rest

/-- A body of a declared length, as HTTP delivers it: all of it, or a part of it
and then an error. -/
def Framed : Nat → ByteStream → Prop
  | length, [] => length = 0
  | _, .error _ :: rest => rest = []
  | length, .ok chunk :: rest =>
    chunk.length ≤ length ∧ Framed (length - chunk.length) rest

/-- After some bytes, a stream delivers the rest of what was promised: never
more, and without an error exactly that. -/
def Delivers (bytesRead promised : Nat) (stream : ByteStream) : Prop :=
  bytesRead + totalBytes stream ≤ promised ∧ ∀ bytes, contents stream = .ok bytes →
      bytesRead + totalBytes stream = promised

variable {bytesRead promised : Nat}

theorem delivers_nil : Delivers bytesRead promised [] ↔ bytesRead = promised := by
  constructor
  · exact fun delivers => delivers.2 [] rfl
  · intro same
    exact ⟨same.le, fun _ _ => same⟩

theorem delivers_error {reason : ProxyError} {rest : ByteStream} :
    Delivers bytesRead promised (.error reason :: rest) ↔
      bytesRead + totalBytes rest ≤ promised := by
  constructor
  · exact fun delivers => delivers.1
  · exact fun within => ⟨within, fun _ absurdly => by cases absurdly⟩

theorem Delivers.le {stream : ByteStream} (delivers : Delivers bytesRead promised stream) :
    bytesRead ≤ promised :=
  (Nat.le_add_right _ _).trans delivers.1

theorem delivers_cons {chunk : Bytes} {rest : ByteStream} :
    Delivers bytesRead promised (.ok chunk :: rest) ↔
      Delivers (bytesRead + chunk.length) promised rest := by
  unfold Delivers
  rw [totalBytes, ← Nat.add_assoc]
  refine and_congr_right fun _ => ⟨fun whole bytes rest_eq => ?_, fun whole bytes stream_eq => ?_⟩
  · exact whole (chunk ++ bytes) (contents_ok_cons rest_eq chunk)
  · obtain ⟨_, others, _, rest_eq, _⟩ := contents_cons_eq_ok stream_eq
    exact whole others rest_eq

namespace NetSource

theorem Accepted.length_le {start finish : Nat} {response : HttpResponse} {accepted : NetResponse}
    {length : Nat} (answer : Accepted start finish response accepted length) :
    start + length ≤ finish + 1 := by
  by_cases status : response.status = 206
  · obtain ⟨_, last, _, _, _, ordered, inside, length_eq, _⟩ :=
      (answer.verified status).range
    omega
  · obtain ⟨rfl, rfl⟩ := answer.whole status
    obtain ⟨_, _, _, word⟩ := contentLength_eq_ok answer.length_eq
    unfold openEnded
    omega

end NetSource

/-- A response with a body of the length that it declares. -/
def HttpResponse.Framed (response : HttpResponse) : Prop :=
  ∀ length, NetSource.contentLength response.headers = .ok length →
    VideoProxy.Framed length (NetSource.v1DataStream response.body)

/-- An upstream that is read over HTTP: every body has the declared length, or
breaks. -/
structure Upstream.Framed (upstream : Upstream) : Prop where
  opening : ∀ attempt range response,
    upstream.opening attempt range = .answered response → response.Framed
  resuming : ∀ attempt range response,
    upstream.resuming attempt range = .answered response → response.Framed

/-- The same answer with another body. -/
def Exchange.carrying (body : List (Except String Bytes)) : Exchange → Exchange
  | .answered response => .answered { response with body := body }
  | exchange => exchange

/-- The same answers with other bodies. -/
def Upstream.carrying
    (opening resuming : Nat → Text → List (Except String Bytes))
    (upstream : Upstream) : Upstream where
  policy := upstream.policy
  opening attempt range :=
    (upstream.opening attempt range).carrying (opening attempt range)
  resuming attempt range :=
    (upstream.resuming attempt range).carrying (resuming attempt range)

/-- What `try_download` makes of the answer to a request for the rest of a range,
in an attempt and after a number of bytes. -/
def Upstream.resumption
    (upstream : Upstream)
    (start finish attempt position : Nat) : Except ProxyError (NetResponse × Nat) :=
  NetSource.tryDownload (formatRange (start + position) finish) (start + position) finish
    (upstream.resuming attempt (formatRange (start + position) finish))

/-- The requests for the rest that a first response of a length may lead to, by
their attempts and the bytes read before: a body may break after any part of what
is left, and is followed by another one if the answer is accepted. -/
inductive Upstream.Resumes
    (upstream : Upstream)
    (start finish length : Nat) : Nat → Nat → Prop
  | first {position : Nat} (inside : position ≤ length) :
    Resumes upstream start finish length 2 position
  | next {attempt position later : Nat} {accepted : NetResponse × Nat}
      (resumes : Resumes upstream start finish length attempt position)
      (accepts : upstream.resumption start finish attempt position = .ok accepted)
      (forward : position ≤ later)
      (inside : later ≤ length) :
    Resumes upstream start finish length (attempt + 1) later

theorem Upstream.Resumes.two_le
    {upstream : Upstream} {start finish length attempt position : Nat}
    (resumes : upstream.Resumes start finish length attempt position) :
    2 ≤ attempt := by
  induction resumes with
  | first _ => exact Nat.le_refl 2
  | next _ _ _ _ inductionHypothesis => omega

/-- Every accepted answer to a request for the rest ends where a first response
of a length does.  Bytes are counted in 64 bits. -/
def Upstream.EndsAlike (upstream : Upstream) (start finish length : Nat) : Prop :=
  ∀ attempt position accepted, attempt ≤ NetSource.maxAttempts →
    upstream.Resumes start finish length attempt position → start + position ≤ u64Max →
    upstream.resumption start finish attempt position = .ok accepted →
    min (position + accepted.2) u64Max = length

namespace NetSource

variable {finish start : Nat}

theorem Accepted.framed {response : HttpResponse} {accepted : NetResponse}
    {length : Nat} (answer : Accepted start finish response accepted length)
    (framed : response.Framed) :
    Framed length accepted.body := by
  rw [answer.response_eq]
  exact framed length answer.length_eq

theorem wrapWithRetry_nil (resuming : Nat → Text → Exchange)
    (rangeStart rangeEnd maxAttempts remaining bytesRead : Nat) :
    wrapWithRetry resuming rangeStart rangeEnd maxAttempts remaining [] bytesRead = [] := by
  cases remaining <;> rfl

/-! ## The bodies do not matter for the answers -/

section Carrying

variable {range : Text} {start finish : Nat}

theorem acceptResponse_carrying
    (response : HttpResponse)
    (body : List (Except String Bytes)) :
    acceptResponse range start finish { response with body := body } =
      (acceptResponse range start finish response).map fun accepted =>
        ({ accepted.1 with body := v1DataStream body }, accepted.2) := by
  unfold acceptResponse
  dsimp only
  split
  · rfl
  · split
    · rfl
    · split
      · rfl
      · split
        · rfl
        · cases contentLength response.headers with
          | error reason => rfl
          | ok length =>
            simp only [bind, Except.bind, pure, Except.pure]
            split
            · cases verifyContentRange response.headers start finish length with
              | error reason => rfl
              | ok _ => rfl
            · rfl

theorem tryDownload_carrying
    (exchange : Exchange)
    (body : List (Except String Bytes)) :
    tryDownload range start finish (exchange.carrying body) =
      (tryDownload range start finish exchange).map fun accepted =>
        ({ accepted.1 with body := v1DataStream body }, accepted.2) := by
  cases exchange with
  | unbuildable => rfl
  | timedOut => rfl
  | failed message => rfl
  | answered response => exact acceptResponse_carrying response body

theorem downloadLoop_carrying
    {opening : Nat → Exchange}
    (bodies : Nat → List (Except String Bytes))
    {remaining attempt : Nat} {lastError : Option ProxyError}
    {accepted : NetResponse × Nat}
    (ended : downloadLoop opening range start finish remaining attempt lastError =
      .ok accepted) :
    ∃ attempted, tryDownload range start finish (opening attempted) = .ok accepted ∧
      downloadLoop (fun attempt => (opening attempt).carrying (bodies attempt)) range
          start finish remaining attempt lastError =
        .ok ({ accepted.1 with body := v1DataStream (bodies attempted) }, accepted.2) := by
  induction remaining generalizing attempt lastError with
  | zero => cases ended
  | succ remaining inductionHypothesis =>
    unfold downloadLoop at ended ⊢
    rw [tryDownload_carrying]
    cases tried : tryDownload range start finish (opening attempt) with
    | ok value =>
      rw [tried] at ended
      cases ended
      exact ⟨attempt, tried, rfl⟩
    | error reason =>
      rw [tried] at ended
      cases reason with
      | invalidRange message => cases ended
      | upstreamAuthorizationExpired sourceId => cases ended
      | _ => exact inductionHypothesis ended

variable {upstream : Upstream}

/-- Another body takes the place of the accepted one. -/
theorem downloadStream_carrying
    {net : NetResponse} {length : Nat}
    (parsed : parseRange range = .ok (start, finish))
    (ended : downloadStream upstream range = .ok (net, length))
    (opening resuming : Nat → Text → List (Except String Bytes)) :
    ∃ attempt response, tryDownload range start finish (upstream.opening attempt range) =
        .ok (response, length) ∧
      downloadStream (upstream.carrying opening resuming) range =
        .ok ({ response with
          body := wrapWithRetry (upstream.carrying opening resuming).resuming start finish
            maxAttempts (maxAttempts - 1) (v1DataStream (opening attempt range)) 0 },
          length) := by
  unfold downloadStream at ended
  obtain ⟨_, allowed, ended⟩ := exists_of_except_ok ended
  obtain ⟨_, parsedAlike, ended⟩ := exists_of_except_ok ended
  cases parsed.symm.trans parsedAlike
  obtain ⟨⟨response, promised⟩, looped, ended⟩ := exists_of_except_ok ended
  cases ended
  obtain ⟨attempt, tried, carried⟩ :=
    downloadLoop_carrying (fun attempt => opening attempt range) looped
  refine ⟨attempt, response, tried, ?_⟩
  unfold downloadStream
  simp only [Upstream.carrying, allowed, parsed, bind, Except.bind] at carried ⊢
  rw [carried]
  rfl

/-- The same requests are sent for the rest, whatever the bodies are. -/
theorem resumption_carrying
    {opening resuming : Nat → Text → List (Except String Bytes)}
    {attempt position : Nat} {accepted : NetResponse × Nat}
    (accepts : (upstream.carrying opening resuming).resumption start finish attempt
      position = .ok accepted) :
    ∃ original, upstream.resumption start finish attempt position = .ok original ∧
      original.2 = accepted.2 := by
  unfold Upstream.resumption Upstream.carrying at accepts
  rw [tryDownload_carrying] at accepts
  unfold Upstream.resumption
  cases tried : tryDownload (formatRange (start + position) finish) (start + position) finish
      (upstream.resuming attempt (formatRange (start + position) finish)) with
  | error reason =>
    rw [tried] at accepts
    cases accepts
  | ok original =>
    rw [tried] at accepts
    cases accepts
    exact ⟨original, rfl, rfl⟩

theorem endsAlike_carrying
    {length : Nat}
    (alike : upstream.EndsAlike start finish length)
    (opening resuming : Nat → Text → List (Except String Bytes)) :
    (upstream.carrying opening resuming).EndsAlike start finish length := by
  have original {attempt position : Nat}
      (resumes : (upstream.carrying opening resuming).Resumes start finish length attempt
        position) :
      upstream.Resumes start finish length attempt position := by
    induction resumes with
    | first inside => exact .first inside
    | next _ accepts forward inside inductionHypothesis =>
      obtain ⟨_, accepted, _⟩ := resumption_carrying accepts
      exact .next inductionHypothesis accepted forward inside
  intro attempt position accepted few resumes word accepts
  obtain ⟨other, other_eq, same⟩ := resumption_carrying accepts
  rw [← same]
  exact alike attempt position other few (original resumes) word other_eq

end Carrying

/-! ## Answers that end alike keep the promise -/

section Keeping

variable {resuming : Nat → Text → Exchange} {rangeStart rangeEnd : Nat}
  (ordered : rangeStart ≤ rangeEnd) (bounded : rangeEnd ≤ u64Max)
include ordered bounded

/-- A body that ends where the promise does delivers the rest of it, if what
follows it does so when it breaks. -/
theorem wrapBody_delivers
    {attempt : Nat} {retry : Option (ByteStream → Nat → ByteStream)}
    {length : Nat} {body : ByteStream}
    (framed : Framed length body)
    (ends : min (bytesRead + length) u64Max = promised)
    (word : bytesRead ≤ u64Max)
    (inside : rangeStart + (bytesRead + length) ≤ rangeEnd + 1)
    (broken : ∀ reason count, bytesRead ≤ count → count ≤ promised → Delivers count promised
      (wrapBody resuming rangeStart rangeEnd attempt retry [.error reason] count)) :
    Delivers bytesRead promised
      (wrapBody resuming rangeStart rangeEnd attempt retry body bytesRead) := by
  induction body generalizing length bytesRead with
  | nil =>
    obtain rfl : length = 0 := framed
    rw [wrapBody, delivers_nil]
    omega
  | cons item rest inductionHypothesis =>
    cases item with
    | error reason =>
      obtain rfl : rest = [] := framed
      exact broken reason bytesRead (Nat.le_refl _) (by omega)
    | ok chunk =>
      obtain ⟨chunkFits, restFramed⟩ := framed
      rw [wrapBody]
      by_cases small : bytesRead + chunk.length ≤ u64Max
      · rw [advanceBytesRead_of_le small ordered bounded (by omega)]
        refine delivers_cons.mpr (inductionHypothesis restFramed ?_ small (by omega) ?_)
        · rw [← ends]
          congr 1
          omega
        · exact fun reason count after => broken reason count (by omega)
      · have overflows : advanceBytesRead bytesRead chunk.length rangeStart
            rangeEnd = .error (.network "上游响应体累计长度溢出") := by
          unfold advanceBytesRead checkedAdd
          rw [if_neg small]
        rw [overflows, delivers_error]
        change bytesRead + 0 ≤ promised
        omega

end Keeping

/-- A framed body that ends where the promise does is followed by such bodies
until the promise is kept. -/
theorem wrapWithRetry_delivers
    {upstream : Upstream}
    (framed : upstream.Framed)
    (ordered : start ≤ finish)
    (bounded : finish ≤ u64Max)
    (alike : upstream.EndsAlike start finish promised)
    {remaining : Nat}
    (few : remaining < maxAttempts)
    {length : Nat} {body : ByteStream}
    (bodyFramed : Framed length body)
    (ends : min (bytesRead + length) u64Max = promised)
    (word : bytesRead ≤ u64Max)
    (inside : start + (bytesRead + length) ≤ finish + 1)
    (resumes : ∀ later, bytesRead ≤ later → later ≤ promised →
      upstream.Resumes start finish promised (maxAttempts - remaining + 1) later) :
    Delivers bytesRead promised
      (wrapWithRetry upstream.resuming start finish maxAttempts remaining body bytesRead) := by
  induction remaining generalizing length body bytesRead with
  | zero =>
    refine wrapBody_delivers ordered bounded bodyFramed ends word inside ?_
    intro reason count _ within
    rw [wrapBody, delivers_error]
    exact within
  | succ remaining inductionHypothesis =>
    refine wrapBody_delivers ordered bounded bodyFramed ends word inside ?_
    intro reason count after within
    rw [wrapBody]
    simp only
    cases resumed : checkedAdd start count with
    | none => exact delivers_error.mpr within
    | some resumeStart =>
      obtain ⟨rfl, small⟩ := checkedAdd_eq_some_iff.mp resumed
      simp only
      cases tried : tryDownload (formatRange (start + count) finish) (start + count) finish
          (upstream.resuming (maxAttempts - (remaining + 1) + 1)
            (formatRange (start + count) finish)) with
      | error retryError =>
        rw [delivers_error, wrapWithRetry_nil]
        exact within
      | ok resumption =>
        obtain ⟨answer, answered, accepted⟩ := tryDownload_eq_ok bounded tried
        have fits := accepted.length_le
        have here := resumes count after within
        have ends := alike _ count resumption (by omega) here small tried
        refine inductionHypothesis (by omega) (accepted.framed (framed.resuming _ _ _ answered))
          ends (by omega) (by omega) fun later forward inside => ?_
        have numbered : maxAttempts - remaining + 1 =
            maxAttempts - (remaining + 1) + 1 + 1 := by omega
        rw [numbered]
        exact .next here tried forward inside

/-! ## Other answers do not -/

/-- A body of a length: all of it, or at most so many bytes before it breaks. -/
def cutBody (length : Nat) : Option Nat → List (Except String Bytes)
  | none => [.ok (List.replicate length 0)]
  | some count => [.ok (List.replicate (min count length) 0), .error "connection reset"]

theorem cutBody_framed (length : Nat) (cut : Option Nat) :
    Framed length (v1DataStream (cutBody length cut)) := by
  cases cut with
  | none =>
    refine ⟨List.length_replicate.le, ?_⟩
    change length - (List.replicate length (0 : UInt8)).length = 0
    rw [List.length_replicate, Nat.sub_self]
  | some count =>
    refine ⟨?_, rfl⟩
    rw [List.length_replicate]
    exact Nat.min_le_right _ _

/-- The length that an answer declares. -/
def declaredLength : Exchange → Nat
  | .answered response =>
    match contentLength response.headers with
    | .ok length => length
    | .error _ => 0
  | _ => 0

theorem declaredLength_of_accepted
    {range : Text} {exchange : Exchange} {accepted : NetResponse × Nat}
    (bounded : finish ≤ u64Max)
    (tried : tryDownload range start finish exchange = .ok accepted) :
    declaredLength exchange = accepted.2 := by
  obtain ⟨response, rfl, answer⟩ := tryDownload_eq_ok bounded tried
  rw [declaredLength, answer.length_eq]

end NetSource

/-- The same answers, with bodies that are cut in each attempt as given. -/
def Upstream.cutting (cuts : Nat → Option Nat) (upstream : Upstream) : Upstream :=
  upstream.carrying
    (fun attempt range =>
      NetSource.cutBody (NetSource.declaredLength (upstream.opening attempt range)) (cuts 1))
    (fun attempt range =>
      NetSource.cutBody (NetSource.declaredLength (upstream.resuming attempt range))
        (cuts attempt))

namespace NetSource

theorem framed_of_carrying
    {exchange : Exchange} {cut : Option Nat} {response : HttpResponse}
    (answered : exchange.carrying (cutBody (declaredLength exchange) cut) =
      .answered response) :
    response.Framed := by
  cases exchange with
  | answered original =>
    cases answered
    intro length length_eq
    change contentLength original.headers = .ok length at length_eq
    simp only [declaredLength, length_eq]
    exact cutBody_framed length cut
  | _ => cases answered

theorem cutting_framed (cuts : Nat → Option Nat) (upstream : Upstream) :
    (upstream.cutting cuts).Framed :=
  ⟨fun _ _ _ => framed_of_carrying, fun _ _ _ => framed_of_carrying⟩

section Breaking

variable {start finish : Nat} (ordered : start ≤ finish) (bounded : finish ≤ u64Max)
include ordered bounded

/-- A body that breaks is followed by the one of the accepted answer. -/
theorem wrapWithRetry_cut
    {resuming : Nat → Text → Exchange}
    {remaining length count bytesRead : Nat}
    (within : count ≤ length)
    (inside : start + (bytesRead + count) ≤ finish + 1)
    (word : start + (bytesRead + count) ≤ u64Max)
    {accepted : NetResponse × Nat}
    (accepts : tryDownload (formatRange (start + (bytesRead + count)) finish)
      (start + (bytesRead + count)) finish (resuming (maxAttempts - (remaining + 1) + 1)
        (formatRange (start + (bytesRead + count)) finish)) = .ok accepted) :
    wrapWithRetry resuming start finish maxAttempts (remaining + 1)
        (v1DataStream (cutBody length (some count))) bytesRead =
      .ok (List.replicate count 0) :: wrapWithRetry resuming start finish maxAttempts
        remaining accepted.1.body (bytesRead + count) := by
  have advances : advanceBytesRead bytesRead count start finish = .ok (bytesRead + count) :=
    advanceBytesRead_of_le (by omega) ordered bounded (by omega)
  simp only [cutBody, Nat.min_eq_left within, v1DataStream, List.map_cons, List.map_nil,
    wrapWithRetry, wrapBody, List.length_replicate, advances, checkedAdd_of_le word, accepts]

/-- A body that ends elsewhere than the promise can break it. -/
theorem exists_not_delivers
    {position declared promised : Nat}
    (within : position ≤ promised)
    (small : promised ≤ u64Max)
    (inside : start + (position + declared) ≤ finish + 1)
    (differs : min (position + declared) u64Max ≠ promised) :
    ∃ cut, ∀ resuming remaining, ¬Delivers position promised
      (wrapWithRetry resuming start finish maxAttempts remaining
        (v1DataStream (cutBody declared cut)) position) := by
  by_cases short : position + declared < promised
  · -- read to its end, the body ends before the promise
    refine ⟨none, fun resuming remaining delivers => ?_⟩
    have advances : advanceBytesRead position declared start finish =
        .ok (position + declared) :=
      advanceBytesRead_of_le (by omega) ordered bounded (by omega)
    have wrapped : wrapWithRetry resuming start finish maxAttempts remaining
        (v1DataStream (cutBody declared none)) position =
          [.ok (List.replicate declared 0)] := by
      cases remaining <;>
        simp [wrapWithRetry, cutBody, v1DataStream, wrapBody, advances]
    rw [wrapped, delivers_cons, delivers_nil, List.length_replicate] at delivers
    omega
  · -- broken one byte later than the promise, it has brought too much
    refine ⟨some (promised - position + 1), fun resuming remaining delivers => ?_⟩
    have advances : advanceBytesRead position (promised - position + 1) start finish =
        .ok (position + (promised - position + 1)) :=
      advanceBytesRead_of_le (by omega) ordered bounded (by omega)
    have enough : promised - position + 1 ≤ declared := by omega
    have wrapped : ∃ rest, wrapWithRetry resuming start finish maxAttempts remaining
        (v1DataStream (cutBody declared (some (promised - position + 1)))) position =
          .ok (List.replicate (promised - position + 1) 0) :: rest := by
      cases remaining <;>
        simp [wrapWithRetry, cutBody, v1DataStream, wrapBody, advances, Nat.min_eq_left enough]
    obtain ⟨rest, wrapped⟩ := wrapped
    rw [wrapped, delivers_cons, List.length_replicate] at delivers
    have above := delivers.le
    omega

end Breaking

/-- The promise is kept by bodies that are cut in any way. -/
def KeepsCut (upstream : Upstream) (start finish length : Nat) : Prop :=
  ∀ cuts, Delivers 0 length (wrapWithRetry (upstream.cutting cuts).resuming start finish
    maxAttempts (maxAttempts - 1) (v1DataStream (cutBody length (cuts 1))) 0)

section Cutting

variable {upstream : Upstream} {start finish length : Nat} (bounded : finish ≤ u64Max)
  {accepted : NetResponse × Nat} {attempt position : Nat}
  (accepts : upstream.resumption start finish attempt position = .ok accepted)
include bounded accepts

/-- An accepted answer is still accepted, with its body cut. -/
theorem resumption_cutting (cuts : Nat → Option Nat) :
    tryDownload (formatRange (start + position) finish) (start + position) finish
        ((upstream.cutting cuts).resuming attempt (formatRange (start + position) finish)) =
      .ok ({ accepted.1 with body := v1DataStream (cutBody accepted.2 (cuts attempt)) },
        accepted.2) := by
  have declared := declaredLength_of_accepted bounded accepts
  simp only [Upstream.cutting, Upstream.carrying]
  rw [tryDownload_carrying, declared]
  unfold Upstream.resumption at accepts
  rw [accepts]
  rfl

theorem resumption_inside : start + (position + accepted.2) ≤ finish + 1 := by
  obtain ⟨_, _, answer⟩ := tryDownload_eq_ok bounded accepts
  rw [← Nat.add_assoc]
  exact answer.length_le

end Cutting

section Breaking

variable {upstream : Upstream} {start finish length : Nat} (ordered : start ≤ finish)
  (bounded : finish ≤ u64Max) (small : length ≤ u64Max)
  (inside : start + length ≤ finish + 1) (keeps : KeepsCut upstream start finish length)
include ordered bounded small inside keeps

omit small in
/-- After a first body that breaks, the second one is left to be read. -/
theorem delivers_second
    {position : Nat}
    (within : position ≤ length)
    (word : start + position ≤ u64Max)
    {accepted : NetResponse × Nat}
    (accepts : upstream.resumption start finish 2 position = .ok accepted)
    {cuts : Nat → Option Nat}
    (first : cuts 1 = some position) :
    Delivers position length (wrapWithRetry (upstream.cutting cuts).resuming start finish
      maxAttempts 1 (v1DataStream (cutBody accepted.2 (cuts 2))) position) := by
  have breaks := @wrapWithRetry_cut _ _ ordered bounded (upstream.cutting cuts).resuming 1
    length position 0 within (by omega) (by omega) _
    (by rw [Nat.zero_add]; exact resumption_cutting bounded accepts cuts)
  have delivers := keeps cuts
  rw [first] at delivers
  change Delivers 0 length (wrapWithRetry _ start finish maxAttempts (1 + 1) _ 0) at delivers
  rw [breaks, delivers_cons, List.length_replicate, Nat.zero_add] at delivers
  exact delivers

/-- The second attempt ends where the first one does. -/
theorem second_ends
    {position : Nat}
    (within : position ≤ length)
    (word : start + position ≤ u64Max)
    {accepted : NetResponse × Nat}
    (accepts : upstream.resumption start finish 2 position = .ok accepted) :
    min (position + accepted.2) u64Max = length := by
  by_contra differs
  obtain ⟨cut, fails⟩ := exists_not_delivers ordered bounded within small
    (resumption_inside bounded accepts) differs
  let cuts : Nat → Option Nat := fun attempt => if attempt = 1 then some position else cut
  exact fails _ _ (@delivers_second _ _ _ _ ordered bounded inside keeps _ within word _ accepts
    cuts rfl)

/-- The third attempt ends where the first one does. -/
theorem third_ends
    {position later : Nat}
    (forward : position ≤ later)
    (within : later ≤ length)
    (word : start + later ≤ u64Max)
    {accepted other : NetResponse × Nat}
    (accepts : upstream.resumption start finish 2 position = .ok accepted)
    (acceptsLater : upstream.resumption start finish 3 later = .ok other) :
    min (later + other.2) u64Max = length := by
  have second := second_ends ordered bounded small inside keeps (by omega) (by omega) accepts
  by_contra differs
  obtain ⟨cut, fails⟩ := exists_not_delivers ordered bounded within small
    (resumption_inside bounded acceptsLater) differs
  let cuts : Nat → Option Nat := fun attempt =>
    if attempt = 1 then some position
    else if attempt = 2 then some (later - position) else cut
  have later_eq : position + (later - position) = later := by omega
  have breaks := @wrapWithRetry_cut _ _ ordered bounded (upstream.cutting cuts).resuming 0
    accepted.2 (later - position) position (by omega) (by omega) (by omega) _
    (by rw [later_eq]; exact resumption_cutting bounded acceptsLater cuts)
  have delivers : Delivers position length (wrapWithRetry _ start finish maxAttempts (0 + 1)
      (v1DataStream (cutBody accepted.2 (some (later - position)))) position) :=
    @delivers_second _ _ _ _ ordered bounded inside keeps _ (by omega) (by omega) _ accepts
      cuts rfl
  rw [breaks, delivers_cons, List.length_replicate, later_eq] at delivers
  exact fails _ _ delivers

theorem endsAlike_of_keepsCut : upstream.EndsAlike start finish length := by
  intro attempt position accepted few resumes word accepts
  cases resumes with
  | first within => exact second_ends ordered bounded small inside keeps within word accepts
  | next resumes acceptsBefore forward within =>
    cases resumes with
    | first _ =>
      exact third_ends ordered bounded small inside keeps forward within word acceptsBefore
        accepts
    | next resumes _ _ _ =>
      -- there is no fourth attempt
      have second := resumes.two_le
      unfold maxAttempts at few
      omega

end Breaking

/-- Whatever bodies of their declared lengths the answers have, a download yields
at most the bytes of the returned length, and ends without an error only after
all of them: this holds exactly if every accepted answer to a request for the
rest ends where the first one does. -/
theorem body_le_length_iff
    {upstream : Upstream} {range : Text} {start finish : Nat}
    (parsed : parseRange range = .ok (start, finish))
    {net : NetResponse} {length : Nat}
    (ended : downloadStream upstream range = .ok (net, length)) :
    (∀ opening resuming, (upstream.carrying opening resuming).Framed →
      ∃ carried, downloadStream (upstream.carrying opening resuming) range =
          .ok (carried, length) ∧
        totalBytes carried.body ≤ length ∧
        ∀ bytes, contents carried.body = .ok bytes → totalBytes carried.body = length) ↔
      upstream.EndsAlike start finish length := by
  obtain ⟨ordered, bounded⟩ := parseRange_eq_ok parsed
  obtain ⟨small, inside⟩ : length ≤ u64Max ∧ start + length ≤ finish + 1 := by
    obtain ⟨_, _, tried, _⟩ :=
      downloadStream_carrying parsed ended (fun _ _ => []) fun _ _ => []
    obtain ⟨_, _, accepted⟩ := tryDownload_eq_ok bounded tried
    obtain ⟨_, _, _, word⟩ := contentLength_eq_ok accepted.length_eq
    exact ⟨word, accepted.length_le⟩
  constructor
  · intro every
    refine endsAlike_of_keepsCut ordered bounded small inside fun cuts => ?_
    obtain ⟨carried, carried_eq, within, exactly⟩ := every _ _ (cutting_framed cuts upstream)
    obtain ⟨attempt, response, tried, other_eq⟩ := downloadStream_carrying parsed ended _ _
    cases carried_eq.symm.trans other_eq
    simp only [declaredLength_of_accepted bounded tried] at within exactly
    refine ⟨?_, fun bytes whole => ?_⟩
    · rw [Nat.zero_add]
      exact within
    · rw [Nat.zero_add]
      exact exactly bytes whole
  · intro alike opening resuming framed
    obtain ⟨attempt, response, tried, carried⟩ :=
      downloadStream_carrying parsed ended opening resuming
    obtain ⟨answer, answered, accepted⟩ := tryDownload_eq_ok bounded tried
    have bodyFramed : Framed length (v1DataStream (opening attempt range)) := by
      refine framed.opening attempt range { answer with body := opening attempt range } ?_
        length accepted.length_eq
      simp only [Upstream.carrying, answered]
      rfl
    have delivers := wrapWithRetry_delivers framed ordered bounded
      (endsAlike_carrying alike opening resuming) (by decide : maxAttempts - 1 < maxAttempts)
      bodyFramed (by omega) (Nat.zero_le _) (by omega) fun later _ within => .first within
    refine ⟨_, carried, ?_⟩
    unfold Delivers at delivers
    simp only [Nat.zero_add] at delivers
    exact delivers

/-- A `206` with its length and its range as they are printed. -/
def partialContent (length range : String) (body : List (Except String Bytes)) : HttpResponse where
  status := 206
  reason := "Partial Content"
  headers := [("content-length", length.toList), ("content-range", range.toList)]
  body := body

/-- An upstream with one response to every request and one to every request for
the rest. -/
def answeringTwice (first second : HttpResponse) : Upstream where
  policy := .ok ()
  opening := fun _ _ => .answered first
  resuming := fun _ _ => .answered second

theorem partialContent_framed {length range : String} {body : List (Except String Bytes)}
    {promised : Nat} (declared : Text.parseU64 length.toList = some promised)
    (framed : Framed promised (v1DataStream body)) :
    (partialContent length range body).Framed := by
  intro claimed claimed_eq
  obtain ⟨value, found, parsed, _⟩ := contentLength_eq_ok claimed_eq
  obtain rfl : length.toList = value := by
    simpa [partialContent, Headers.get] using found
  cases declared.symm.trans parsed
  exact framed

theorem answeringTwice_framed {first second : HttpResponse} (firstFramed : first.Framed)
    (secondFramed : second.Framed) :
    (answeringTwice first second).Framed := by
  refine ⟨fun _ _ response answered => ?_, fun _ _ response answered => ?_⟩
  · cases answered
    exact firstFramed
  · cases answered
    exact secondFramed

/-- A first response of two of four bytes that breaks after one, and the three
others as the rest. -/
def cappedFirst : Upstream :=
  answeringTwice (partialContent "2" "bytes 0-1/4" [.ok [0], .error "connection reset"])
    (partialContent "3" "bytes 1-3/4" [.ok [1, 2, 3]])

/-- A first response of all four bytes that breaks after one, and two of the
three others as the rest. -/
def cappedRest : Upstream :=
  answeringTwice (partialContent "4" "bytes 0-3/4" [.ok [0], .error "connection reset"])
    (partialContent "2" "bytes 1-2/4" [.ok [1, 2]])

theorem cappedFirst_framed : cappedFirst.Framed :=
  answeringTwice_framed (partialContent_framed (by decide : _ = some 2) ⟨by decide, rfl⟩)
    (partialContent_framed (by decide : _ = some 3) ⟨by decide, rfl⟩)

theorem cappedRest_framed : cappedRest.Framed :=
  answeringTwice_framed (partialContent_framed (by decide : _ = some 4) ⟨by decide, rfl⟩)
    (partialContent_framed (by decide : _ = some 2) ⟨by decide, rfl⟩)

/-- Two bytes are promised and four are delivered; or four are promised, and the
body ends after three without an error. -/
theorem resumed_body_misses_length :
    cappedFirst.Framed ∧ cappedRest.Framed ∧
    (∃ net, downloadStream cappedFirst "bytes=0-3".toList = .ok (net, 2) ∧
      contents net.body = .ok [0, 1, 2, 3]) ∧
    ∃ net, downloadStream cappedRest "bytes=0-3".toList = .ok (net, 4) ∧
      contents net.body = .ok [0, 1, 2] :=
  ⟨cappedFirst_framed, cappedRest_framed, ⟨_, rfl, rfl⟩, ⟨_, rfl, rfl⟩⟩

/-- A first response of both bytes of a resource, and the second byte as the
rest. -/
def wholeRest : Upstream :=
  answeringTwice (partialContent "2" "bytes 0-1/2" [])
    (partialContent "1" "bytes 1-1/2" [])

theorem wholeRest_endsAlike : wholeRest.EndsAlike 0 3 2 := by
  intro attempt position accepted _ _ _ accepts
  obtain ⟨_, answered, answer⟩ := tryDownload_eq_ok (by decide) accepts
  cases answered
  obtain ⟨_, _, _, found, split_eq, _, _, length_eq, _⟩ := (answer.verified rfl).range
  cases found
  have printed : splitContentRange "bytes 1-1/2".toList = .ok (1, 1, "2".toList) := by
    decide +kernel
  simp only [printed, Except.ok.injEq, Prod.mk.injEq] at split_eq
  unfold u64Max
  omega

/-- A first body that breaks after one of the two bytes is followed by the other
one. -/
theorem body_le_length_iff_wholeRest :
    let broken := wholeRest.carrying (fun _ _ => [.ok [0], .error "connection reset"])
      fun _ _ => [.ok [1]]
    broken.Framed ∧ ∃ net, downloadStream broken "bytes=0-3".toList = .ok (net, 2) ∧
      totalBytes net.body ≤ 2 ∧
      ∀ bytes, contents net.body = .ok bytes → totalBytes net.body = 2 := by
  intro broken
  have framed : broken.Framed :=
    answeringTwice_framed (partialContent_framed (by decide : _ = some 2) ⟨by decide, rfl⟩)
      (partialContent_framed (by decide : _ = some 1) ⟨by decide, rfl⟩)
  exact ⟨framed, (body_le_length_iff (by decide)
    (show downloadStream wholeRest "bytes=0-3".toList = _ from rfl)).mpr
    wholeRest_endsAlike _ _ framed⟩

end NetSource
end VideoProxy
