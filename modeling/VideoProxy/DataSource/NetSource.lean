import VideoProxy.HttpTypes
import VideoProxy.Utils.Range

/-!
# Requests to the upstream

`NetSource` sends one range request, up to three times until it is answered
properly.  A response is accepted when its status, its `Content-Length` and its
`Content-Range` fit the request.  The body is wrapped so that a failure in the
middle of it is answered with a new request for the rest.

What the outside world decides during a request is an `Upstream`: whether the
address is allowed, and what becomes of each attempt.
-/

namespace VideoProxy

/-- A response as it arrives, with its status in numbers and in words. -/
structure HttpResponse where
  status : Nat
  reason : String
  headers : Headers
  body : List (Except String Bytes)

/-- What becomes of a request to the upstream. -/
inductive Exchange
  | unbuildable
  | timedOut
  | failed (message : String)
  | answered (response : HttpResponse)

/-- What the outside world decides during one request, by the number of the
attempt and the `Range` header sent. -/
structure Upstream where
  /-- `NetworkPolicy::validate`. -/
  policy : Except ProxyError Unit
  /-- The attempts until a response is accepted. -/
  opening : Nat → Text → Exchange
  /-- The attempts to resume the body. -/
  resuming : Nat → Text → Exchange

/-- `NetResponse`. -/
structure NetResponse where
  status : Nat
  headers : Headers
  body : ByteStream

namespace NetSource

/-- `MAX_ATTEMPTS`. -/
def maxAttempts : Nat := 3

/-- `v1_data_stream`. -/
def v1DataStream (body : List (Except String Bytes)) : ByteStream :=
  body.map fun
    | .ok chunk => .ok chunk
    | .error message => .error (.network ("读取上游响应失败: " ++ message))

/-! ## Accepting a response -/

/-- The three parts of a `Content-Range` value. -/
def splitContentRange (value : Text) : Except ProxyError (Nat × Nat × Text) :=
  let unreadable := ProxyError.network ("无法解析 Content-Range: " ++ String.ofList value)
  match (Text.stripStart "bytes ".toList (Text.trim value)).bind (Text.splitOnce '/') with
  | none => .error unreadable
  | some (range, total) =>
    match Text.splitOnce '-' range with
    | none => .error unreadable
    | some (start, finish) =>
      match Text.parseU64 start, Text.parseU64 finish with
      | some start, some finish => .ok (start, finish, total)
      | _, _ => .error unreadable

/-- The checks of `verify_content_range` on the positions. -/
def verifyPositions (expectedStart expectedEnd contentLength actualStart actualEnd : Nat) :
    Except ProxyError Unit :=
  if actualStart ≠ expectedStart then
    .error (.network s!"上游返回的范围起点 {actualStart} 与请求的 {expectedStart} 不一致")
  else if actualEnd < actualStart then
    .error (.network "Content-Range 结束位置早于起点")
  else if expectedEnd ≠ u64Max ∧ actualEnd > expectedEnd then
    .error (.network s!"上游返回的范围终点 {actualEnd} 超过请求的 {expectedEnd}")
  else
    match (checkedSub actualEnd actualStart).bind fun span => checkedAdd span 1 with
    | none => .error (.network "Content-Range 长度溢出")
    | some actualLength =>
      if actualLength ≠ contentLength then
        .error (.network s!"Content-Range 长度 {actualLength} 与 Content-Length {contentLength} 不一致")
      else .ok ()

/-- The check of `verify_content_range` on the total. -/
def verifyTotal (actualEnd : Nat) (total : Text) : Except ProxyError Unit :=
  if total = "*".toList then .ok ()
  else
    match Text.parseU64 total with
    | none => .error (.network "Content-Range 总长度无效")
    | some total =>
      if total = 0 ∨ actualEnd ≥ total then
        .error (.network "Content-Range 超出声明的资源总长度")
      else .ok ()

/-- `verify_content_range`. -/
def verifyContentRange (headers : Headers) (expectedStart expectedEnd contentLength : Nat) :
    Except ProxyError Unit := do
  match headers.get "content-range" with
  | none => throw (.network "206 响应缺少 Content-Range")
  | some value =>
    match Headers.toStr value with
    | none => throw (.request "Invalid content range header")
    | some value =>
      let (actualStart, actualEnd, total) ← splitContentRange value
      verifyPositions expectedStart expectedEnd contentLength actualStart actualEnd
      verifyTotal actualEnd total

/-- The `Content-Length` that a response has to declare. -/
def contentLength (headers : Headers) : Except ProxyError Nat :=
  match headers.get "content-length" with
  | none => .error (.request "Missing content length header")
  | some value =>
    match Headers.toStr value with
    | none => .error (.request "Invalid content length header")
    | some value =>
      match Text.parseU64 value with
      | none => .error (.request "Invalid content length value")
      | some length => .ok length

/-- The part of `try_download` that looks at a response. -/
def acceptResponse (range : Text) (start finish : Nat)
    (response : HttpResponse) : Except ProxyError (NetResponse × Nat) := do
  let status := response.status
  let reason := response.reason
  if status = 416 then
    throw (.invalidRange ("上游拒绝范围请求: " ++ String.ofList range))
  if status = 401 ∨ status = 403 then
    throw (.upstreamAuthorizationExpired none)
  if ¬(200 ≤ status ∧ status < 300) then
    throw (.request s!"Invalid response status: {status} {reason}")
  if status ≠ 206 ∧ (start > 0 ∨ finish ≠ openEnded) then
    throw (.network
      s!"上游忽略了 Range 请求（状态 {status} {reason}），要求 206 但收到其他状态码（range: {start}-{finish}）")
  let length ← contentLength response.headers
  if status = 206 then
    verifyContentRange response.headers start finish length
  pure (⟨status, response.headers, v1DataStream response.body⟩, length)

/-- `try_download`. -/
def tryDownload (range : Text) (start finish : Nat) :
    Exchange → Except ProxyError (NetResponse × Nat)
  | .unbuildable => .error (.request "无法构造上游请求")
  | .timedOut => .error (.network "等待上游响应头超时")
  | .failed message => .error (.network ("上游请求失败: " ++ message))
  | .answered response => acceptResponse range start finish response

/-! ## Reading the body -/

/-- `advance_bytes_read`. -/
def advanceBytesRead (bytesRead chunkLength rangeStart rangeEnd : Nat) :
    Except ProxyError Nat :=
  match checkedAdd bytesRead chunkLength with
  | none => .error (.network "上游响应体累计长度溢出")
  | some next =>
    if rangeEnd ≠ openEnded then
      match (checkedSub rangeEnd rangeStart).bind fun span => checkedAdd span 1 with
      | none => .error (.invalidRange "上游请求范围无效")
      | some expected =>
        if next > expected then
          .error (.network "上游响应体超过请求的 Range 范围")
        else .ok next
    else .ok next

/-- One body inside `wrap_with_retry`, during a given attempt and from a number
of bytes read on.  A failure in it is passed on when no attempt is left;
otherwise the rest is requested anew, and `retry` goes on in the next attempt
with the new body, or, when that request fails too, with the old one. -/
def wrapBody (resuming : Nat → Text → Exchange) (rangeStart rangeEnd attempt : Nat)
    (retry : Option (ByteStream → Nat → ByteStream)) :
    ByteStream → Nat → ByteStream
  | [], _ => []
  | .ok chunk :: body, bytesRead =>
    match advanceBytesRead bytesRead chunk.length rangeStart rangeEnd with
    | .error error => [.error error]
    | .ok next =>
      .ok chunk :: wrapBody resuming rangeStart rangeEnd attempt retry body next
  | .error error :: body, bytesRead =>
    match retry with
    | none =>
      .error (.network ("流式读取失败: " ++ error.display)) ::
        wrapBody resuming rangeStart rangeEnd attempt retry body bytesRead
    | some retry =>
      match checkedAdd rangeStart bytesRead with
      | none => [.error (.network "续传位置超出可表示范围")]
      | some resumeStart =>
        let resumeRange := formatRange resumeStart rangeEnd
        match tryDownload resumeRange resumeStart rangeEnd (resuming (attempt + 1) resumeRange) with
        | .ok (response, _) => retry response.body bytesRead
        | .error retryError => .error retryError :: retry body bytesRead

/-- `wrap_with_retry`, with a number of attempts left. -/
def wrapWithRetry (resuming : Nat → Text → Exchange) (rangeStart rangeEnd maxAttempts : Nat) :
    Nat → ByteStream → Nat → ByteStream
  | 0 => wrapBody resuming rangeStart rangeEnd maxAttempts none
  | remaining + 1 =>
    wrapBody resuming rangeStart rangeEnd (maxAttempts - (remaining + 1))
      (some (wrapWithRetry resuming rangeStart rangeEnd maxAttempts remaining))

/-- The attempts of `download_stream`: a refused range and an expired
authorization end them, any other error is followed by the next one. -/
def downloadLoop (opening : Nat → Exchange) (range : Text) (start finish : Nat) :
    Nat → Nat → Option ProxyError → Except ProxyError (NetResponse × Nat)
  | 0, _, lastError =>
    .error (lastError.getD (.request "Max retries reached"))
  | remaining + 1, attempt, _ =>
    match tryDownload range start finish (opening attempt) with
    | .ok accepted => .ok accepted
    | .error (.invalidRange message) => .error (.invalidRange message)
    | .error (.upstreamAuthorizationExpired sourceId) =>
      .error (.upstreamAuthorizationExpired sourceId)
    | .error error =>
      downloadLoop opening range start finish remaining (attempt + 1) (some error)

/-- `download_stream`. -/
def downloadStream (upstream : Upstream)
    (range : Text) : Except ProxyError (NetResponse × Nat) := do
  upstream.policy
  let (start, finish) ← parseRange range
  let (response, length) ← downloadLoop
    (fun attempt => upstream.opening attempt range) range start finish
    maxAttempts 1 none
  let body := wrapWithRetry upstream.resuming start finish maxAttempts
    (maxAttempts - 1) response.body 0
  pure ({ response with body := body }, length)

end NetSource
end VideoProxy
