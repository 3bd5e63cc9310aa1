import VideoProxy.DataSource.NetSource
import VideoProxy.Handlers.Response
import VideoProxy.Storage.Metadata

/-!
# Fetching from the upstream

`NetworkHandler::fetch` sends a range request and keeps what the other handlers
need of the response: the headers that may be forwarded, the declared length of
the body, the total length and content type of the resource, and the body.
-/

namespace VideoProxy

/-- `FetchedUpstream`. -/
structure FetchedUpstream where
  headers : Headers
  contentLength : Nat
  upstream : UpstreamMeta
  body : ByteStream

/-- The body as `into_parts` hands it over: errors become network errors. -/
def FetchedUpstream.stream (fetched : FetchedUpstream) : ByteStream :=
  fetched.body.map fun
    | .ok chunk => .ok chunk
    | .error error => .error (.network error.display)

namespace NetworkHandler

/-- The text after the last separator. -/
def afterLast (separator : Char) (text : Text) : Text :=
  (text.reverse.takeWhile (· ≠ separator)).reverse

/-- `total_size_from_content_range`; zero stands for an unknown total. -/
def totalSizeFromContentRange (headers : Headers) : Nat :=
  (((headers.get "content-range").bind Headers.toStr).bind fun value =>
    Text.parseU64 (Text.trim (afterLast '/' value))).getD 0

theorem totalSizeFromContentRange_le (headers : Headers) :
    totalSizeFromContentRange headers ≤ u64Max := by
  unfold totalSizeFromContentRange
  cases read : ((headers.get "content-range").bind Headers.toStr).bind fun value =>
      Text.parseU64 (Text.trim (afterLast '/' value)) with
  | none => exact Nat.zero_le _
  | some total =>
    obtain ⟨value, -, parsed⟩ := Option.bind_eq_some_iff.mp read
    exact Text.parseU64_le parsed

/-- `extract_headers`. -/
def extractHeaders (headers : Headers) : Headers :=
  headers.filter fun header => header.1 ∈ allowedUpstreamHeaders

/-- The total length that a response declares. -/
def totalSize (response : NetResponse) (contentLength : Nat) : Nat :=
  match totalSizeFromContentRange response.headers with
  | 0 => if response.status = 200 then contentLength else 0
  | fromContentRange => fromContentRange

/-- `NetworkHandler::fetch`. -/
def fetch (upstream : Upstream) (range : Text) : Except ProxyError FetchedUpstream := do
  let (response, contentLength) ← NetSource.downloadStream upstream range
  let total := totalSize response contentLength
  let headers := extractHeaders response.headers
  pure {
    headers := headers
    contentLength := contentLength
    upstream := {
      totalSize := if total > 0 then some total else none
      contentType := ((headers.get "content-type").bind Headers.toStr).map String.ofList }
    body := response.body }

end NetworkHandler
end VideoProxy
