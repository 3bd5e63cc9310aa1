import VideoProxy.HttpTypes
import VideoProxy.Utils.Range

/-!
# Partial content responses

`ResponseBuilder` builds the `206` that every path of the proxy answers with.
-/

namespace VideoProxy

/-- `ALLOWED_UPSTREAM_HEADERS`. -/
def allowedUpstreamHeaders : List String :=
  ["content-type", "cache-control", "accept-ranges", "etag", "last-modified"]

namespace ResponseBuilder

/-- The `Content-Range` of a response; a total of zero is unknown. -/
def contentRange (start finish totalSize : Nat) : Text :=
  "bytes ".toList ++ Text.decimal start ++ ['-'] ++ Text.decimal finish ++
    ['/'] ++ if totalSize > 0 then Text.decimal totalSize else ['*']

/-- `build_partial_content_response`. -/
def buildPartialContentResponse (stream : ByteStream) (headers : Headers)
    (start finish totalSize : Nat) : Except ProxyError Response := do
  if finish = openEnded then
    throw (.invalidRange "响应范围未收敛：end 仍为开区间哨兵值")
  let length ← rangeLength start finish
  let allowed : Headers := headers.filter fun header =>
    header.1 ∈ allowedUpstreamHeaders
  pure {
    status := 206
    headers := (allowed.insert "content-range"
      (contentRange start finish totalSize)).insert "content-length" (Text.decimal length)
    body := stream }

/-- A response that was built declares its range and the length of it. -/
theorem buildPartialContentResponse_eq_ok {stream : ByteStream} {headers : Headers}
    {start finish totalSize : Nat} {response : Response}
    (built : buildPartialContentResponse stream headers start finish totalSize = .ok response) :
    start ≤ finish ∧ finish ≠ openEnded ∧ response.status = 206 ∧
      response.headers.get "content-range" = some (contentRange start finish totalSize) ∧
      response.headers.get "content-length" = some (Text.decimal (finish - start + 1)) ∧
      response.body = stream := by
  unfold buildPartialContentResponse at built
  split at built
  · cases built
  · rename_i closed
    cases measured : rangeLength start finish with
    | error reason =>
      rw [measured] at built
      cases built
    | ok length =>
      rw [measured] at built
      cases built
      obtain ⟨ordered, _, length_eq⟩ := rangeLength_eq_ok_iff.mp measured
      refine ⟨ordered, closed, rfl, ?_, ?_, rfl⟩
      · rw [Headers.get_insert_ne (by decide), Headers.get_insert_self]
      · rw [Headers.get_insert_self, length_eq]

end ResponseBuilder
end VideoProxy
