import VideoProxy.DataSourceManager
import VideoProxy.SourceRegistry

/-!
# Handling a request of a client

`DataRequest` reads from a client's request which resource it is for, which cache
key that has, and which range is wanted; a request without a `Range` header is
for everything.  `RequestHandler::handle_request` serves it, once more with a new
URL if the authorization of a registered source has expired, and turns a partial
response into a full one if no range was asked for.
-/

namespace VideoProxy

/-- The methods that the handler tells apart. -/
inductive Method
  | get
  | head
  | other
  deriving DecidableEq

/-- The request of a client, with header names in lower case. -/
structure ClientRequest where
  method : Method
  path : Text
  headers : Headers

/-- What the URL library decides. -/
structure UrlLibrary where
  /-- `Url::parse`. -/
  parse : Text → Option ParsedUrl
  /-- The message for a text that is no URI. -/
  uriError : Text → Option String
  /-- The URL that the path or the query of a request asks for. -/
  requested : ClientRequest → Except ProxyError Text

/-- `RequestType`. -/
inductive RequestType
  | normal
  | m3u8
  deriving DecidableEq

/-- `DataRequest`. -/
structure DataRequest where
  url : Text
  cacheKey : Key
  range : Text
  clientSentRange : Bool
  requestType : RequestType
  sourceId : Option Nat

/-- `to_str()?` on a header value. -/
def headerText (value : Text) : Except ProxyError Text :=
  match Headers.toStr value with
  | some text => .ok text
  | none =>
    .error (.request "Invalid header value: failed to convert header to a str")

namespace DataRequest

/-- `canonical_upstream_identity`. -/
def canonicalUpstreamIdentity (url : ParsedUrl) : Except ProxyError String :=
  match url.host with
  | none => .error (.request "上游 URL 缺少主机")
  | some host =>
    .ok (url.scheme ++ "://" ++ host.map Char.toLower ++ (match url.port with
        | some port => ":" ++ toString port
        | none => "") ++ url.path)

/-- `push_component`. -/
def pushComponent (key value : String) : String :=
  key ++ toString value.utf8ByteSize ++ ":" ++ value

/-- An identity header as a part of the cache key. -/
def pushHeader (headers : Headers) (name label : String)
    (key : String) : Except ProxyError String :=
  match headers.get name with
  | none => .error (.request (label ++ " 缺失"))
  | some value => do
      let text ← headerText value
      let value := Text.trim text
      if value.isEmpty then
        throw (.request (label ++ " 不能为空"))
      pure (pushComponent (key ++ "|") (String.ofList value))

/-- `build_cache_key`. -/
def buildCacheKey (url : ParsedUrl) (headers : Headers) : Except ProxyError Key := do
  let identity ← canonicalUpstreamIdentity url
  let key := pushComponent "" identity
  match (headers.get "x-cache-asset-id").isSome, (headers.get "x-cache-asset-revision").isSome with
  | false, false => pure key
  | true, true => do
      let key ← pushHeader headers "x-cache-asset-id" "X-Cache-Asset-Id" key
      pushHeader headers "x-cache-asset-revision" "X-Cache-Asset-Revision" key
  | _, _ =>
    throw (.request "缓存身份头必须同时提供或同时省略: X-Cache-Asset-Id, X-Cache-Asset-Revision")

/-- The URL that a request is for. -/
def requestUrl (urls : UrlLibrary) (request : ClientRequest) : Except ProxyError Text :=
  match request.headers.get "x-original-url" with
  | some value => headerText value
  | none => urls.requested request

/-- The range that a request is for: everything, if it sends none. -/
def requestRange (request : ClientRequest) : Except ProxyError Text :=
  match request.headers.get "range" with
  | some value => headerText value
  | none => .ok "bytes=0-".toList

/-- `DataRequest::with_source_id`. -/
def withSourceId (urls : UrlLibrary) (request : ClientRequest)
    (sourceId : Option Nat) : Except ProxyError DataRequest := do
  let url ← requestUrl urls request
  match urls.parse url with
  | none => throw (.request "无效的上游 URL")
  | some parsed =>
    let cacheKey ← buildCacheKey parsed request.headers
    let range ← requestRange request
    pure {
      url := url
      cacheKey := cacheKey
      range := range
      clientSentRange := (request.headers.get "range").isSome
      requestType :=
        if ".m3u8".toList.isSuffixOf parsed.path.toList then .m3u8
        else .normal
      sourceId := sourceId }

/-- `DataRequest::new`. -/
def new (urls : UrlLibrary) (request : ClientRequest) : Except ProxyError DataRequest :=
  withSourceId urls request none

/-- `DataRequest::from_registered_source`. -/
def fromRegisteredSource (urls : UrlLibrary) (request : ClientRequest) (sourceId : Nat)
    (source : RegisteredSource) : Except ProxyError DataRequest :=
  match urls.uriError source.url with
  | some message => .error (.request message)
  | none =>
    if ¬headerValueIsValid (String.ofList source.url) then
      .error (.request "registered source URL is invalid")
    else if ¬headerValueIsValid (String.ofList source.identity) then
      .error (.request "registered source identity is invalid")
    else
      let headers := ((request.headers.insert "x-original-url"
        source.url).insert "x-cache-asset-id" source.identity).insert
          "x-cache-asset-revision" "registered".toList
      withSourceId urls { request with headers := headers } (some sourceId)

end DataRequest

namespace RequestHandler

open Faulty

/-- `validate_method`. -/
def validateMethod (method : Method) : Except ProxyError Unit :=
  match method with
  | .get | .head => .ok ()
  | .other => .error .methodNotAllowed

/-- `parse_media_path`. -/
def parseMediaPath (path : Text) : Except ProxyError (Option Nat) :=
  match Text.stripStart "/media/".toList path with
  | none => .ok none
  | some id =>
    if id.isEmpty ∨ '/' ∈ id then
      .error (.request "registered media path is invalid")
    else
      match (Text.parseU64 id).filter (· ≠ 0) with
      | some id => .ok (some id)
      | none => .error (.request "registered media ID is invalid")

/-- `full_content_if_no_range_requested`. -/
def fullContentIfNoRangeRequested (response : Response) (request : DataRequest) : Response :=
  if request.clientSentRange ∨ response.status ≠ 206 then response
  else
    { response with
      status := 200
      headers := (response.headers.remove "content-range").insert "accept-ranges" "bytes".toList }

/-- The state that requests share. -/
structure Handler (σ : Type) where
  manager : Manager σ
  registry : SourceRegistry

/-- Operations of the request handler. -/
abbrev HandlerM (σ : Type) := Faulty (Handler σ) ProxyError

/-- Run an operation of the data source manager. -/
def onManager (operation : ManagerM σ α) : HandlerM σ α :=
  fun handler =>
    let ended := operation handler.manager
    (ended.1, { handler with manager := ended.2 })

/-- What the outside world decides during one attempt to serve a request. -/
structure Attempt (σ : Type) where
  outside : Outside
  /-- What becomes of the manager while a follower waits. -/
  waited : Manager σ → Manager σ
  /-- `handle_m3u8`: the rewritten playlist of a URL. -/
  playlist : Text → Except ProxyError Bytes

section Operations

variable (urls : UrlLibrary) (engine : StorageEngine σ)

/-- `dispatch_data_request`. -/
def dispatchDataRequest
    (attempt : Attempt σ)
    (request : DataRequest)
    (isHead : Bool) : ManagerM σ Response := do
  match isHead, request.requestType with
  | true, .m3u8 =>
    let content ← ofExcept (attempt.playlist request.url)
    pure {
      status := 200
      headers := [("content-type", "application/vnd.apple.mpegurl".toList),
        ("cache-control", "no-cache".toList),
        ("content-length", Text.decimal content.length)]
      body := [] }
  | true, .normal =>
    DataSourceManager.processHead engine attempt.outside request.cacheKey
      request.range request.clientSentRange
  | false, .m3u8 =>
    let content ← ofExcept (attempt.playlist request.url)
    pure {
      status := 200
      headers := [("content-type", "application/vnd.apple.mpegurl".toList),
        ("cache-control", "no-cache".toList)]
      body := [.ok content] }
  | false, .normal =>
    DataSourceManager.processRequest engine attempt.outside attempt.waited
      request.cacheKey request.range

/-- The data request of a registered source. -/
def registeredRequest (request : ClientRequest) (id : Nat) : HandlerM σ DataRequest := do
  match ← gets fun handler => handler.registry.resolve id with
  | none => fail (.request "registered media source does not exist")
  | some source =>
    ofExcept (DataRequest.fromRegisteredSource urls request id source)

/-- The data request that a client's request stands for. -/
def dataRequest (request : ClientRequest) : HandlerM σ DataRequest := do
  match ← ofExcept (parseMediaPath request.path) with
  | some id => registeredRequest urls request id
  | none => ofExcept (DataRequest.new urls request)

/-- The data request with a refreshed URL. -/
def refreshedRequest (request : ClientRequest) (sourceId : Nat)
    (url : Text) : HandlerM σ DataRequest := do
  let registry ← gets fun handler => handler.registry
  let refreshed ← ofExcept (registry.refreshFromProviderIfCurrent urls.parse sourceId url)
  update fun handler => { handler with registry := refreshed }
  registeredRequest urls request sourceId

/-- The part of `handle_request` that dispatches a data request, and once more
after a refresh. -/
def dispatchWithRefresh
    (first second : Attempt σ)
    (request : ClientRequest)
    (isHead : Bool)
    (data : DataRequest) : HandlerM σ Response := do
  match ← attempt (onManager (dispatchDataRequest engine first data isHead)) with
  | .ok response => pure response
  | .error error =>
    match error, data.sourceId with
    | .upstreamAuthorizationExpired _, some sourceId => do
        let refreshed ← refreshedRequest urls request sourceId data.url
        match ← attempt (onManager (dispatchDataRequest engine second refreshed isHead)) with
        | .ok response => pure response
        | .error error => fail (error.withSourceId (some sourceId))
    | error, sourceId => fail (error.withSourceId sourceId)

/-- `handle_request`, with what happens in its first and its second attempt. -/
def handleRequest
    (first second : Attempt σ)
    (request : ClientRequest) : HandlerM σ Response := do
  ofExcept (validateMethod request.method)
  let data ← dataRequest urls request
  let response ← dispatchWithRefresh urls engine first second request
    (decide (request.method = .head)) data
  pure (fullContentIfNoRangeRequested response data)

end Operations

end RequestHandler
end VideoProxy
