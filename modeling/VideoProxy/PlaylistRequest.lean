import VideoProxy.CacheKey
import VideoProxy.Hls.Handler

/-!
# Requests for playlists

A playlist is asked for under the path of the proxy, by the header
`X-Original-Url`, or as a registered source.  `DataRequest` and `handle_m3u8` both
take the path of the proxy off the URL, so a URL that has this path itself is not
the one that is downloaded.
-/

namespace VideoProxy

open Faulty Hls RequestHandler

namespace DataRequest

/-- The part of `with_source_id` that reads the path of a request.  A request
under another path is for its own URI, if that can be parsed and printed. -/
def requestedUrl (ownUrl : ClientRequest → Option Text)
    (request : ClientRequest) : Except ProxyError Text :=
  match Text.stripStart proxyPrefix request.path with
  | some proxyPath =>
    match PercentEncoding.decodeComponent (afterLast proxyPrefix proxyPath.length proxyPath) with
    | .error error => .error (.request ("URL 解码失败: " ++ error.display))
    | .ok url => .ok url
  | none =>
    match ownUrl request with
    | none => .error (.request "无效的请求URL")
    | some url => .ok url

end DataRequest

/-- The URL library with the reading of paths. -/
def UrlLibrary.reading (parse : Text → Option ParsedUrl) (uriError : Text → Option String)
    (ownUrl : ClientRequest → Option Text) : UrlLibrary where
  parse := parse
  uriError := uriError
  requested := DataRequest.requestedUrl ownUrl

namespace DataRequest

/-! ## Building a request -/

section Building

variable {urls : UrlLibrary} {request : ClientRequest} {sourceId : Option Nat}
  {url : Text} {parsed : ParsedUrl} {data : DataRequest}

theorem requestUrl_of_withSourceId (built : withSourceId urls request sourceId = .ok data) :
    requestUrl urls request = .ok data.url := by
  unfold withSourceId at built
  obtain ⟨url, url_eq, built⟩ := exists_of_except_ok built
  split at built
  · cases built
  · obtain ⟨key, _, built⟩ := exists_of_except_ok built
    obtain ⟨range, _, built⟩ := exists_of_except_ok built
    cases built
    exact url_eq

theorem acceptsIdentity_of_withSourceId (built : withSourceId urls request sourceId = .ok data) :
    AcceptsIdentity request.headers := by
  unfold withSourceId at built
  obtain ⟨url, _, built⟩ := exists_of_except_ok built
  split at built
  · cases built
  · obtain ⟨key, keyed, _⟩ := exists_of_except_ok built
    exact (buildCacheKey_eq_ok_iff.mp keyed).1

theorem withSourceId_of_accepts (url_eq : requestUrl urls request = .ok url)
    (parsed_eq : urls.parse url = some parsed) (http : parsed.IsHttp)
    (playlist : ".m3u8".toList <:+ parsed.path.toList) (accepts : AcceptsIdentity request.headers)
    (ranged : ∃ range, requestRange request = .ok range) (sourceId : Option Nat) :
    ∃ data, withSourceId urls request sourceId = .ok data ∧
      data.url = url ∧ data.requestType = .m3u8 := by
  obtain ⟨range, range_eq⟩ := ranged
  obtain ⟨key, key_eq⟩ := exists_buildCacheKey http accepts
  have ends : ".m3u8".toList.isSuffixOf parsed.path.toList = true :=
    List.isSuffixOf_iff_suffix.mpr playlist
  simp only [withSourceId, url_eq, bind, Except.bind, parsed_eq, key_eq, range_eq, ends, if_true]
  exact ⟨_, rfl, rfl, rfl⟩

end Building

end DataRequest

/-! ## The requests for a playlist -/

/-- The requests for a playlist at a URL that is also registered. -/
inductive Asks (id : Nat) (url : Text) : ClientRequest → Prop
  | proxied {request : ClientRequest}
      (path : request.path = proxyPrefix ++ PercentEncoding.encodeComponent url)
      (direct : request.headers.get "x-original-url" = none)
      (accepts : DataRequest.AcceptsIdentity request.headers) :
      Asks id url request
  | original {request : ClientRequest}
      (path : parseMediaPath request.path = .ok none)
      (header : request.headers.get "x-original-url" = some url)
      (accepts : DataRequest.AcceptsIdentity request.headers) :
      Asks id url request
  | registered {request : ClientRequest}
      (path : parseMediaPath request.path = .ok (some id)) :
      Asks id url request

/-- The request makes `handle_m3u8` download the playlist at the URL, and cache it
under the URL. -/
def Downloads (rules : UrlRules) (urls : UrlLibrary) (handler : Handler σ) (url : Text)
    (request : ClientRequest) : Prop :=
  ∃ data, dataRequest urls request handler = (.ok data, handler) ∧ data.requestType = .m3u8 ∧
    ∀ world, handleM3u8 rules urls.parse world data.url = servePlaylist rules urls.parse world url

section Routes

variable {rules : UrlRules} {parse : Text → Option ParsedUrl}
  {uriError : Text → Option String} {ownUrl : ClientRequest → Option Text}
  {handler : Handler σ} {id : Nat} {source : RegisteredSource}
  {parsed : ParsedUrl} {request : ClientRequest}

variable {url : Text} {urls : UrlLibrary}

theorem requestedUrl_encoded (path : request.path =
      proxyPrefix ++ PercentEncoding.encodeComponent url) :
    DataRequest.requestedUrl ownUrl request = .ok url := by
  have clear : ¬proxyPrefix <:+: PercentEncoding.encodeComponent url := by
    intro occurs
    have slash : '/' ∈ PercentEncoding.encodeComponent url :=
      occurs.subset (by decide)
    exact @PercentEncoding.IsEncoded.of_checked '/' (· ≠ '/')
      (PercentEncoding.isEncoded_of_mem_encodeComponent slash) (by decide)
      (by decide +kernel) rfl
  rw [DataRequest.requestedUrl, path, Text.stripStart_append]
  simp only [afterLast_of_clear clear, PercentEncoding.decodeComponent_encodeComponent]

theorem requestUrl_proxied (path : request.path =
      proxyPrefix ++ PercentEncoding.encodeComponent url)
    (direct : request.headers.get "x-original-url" = none) :
    DataRequest.requestUrl (.reading parse uriError ownUrl) request = .ok url := by
  rw [DataRequest.requestUrl, direct]
  exact requestedUrl_encoded path

theorem parseMediaPath_proxied (rest : Text) : parseMediaPath (proxyPrefix ++ rest) = .ok none := by
  have other : Text.stripStart "/media/".toList (proxyPrefix ++ rest) = none := by
    have media : "/media/".toList = '/' :: 'm' :: "edia/".toList := by decide
    have proxy : proxyPrefix = '/' :: 'p' :: "roxy/".toList := by decide
    rw [Text.stripStart, if_neg]
    rw [media, proxy, List.isPrefixOf_iff_prefix, List.cons_append,
      List.cons_append, List.cons_prefix_cons, List.cons_prefix_cons]
    rintro ⟨_, different, _⟩
    exact absurd different (by decide)
  rw [parseMediaPath, other]

theorem parseMediaPath_of_stripped {path rest : Text}
    (stripped : Text.stripStart "/media/".toList path = some rest)
    (plain : ¬(rest.isEmpty ∨ '/' ∈ rest)) (read : (Text.parseU64 rest).filter (· ≠ 0) = some id) :
    parseMediaPath path = .ok (some id) := by
  unfold parseMediaPath
  rw [stripped]
  dsimp only
  rw [if_neg plain, read]

theorem parseMediaPath_mediaPath (positive : 0 < id) (word : id ≤ u64Max) :
    parseMediaPath (mediaPath id) = .ok (some id) := by
  refine parseMediaPath_of_stripped (Text.stripStart_append _ _) ?_ ?_
  · rintro (empty | slash)
    · exact Text.decimal_ne_nil id (List.isEmpty_iff.mp empty)
    · exact Text.not_mem_decimal (by decide) id slash
  · rw [Text.parseU64_decimal, if_pos word, Option.filter_some, if_pos]
    exact decide_eq_true (Nat.ne_of_gt positive)

theorem dataRequest_of_unregistered (path : parseMediaPath request.path = .ok none) :
    dataRequest urls request handler = ofExcept (DataRequest.new urls request) handler := by
  rw [dataRequest, path]
  rfl

theorem dataRequest_of_registered (path : parseMediaPath request.path = .ok (some id))
    (resolved : handler.registry.resolve id = some source) :
    dataRequest urls request handler =
      ofExcept (DataRequest.fromRegisteredSource urls request id source) handler := by
  rw [dataRequest, path]
  change registeredRequest urls request id handler = _
  rw [registeredRequest, bind_apply]
  simp only [gets, resolved]

theorem downloads_of_built {built : Except ProxyError DataRequest}
    (request_eq : dataRequest urls request handler = ofExcept built handler)
    (accepted : ∃ data, built = .ok data ∧ data.url = url ∧ data.requestType = .m3u8)
    (clear : ¬proxyPrefix <:+: url) :
    Downloads rules urls handler url request := by
  obtain ⟨data, rfl, rfl, kind⟩ := accepted
  exact ⟨data, request_eq, kind, handleM3u8_eq_iff.mpr (cleanUrl_eq_self_iff.mpr clear)⟩

/-- The headers of a request for a registered source. -/
def registeredHeaders (headers : Headers) (source : RegisteredSource) : Headers :=
  ((headers.insert "x-original-url" source.url).insert "x-cache-asset-id"
    source.identity).insert "x-cache-asset-revision" "registered".toList

theorem get_registeredHeaders (headers : Headers) (source : RegisteredSource) :
    (registeredHeaders headers source).get "x-original-url" = some source.url ∧
    (registeredHeaders headers source).get "x-cache-asset-id" = some source.identity ∧
    (registeredHeaders headers source).get "x-cache-asset-revision" = some "registered".toList ∧
    (registeredHeaders headers source).get "range" = headers.get "range" := by
  unfold registeredHeaders
  refine ⟨?_, ?_, Headers.get_insert_self _ _ _, ?_⟩
  · rw [Headers.get_insert_ne (by decide), Headers.get_insert_ne (by decide),
      Headers.get_insert_self]
  · rw [Headers.get_insert_ne (by decide), Headers.get_insert_self]
  · rw [Headers.get_insert_ne (by decide), Headers.get_insert_ne (by decide),
      Headers.get_insert_ne (by decide)]

theorem fromRegisteredSource_eq_ok_iff {data : DataRequest} :
    DataRequest.fromRegisteredSource urls request id source = .ok data ↔
      urls.uriError source.url = none ∧
      headerValueIsValid (String.ofList source.url) ∧
      headerValueIsValid (String.ofList source.identity) ∧
      DataRequest.withSourceId urls
        { request with headers := registeredHeaders request.headers source }
        (some id) = .ok data := by
  unfold DataRequest.fromRegisteredSource
  cases uri : urls.uriError source.url with
  | some message => simp
  | none =>
    by_cases validUrl : headerValueIsValid (String.ofList source.url)
    · by_cases validIdentity :
          headerValueIsValid (String.ofList source.identity)
      · simp [validUrl, validIdentity, registeredHeaders]
      · simp [validUrl, validIdentity]
    · simp [validUrl]

theorem headerValueIsValid_of_toStr {value : Text} (visible : Headers.toStr value = some value) :
    headerValueIsValid (String.ofList value) = true := by
  unfold Headers.toStr at visible
  split at visible
  · rename_i all
    rw [headerValueIsValid, String.toList_ofList, List.all_eq_true]
    intro char member
    have seen := List.all_eq_true.mp all char member
    simp only [Bool.or_eq_true, Bool.and_eq_true, decide_eq_true_eq] at seen ⊢
    rcases seen with ⟨low, high⟩ | tab
    · exact .inl ⟨low, by omega⟩
    · exact .inr tab
  · cases visible

theorem readable_of_named {identity : Text} {label : String}
    (named : SourceRegistry.validateComponent identity label = .ok identity)
    (visible : Headers.toStr identity = some identity) :
    DataRequest.Readable identity := by
  simp only [SourceRegistry.validateComponent] at named
  split at named
  · cases named
  · rename_i accepted
    rw [not_or] at accepted
    exact ⟨visible, fun empty => accepted.1 (List.isEmpty_iff.mpr empty)⟩

/-- Every request for a playlist makes the handler download it, just if its URL
does not have the path of the proxy in it and can be sent in a header. -/
theorem handleM3u8_downloads_iff (resolved : handler.registry.resolve id = some source)
    (positive : 0 < id)
    (word : id ≤ u64Max)
    (named : SourceRegistry.validateComponent source.identity "媒体身份" = .ok source.identity)
    (parsed_eq : parse source.url = some parsed)
    (http : parsed.IsHttp)
    (playlist : ".m3u8".toList <:+ parsed.path.toList) :
    (∀ request, Asks id source.url request →
      (∃ range, DataRequest.requestRange request = .ok range) →
      Downloads rules (.reading parse uriError ownUrl) handler source.url request) ↔
      ¬proxyPrefix <:+: source.url ∧
      Headers.toStr source.url = some source.url ∧
      Headers.toStr source.identity = some source.identity ∧
      uriError source.url = none := by
  constructor
  · intro downloads
    have plain : DataRequest.AcceptsIdentity [] := .inl ⟨rfl, rfl⟩
    have clear : ¬proxyPrefix <:+: source.url := by
      obtain ⟨data, built, _, serves⟩ := downloads
        ⟨.get, proxyPrefix ++ PercentEncoding.encodeComponent source.url, []⟩
        (.proxied rfl rfl plain) ⟨_, rfl⟩
      rw [dataRequest_of_unregistered (parseMediaPath_proxied _)] at built
      have requested := DataRequest.requestUrl_of_withSourceId (ofExcept_eq_ok built).1
      rw [requestUrl_proxied rfl rfl] at requested
      rw [← Except.ok.inj requested] at serves
      exact cleanUrl_eq_self_iff.mp (handleM3u8_eq_iff.mp serves)
    have visible : Headers.toStr source.url = some source.url := by
      obtain ⟨data, built, _⟩ := downloads ⟨.get, [], [("x-original-url", source.url)]⟩
        (.original rfl rfl (.inl ⟨rfl, rfl⟩)) ⟨_, rfl⟩
      rw [dataRequest_of_unregistered rfl] at built
      have requested := DataRequest.requestUrl_of_withSourceId (ofExcept_eq_ok built).1
      exact (DataRequest.headerText_eq_ok_iff.mp requested).2
    obtain ⟨data, built, _⟩ := downloads ⟨.get, mediaPath id, []⟩
      (.registered (parseMediaPath_mediaPath positive word)) ⟨_, rfl⟩
    rw [dataRequest_of_registered (parseMediaPath_mediaPath positive word) resolved] at built
    obtain ⟨uri, _, _, built⟩ :=
      fromRegisteredSource_eq_ok_iff.mp (ofExcept_eq_ok built).1
    obtain ⟨_, identity, _, _⟩ := get_registeredHeaders [] source
    refine ⟨clear, visible, ?_, uri⟩
    rcases DataRequest.acceptsIdentity_of_withSourceId built with
      ⟨absent, _⟩ | ⟨_, _, found, _, readable, _⟩
    · cases identity.symm.trans absent
    · cases identity.symm.trans found
      exact readable.1
  · rintro ⟨clear, visible, visibleIdentity, uri⟩ request asks ranged
    cases asks with
    | proxied path direct accepts =>
      refine downloads_of_built (dataRequest_of_unregistered
        (by rw [path]; exact parseMediaPath_proxied _)) ?_ clear
      refine DataRequest.withSourceId_of_accepts ?_ parsed_eq http playlist accepts ranged none
      exact requestUrl_proxied path direct
    | original path header accepts =>
      refine downloads_of_built (dataRequest_of_unregistered path) ?_ clear
      refine DataRequest.withSourceId_of_accepts ?_ parsed_eq http playlist accepts ranged none
      rw [DataRequest.requestUrl, header]
      exact DataRequest.headerText_eq_ok_iff.mpr ⟨rfl, visible⟩
    | registered path =>
      refine downloads_of_built (dataRequest_of_registered path resolved) ?_ clear
      obtain ⟨original, identity, revision, range⟩ :=
        get_registeredHeaders request.headers source
      obtain ⟨data, built, data_eq, kind⟩ :
          ∃ data, DataRequest.withSourceId (.reading parse uriError ownUrl)
            { request with
              headers := registeredHeaders request.headers source }
            (some id) = .ok data ∧ data.url = source.url ∧
            data.requestType = .m3u8 := by
        refine DataRequest.withSourceId_of_accepts ?_ parsed_eq http playlist
          (.inr ⟨_, _, identity, revision,
            readable_of_named named visibleIdentity, by decide, by decide⟩) ?_ (some id)
        · rw [DataRequest.requestUrl, original]
          exact DataRequest.headerText_eq_ok_iff.mpr ⟨rfl, visible⟩
        · rw [DataRequest.requestRange, range]
          exact ranged
      exact ⟨data, fromRegisteredSource_eq_ok_iff.mpr ⟨uri, headerValueIsValid_of_toStr visible,
        headerValueIsValid_of_toStr visibleIdentity, built⟩, data_eq, kind⟩

end Routes

/-- A parser that knows one URL. -/
def parseOne (url path : String) (text : Text) : Option ParsedUrl :=
  if text = url.toList then
    some { scheme := "https", host := some "h", path := path }
  else none

/-- A playlist in a directory with the name of the proxy's path is looked for at
its bare name. -/
theorem proxy_directory_lost :
    let url := "https://h/proxy/a.m3u8"
    let urls : UrlLibrary := .reading (parseOne url "/proxy/a.m3u8") (fun _ => none) (fun _ => none)
    let request : ClientRequest := ⟨.get,
      proxyPrefix ++ PercentEncoding.encodeComponent url.toList, []⟩
    (DataRequest.new urls request).map (fun data => (data.url, data.requestType)) =
      .ok (url.toList, .m3u8) ∧
    (handleM3u8 UrlRules.standard urls.parse unreachable url.toList
        { bodies := ∅, registry := .new }).1 =
      .error (.network "a.m3u8") := by
  decide +kernel

/-- A registered playlist is downloaded from its URL. -/
theorem handleM3u8_downloads_plain :
    let url := "https://h/a.m3u8"
    let source : RegisteredSource := ⟨"hls".toList, url.toList⟩
    let handler : Handler Unit :=
      ⟨⟨(), ∅, 0⟩, ⟨(∅ : AList fun _ : Nat => RegisteredSource).insert 1 source, none⟩⟩
    handler.registry.resolve 1 = some source ∧
    ∀ request, Asks 1 source.url request → (∃ range, DataRequest.requestRange request = .ok range) →
      Downloads UrlRules.standard (.reading (parseOne url "/a.m3u8") (fun _ => none) fun _ => none)
        handler source.url request := by
  intro url source handler
  have resolved : handler.registry.resolve 1 = some source := rfl
  let parsed : ParsedUrl := { scheme := "https", host := some "h", path := "/a.m3u8" }
  have http : parsed.IsHttp :=
    ⟨.inr rfl, ⟨"h", rfl, ParsedUrl.isHost_of_all (by decide)⟩, by decide,
      ⟨"a.m3u8".toList, by decide⟩⟩
  have parsed_eq : parseOne url "/a.m3u8" source.url = some parsed := if_pos rfl
  exact ⟨resolved, (handleM3u8_downloads_iff resolved (by decide) (by decide)
    (by decide) parsed_eq http (by decide)).mpr
    ⟨by decide, by decide, by decide, rfl⟩⟩

end VideoProxy
