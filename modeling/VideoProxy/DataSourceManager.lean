import VideoProxy.Handlers.MixedSource
import VideoProxy.Storage.Frame

/-!
# Serving a request

`DataSourceManager::process_request` answers a range request from the cache, from
the cache and the upstream, or from the upstream, whichever it finds possible in
this order.
-/

namespace VideoProxy

/-- `MixedPlan`. -/
inductive MixedPlan
  | noCache
  | wholeRangeCached
  | stitch (cachedEnd : Nat)
  deriving DecidableEq

/-- `plan_mixed`. -/
def planMixed (start finish cachedSize : Nat) : MixedPlan :=
  if cachedSize ≤ start then .noCache
  else if cachedSize > finish then .wholeRangeCached
  else .stitch cachedSize

theorem planMixed_eq_stitch {start finish cachedSize cachedEnd : Nat}
    (plan : planMixed start finish cachedSize = .stitch cachedEnd) :
    start < cachedEnd ∧ cachedEnd ≤ finish := by
  unfold planMixed at plan
  split at plan
  · cases plan
  · split at plan
    · cases plan
    · cases plan
      omega

/-- A header value that `HeaderValue::from_str` accepts. -/
def headerValueIsValid (value : String) : Bool :=
  value.toList.all fun char =>
    (32 ≤ char.toNat && char.toNat ≠ 127) || char = '\t'

/-- `headers_from_meta`. -/
def headersFromMeta (upstream : UpstreamMeta) : Headers :=
  match upstream.contentType with
  | some contentType =>
    if headerValueIsValid contentType then
      [("content-type", contentType.toList)]
    else []
  | none => []

namespace DataSourceManager

open Faulty

section Operations

variable (engine : StorageEngine σ) (outside : Outside)

/-- `try_serve_from_cache`. -/
def tryServeFromCache (key : Key) (upstream : UpstreamMeta)
    (start requestedEnd : Nat) : ManagerM σ (Option Response) := do
  match upstream.totalSize with
  | none => pure none
  | some totalSize =>
    let (start, finish) ←
      ofExcept (resolveRange start requestedEnd (some totalSize))
    if ← StorageManager.checkRange engine key (start, finish) then
      let stream ← StorageManager.read engine outside.now key (start, finish)
      let response ← ofExcept (ResponseBuilder.buildPartialContentResponse
        stream (headersFromMeta upstream) start finish totalSize)
      pure (some response)
    else pure none

/-- `try_serve_mixed`. -/
def tryServeMixed (key : Key) (upstream : UpstreamMeta)
    (start requestedEnd : Nat) : ManagerM σ (Option Response) := do
  match upstream.totalSize with
  | none => pure none
  | some totalSize =>
    let (start, finish) ←
      ofExcept (resolveRange start requestedEnd (some totalSize))
    let cachedSize ← StorageManager.getSize engine key
    match planMixed start finish (cachedSize.getD 0) with
    | .noCache => pure none
    | .wholeRangeCached =>
      tryServeFromCache engine outside key upstream start requestedEnd
    | .stitch cachedEnd =>
      if ← StorageManager.checkRange engine key (start, cachedEnd - 1) then
        let response ← MixedSourceHandler.handle engine outside key start finish cachedEnd
        pure (some response)
      else pure none

/-- `fetch_from_network`. -/
def fetchFromNetwork (key : Key) (range : Text)
    (start requestedEnd : Nat) : ManagerM σ Response := do
  let fetched ← ofExcept (NetworkHandler.fetch outside.fetch range)
  let (start, finish) ←
    ofExcept (resolveRange start requestedEnd fetched.upstream.totalSize)
  let finish := clampEndToUpstreamLength start finish fetched.contentLength
  ignore (StorageManager.recordUpstreamMeta engine key fetched.upstream)
  let clientStream ← teeToCache engine outside key (start, finish) fetched.stream
  ofExcept (ResponseBuilder.buildPartialContentResponse clientStream
    fetched.headers start finish (fetched.upstream.totalSize.getD 0))

/-- `probe_upstream_meta`. -/
def probeUpstreamMeta (key : Key) : ManagerM σ UpstreamMeta := do
  let fetched ← ofExcept (NetworkHandler.fetch outside.probe "bytes=0-0".toList)
  StorageManager.recordUpstreamMeta engine key fetched.upstream
  pure fetched.upstream

/-- The two cache paths, in order. -/
def tryServeCached (key : Key) (upstream : UpstreamMeta)
    (start requestedEnd : Nat) : ManagerM σ (Option Response) := do
  match ← tryServeFromCache engine outside key upstream start requestedEnd with
  | some response => pure (some response)
  | none => tryServeMixed engine outside key upstream start requestedEnd

/-- `serve_as_follower`.  Until the leader is done, or was waited for long
enough, other requests go on; `waited` is what they make of the manager. -/
def serveAsFollower
    (waited : Manager σ → Manager σ)
    (key : Key)
    (range : Text)
    (start requestedEnd : Nat) : ManagerM σ Response := do
  update waited
  let upstream ← StorageManager.upstreamMeta engine key
  match ← tryServeCached engine outside key upstream start requestedEnd with
  | some response => pure response
  | none => fetchFromNetwork engine outside key range start requestedEnd

/-- The metadata that a request starts with: a range that counts from the end of
the resource needs its length. -/
def requestMeta (key : Key) (spec : RangeSpec) : ManagerM σ UpstreamMeta := do
  let upstream ← StorageManager.upstreamMeta engine key
  match spec, upstream.totalSize with
  | .suffix _, none => probeUpstreamMeta engine outside key
  | _, _ => pure upstream

/-- `process_request`, with what a follower's wait makes of the manager. -/
def processRequest
    (waited : Manager σ → Manager σ)
    (key : Key)
    (header : Text) : ManagerM σ Response := do
  let spec ← ofExcept (parseRangeSpec header)
  let upstream ← requestMeta engine outside key spec
  let (start, requestedEnd) ← ofExcept (spec.endpoints upstream.totalSize)
  let range := formatRange start requestedEnd
  match ← tryServeCached engine outside key upstream start requestedEnd with
  | some response => pure response
  | none =>
    if outside.leads then
      fetchFromNetwork engine outside key range start requestedEnd
    else serveAsFollower engine outside waited key range start requestedEnd

/-- Status, length and range of the answer to a `HEAD` request. -/
def headParts (header : Text) (clientSentRange : Bool)
    (total : Nat) : Except ProxyError (Nat × Nat × Option Text) := do
  if clientSentRange then
    let spec ← parseRangeSpec header
    let (start, finish) ← spec.endpoints (some total)
    let (start, finish) ← resolveRange start finish (some total)
    let length ← rangeLength start finish
    pure (206, length, some (ResponseBuilder.contentRange start finish total))
  else pure (200, total, none)

/-- `process_head`. -/
def processHead (key : Key) (header : Text) (clientSentRange : Bool) : ManagerM σ Response := do
  let persisted ← StorageManager.upstreamMeta engine key
  let upstream ← match persisted.totalSize with
    | some _ => pure persisted
    | none => probeUpstreamMeta engine outside key
  match upstream.totalSize with
  | none => fail (.invalidRange "上游未提供资源总长度")
  | some total =>
    let (status, contentLength, contentRange) ←
      ofExcept (headParts header clientSentRange total)
    if upstream.contentType.any fun value => !headerValueIsValid value then
      fail (.request "failed to parse header value")
    else
      pure {
        status := status
        headers :=
          [("accept-ranges", "bytes".toList), ("content-length", Text.decimal contentLength)] ++
          (upstream.contentType.toList.map fun value =>
            ("content-type", value.toList)) ++
          contentRange.toList.map fun value => ("content-range", value)
        body := [] }

end Operations

/-! ## What a `HEAD` request changes -/

open DiskStorage

/-- At most the metadata of the key changed, not the table of the manager. -/
structure OnlyMetadata (key : Key) (before after : Manager Disk) : Prop where
  engine : MetadataFrame key before.engine after.engine
  cacheEntries : after.cacheEntries = before.cacheEntries
  totalSize : after.totalSize = before.totalSize

instance (key : Key) : Std.Refl (OnlyMetadata key) where
  refl manager := ⟨refl_of (MetadataFrame key) manager.engine, rfl, rfl⟩

instance (key : Key) : IsTrans (Manager Disk) (OnlyMetadata key) where
  trans _ _ _ first second :=
    ⟨trans_of (MetadataFrame key) first.engine second.engine,
      second.cacheEntries.trans first.cacheEntries, second.totalSize.trans first.totalSize⟩

theorem onEngine_onlyMetadata {key : Key} {operation : DiskM α}
    (keeps : Keeps (MetadataFrame key) operation) :
    Keeps (OnlyMetadata key) (StorageManager.onEngine operation) :=
  fun manager => ⟨keeps manager.engine, rfl, rfl⟩

/-- However a `HEAD` request ends, whatever the upstream answers and whichever
calls to the file system fail, every data file, the metadata of other keys and
the books of the manager are as they were. -/
theorem processHead_onlyMetadata (env : Environment) (config : StorageConfig) (outside : Outside)
    (key : Key) (header : Text) (clientSentRange : Bool) (manager : Manager Disk) :
    OnlyMetadata key manager
      (processHead (engine env config) outside key header clientSentRange manager).2 := by
  have probes : Keeps (OnlyMetadata key) (probeUpstreamMeta (engine env config) outside key) := by
    refine keeps_bind (keeps_ofExcept _) fun fetched => keeps_bind ?_ fun _ => keeps_pure _
    exact onEngine_onlyMetadata (recordUpstreamMeta_keeps env key fetched.upstream)
  suffices keeps : Keeps (OnlyMetadata key)
      (processHead (engine env config) outside key header clientSentRange) from keeps manager
  unfold processHead
  refine keeps_bind (onEngine_onlyMetadata (withMetadata_keeps env key _)) fun persisted => ?_
  extract_lets answer
  have answers : ∀ upstream, Keeps (OnlyMetadata key) (answer upstream) := by
    intro upstream
    unfold answer
    split
    · exact keeps_fail _
    · refine keeps_bind (keeps_ofExcept _) fun ⟨_, _, _⟩ => ?_
      dsimp only
      split
      · exact keeps_fail _
      · exact keeps_pure _
  split
  · exact keeps_bind (keeps_pure _) answers
  · exact keeps_bind probes answers

end DataSourceManager
end VideoProxy
