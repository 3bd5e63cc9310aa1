import VideoProxy.DataSourceManager
import VideoProxy.Handlers.Origin
import VideoProxy.Lib.Transition
import VideoProxy.Storage.Contract

/-!
# Transparent proxying

Whichever path serves a request (the cache, the cache and the origin, or the
origin), the client receives a beginning of the requested range of the resource,
declared as what it is.  This holds along every run of requests and evictions
from an empty cache, however much of each body reached the cache.
-/

namespace VideoProxy

open Faulty DiskStorage

/-- The first and the last position that a range asks for in a resource of a
given length. -/
def RangeSpec.requested (length : Nat) : RangeSpec → Nat × Nat
  | .offset start finish => (start, finish)
  | .suffix count => (length - count, length - 1)

variable {content : Bytes} {finish start : Nat}

/-- The endpoints that a request is handled with are the ones requested. -/
theorem endpoints_eq_requested {header : Text} {spec : RangeSpec}
    (parsed : parseRangeSpec header = .ok spec) {total : Option Nat}
    (faithful : TotalIs content.length total) {ends : Nat × Nat}
    (ends_eq : spec.endpoints total = .ok ends) :
    ends = spec.requested content.length ∧ ends.1 ≤ ends.2 ∧ ends.2 ≤ u64Max := by
  cases spec with
  | offset start finish =>
    cases ends_eq
    exact ⟨rfl, parseRangeSpec_wellFormed parsed⟩
  | suffix count =>
    have counted : 0 < count := (parseRangeSpec_wellFormed parsed).1
    cases total with
    | none => cases ends_eq
    | some size =>
      obtain ⟨rfl, word⟩ := faithful size rfl
      cases length_eq : content.length with
      | zero =>
        rw [length_eq] at ends_eq
        cases ends_eq
      | succ last =>
        rw [length_eq] at ends_eq word
        cases ends_eq
        refine ⟨rfl, ?_, ?_⟩ <;> simp only <;> omega

/-- A partial response that declares a beginning of a range of the resource and
carries it. -/
structure Response.Serves (content : Bytes) (start finish : Nat) (response : Response) : Prop where
  status : response.status = 206
  piece : ∃ last, start ≤ last ∧ last ≤ finish ∧ last < content.length ∧
    response.headers.get "content-range" =
      some (ResponseBuilder.contentRange start last content.length) ∧
    response.headers.get "content-length" = some (Text.decimal (last - start + 1)) ∧
    contents response.body = .ok (slice content start last)

theorem Response.Serves.mono {further : Nat} {response : Response}
    (serves : response.Serves content start finish) (within : finish ≤ further) :
    response.Serves content start further := by
  obtain ⟨status, last, ordered, requested, rest⟩ := serves
  exact ⟨status, last, ordered, requested.trans within, rest⟩

theorem ResponseBuilder.build_serves {stream : ByteStream} {headers : Headers}
    {last : Nat} {response : Response}
    (built : buildPartialContentResponse stream headers start last content.length = .ok response)
    (requested : last ≤ finish) (inside : last < content.length)
    (carried : contents stream = .ok (slice content start last)) :
    response.Serves content start finish := by
  obtain ⟨ordered, _, status, range, length, body⟩ :=
    buildPartialContentResponse_eq_ok built
  exact ⟨status, last, ordered, requested, inside, range, length, by rw [body]; exact carried⟩

theorem FetchedUpstream.Piece.clamp {last : Nat}
    {fetched : FetchedUpstream} (piece : fetched.Piece content start last)
    (requested : last ≤ finish) :
    clampEndToUpstreamLength start finish fetched.contentLength = last := by
  have word := piece.word
  have inside := piece.inside
  rw [piece.length_eq]
  exact clampEndToUpstreamLength_of_body piece.ordered requested (by omega)

namespace DataSourceManager

/-- The configuration of the engine that `DataSourceManager::new` creates. -/
def storageConfig : StorageConfig where
  chunkSize := 64 * 1024

section Paths

variable {engine : StorageEngine σ} {resources : Key → Bytes}
  {holds : σ → Prop} (meets : engine.Meets (resourceTerms resources) holds)
  {key : Key} (positive : 0 < (resources key).length)

theorem teeToCache_yields (meets : engine.Meets (resourceTerms resources) holds) (outside : Outside)
    {range : Nat × Nat} {stream : ByteStream} {last : Nat}
    (piece : contents stream = .ok (slice (resources key) range.1 last)) :
    Yields (StorageManager.OverEngine holds)
      (teeToCache engine outside key range stream) fun client =>
        contents client = .ok (slice (resources key) range.1 last) := by
  have cached := forwardUpstream_cache outside.cacheTakes 0 true stream
  rw [delivered_of_contents piece] at cached
  refine yields_bind (yields_ignore (StorageManager.write_yields meets
    outside.now (cached.trans (List.take_prefix _ _)))) fun _ _ => ?_
  apply yields_pure
  rw [forwardUpstream_client outside.cacheTakes 0 true piece]
  exact piece

include meets positive

variable {requestedEnd start : Nat} {upstream : UpstreamMeta} {outside : Outside}

theorem tryServeFromCache_serves (outside : Outside)
    (faithful : TotalIs (resources key).length upstream.totalSize)
    (ordered : start ≤ requestedEnd) :
    Yields (StorageManager.OverEngine holds)
      (tryServeFromCache engine outside key upstream start requestedEnd)
      fun answer => ∀ response, answer = some response →
        response.Serves (resources key) start requestedEnd := by
  unfold tryServeFromCache
  cases known : upstream.totalSize with
  | none => exact yields_pure fun _ absurdly => by cases absurdly
  | some total =>
    obtain ⟨rfl, word⟩ := faithful total known
    refine yields_bind (yields_ofExcept _) fun resolved resolved_eq => ?_
    obtain ⟨inside, rfl⟩ := resolveRange_some_eq_ok_iff.mp resolved_eq
    have closed : min requestedEnd ((resources key).length - 1) ≠ openEnded := by
      unfold openEnded
      omega
    refine yields_bind (StorageManager.checkRange_yields meets key _) fun cached _ => ?_
    split
    · refine yields_bind (StorageManager.read_yields meets outside.now key
        _) fun stream carried => ?_
      refine yields_bind (yields_ofExcept _) fun response built => ?_
      apply yields_pure
      intro answer answer_eq
      cases answer_eq
      exact ResponseBuilder.build_serves built (Nat.min_le_left _ _)
        (by omega) (carried (by simp only; omega) closed)
    · exact yields_pure fun _ absurdly => by cases absurdly

/-- A cached beginning is continued with a fetched piece. -/
theorem handle_serves (honest : outside.fetch.Honest (resources key))
    {finish cachedEnd : Nat} (starts : start < cachedEnd) (reaches : cachedEnd ≤ finish)
    (closed : finish < openEnded) :
    Yields (StorageManager.OverEngine holds)
      (MixedSourceHandler.handle engine outside key start finish cachedEnd)
      (Response.Serves (resources key) start finish) := by
  have parsed := parseRange_formatRange reaches closed.le
  rw [formatRange, if_neg closed.ne] at parsed
  unfold MixedSourceHandler.handle
  rw [if_neg closed.ne, if_neg (by omega)]
  refine yields_bind (yields_ofExcept _) fun fetched fetched_eq => ?_
  unfold MixedSourceHandler.fetchWithTimeout at fetched_eq
  split at fetched_eq
  · obtain ⟨last, requested, piece⟩ :=
      NetworkHandler.fetch_piece positive honest parsed fetched_eq
    have ordered := piece.ordered
    have inside := piece.inside
    simp only [piece.clamp requested]
    refine yields_bind (yields_ofExcept _) fun networkSize size_eq => ?_
    obtain ⟨_, _, rfl⟩ := rangeLength_eq_ok_iff.mp size_eq
    split
    · exact yields_fail _ _
    · refine yields_bind (StorageManager.read_yields meets outside.now key
        _) fun cacheStream cached => ?_
      refine yields_bind (teeToCache_yields meets outside piece.body)
        fun networkStream carried => ?_
      refine (yields_ofExcept _).weaken fun response built => ?_
      rw [piece.total_eq] at built
      refine ResponseBuilder.build_serves built requested inside ?_
      rw [← slice_append (resources key) starts ordered]
      apply contents_append
      · refine contents_takeBytes (cached (by simp only; omega) (by simp only; omega)) ?_
        rw [slice_length (by omega)]
        omega
      · refine contents_takeBytes carried ?_
        rw [slice_length inside]
        omega
  · cases fetched_eq

theorem tryServeMixed_serves (honest : outside.fetch.Honest (resources key))
    (faithful : TotalIs (resources key).length upstream.totalSize)
    (ordered : start ≤ requestedEnd) :
    Yields (StorageManager.OverEngine holds)
      (tryServeMixed engine outside key upstream start requestedEnd)
      fun answer => ∀ response, answer = some response →
        response.Serves (resources key) start requestedEnd := by
  have fromCache := tryServeFromCache_serves meets positive outside faithful ordered
  unfold tryServeMixed
  cases known : upstream.totalSize with
  | none => exact yields_pure fun _ absurdly => by cases absurdly
  | some total =>
    obtain ⟨rfl, word⟩ := faithful total known
    refine yields_bind (yields_ofExcept _) fun resolved resolved_eq => ?_
    obtain ⟨inside, rfl⟩ := resolveRange_some_eq_ok_iff.mp resolved_eq
    refine yields_bind (StorageManager.getSize_yields meets key) fun cachedSize _ => ?_
    cases plan : planMixed start (min requestedEnd ((resources key).length - 1))
        (cachedSize.getD 0) with
    | noCache =>
      simp only
      exact yields_pure fun _ absurdly => by cases absurdly
    | wholeRangeCached =>
      simp only
      exact fromCache
    | stitch cachedEnd =>
      simp only
      have bounds := planMixed_eq_stitch plan
      refine yields_bind (StorageManager.checkRange_yields meets key _) fun cached _ => ?_
      split
      · refine yields_bind (handle_serves meets positive honest bounds.1
          bounds.2 (by unfold openEnded; omega)) fun response served => ?_
        apply yields_pure
        intro answer answer_eq
        cases answer_eq
        exact served.mono (Nat.min_le_left _ _)
      · exact yields_pure fun _ absurdly => by cases absurdly

theorem tryServeCached_serves (honest : outside.fetch.Honest (resources key))
    (faithful : TotalIs (resources key).length upstream.totalSize)
    (ordered : start ≤ requestedEnd) :
    Yields (StorageManager.OverEngine holds)
      (tryServeCached engine outside key upstream start requestedEnd)
      fun answer => ∀ response, answer = some response →
        response.Serves (resources key) start requestedEnd := by
  refine yields_bind (tryServeFromCache_serves meets positive outside faithful
    ordered) fun answer served => ?_
  cases answer with
  | some response => exact yields_pure served
  | none => exact tryServeMixed_serves meets positive honest faithful ordered

theorem fetchFromNetwork_serves (honest : outside.fetch.Honest (resources key))
    (ordered : start ≤ requestedEnd) (bounded : requestedEnd ≤ u64Max) :
    Yields (StorageManager.OverEngine holds)
      (fetchFromNetwork engine outside key (formatRange start requestedEnd) start requestedEnd)
      (Response.Serves (resources key) start requestedEnd) := by
  refine yields_bind (yields_ofExcept _) fun fetched fetched_eq => ?_
  obtain ⟨last, requested, piece⟩ := NetworkHandler.fetch_piece positive honest
    (parseRange_formatRange ordered bounded) fetched_eq
  have inside := piece.inside
  rw [piece.total_eq]
  refine yields_bind (yields_ofExcept _) fun resolved resolved_eq => ?_
  obtain ⟨_, rfl⟩ := resolveRange_some_eq_ok_iff.mp resolved_eq
  simp only [piece.clamp (show last ≤ min requestedEnd ((resources key).length - 1) by omega)]
  refine yields_bind (yields_ignore (StorageManager.recordUpstreamMeta_yields
    meets fun size size_eq => ?_)) fun _ _ => ?_
  · rw [piece.total_eq] at size_eq
    cases size_eq
    exact ⟨rfl, piece.word⟩
  · refine yields_bind (teeToCache_yields meets outside piece.body) fun clientStream carried => ?_
    exact (yields_ofExcept _).weaken fun response built =>
      ResponseBuilder.build_serves built requested inside carried

theorem probeUpstreamMeta_yields (honest : outside.probe.Honest (resources key)) :
    Yields (StorageManager.OverEngine holds) (probeUpstreamMeta engine outside key) fun upstream =>
        TotalIs (resources key).length upstream.totalSize := by
  refine yields_bind (yields_ofExcept _) fun fetched fetched_eq => ?_
  have parsed : parseRange "bytes=0-0".toList = .ok (0, 0) := by decide
  obtain ⟨last, _, piece⟩ :=
    NetworkHandler.fetch_piece positive honest parsed fetched_eq
  have faithful : TotalIs (resources key).length fetched.upstream.totalSize := by
    intro size size_eq
    rw [piece.total_eq] at size_eq
    cases size_eq
    exact ⟨rfl, piece.word⟩
  exact yields_bind (StorageManager.recordUpstreamMeta_yields meets faithful)
    fun _ _ => yields_pure faithful

theorem requestMeta_yields (honest : outside.probe.Honest (resources key)) (spec : RangeSpec) :
    Yields (StorageManager.OverEngine holds) (requestMeta engine outside key spec) fun upstream =>
        TotalIs (resources key).length upstream.totalSize := by
  refine yields_bind (StorageManager.upstreamMeta_yields meets key) fun upstream faithful => ?_
  split
  · exact probeUpstreamMeta_yields meets positive honest
  · exact yields_pure faithful

theorem serveAsFollower_serves
    {waited : Manager σ → Manager σ}
    (keeps : ∀ manager, holds manager.engine → holds (waited manager).engine)
    (honest : outside.fetch.Honest (resources key))
    (ordered : start ≤ requestedEnd) (bounded : requestedEnd ≤ u64Max) :
    Yields (StorageManager.OverEngine holds)
      (serveAsFollower engine outside waited key (formatRange start requestedEnd)
        start requestedEnd)
      (Response.Serves (resources key) start requestedEnd) := by
  refine yields_bind (yields_update keeps) fun _ _ => ?_
  refine yields_bind (StorageManager.upstreamMeta_yields meets key) fun upstream faithful => ?_
  refine yields_bind (tryServeCached_serves meets positive honest faithful
    ordered) fun answer served => ?_
  cases answer with
  | some response => exact yields_pure (served response rfl)
  | none =>
    exact fetchFromNetwork_serves meets positive honest ordered bounded

/-- A request is answered with a beginning of the range that it asks for. -/
theorem processRequest_serves
    {waited : Manager σ → Manager σ}
    (keeps : ∀ manager, holds manager.engine → holds (waited manager).engine)
    (probed : outside.probe.Honest (resources key))
    (honest : outside.fetch.Honest (resources key))
    (header : Text) :
    Yields (StorageManager.OverEngine holds)
      (processRequest engine outside waited key header) fun response =>
        ∃ spec, parseRangeSpec header = .ok spec ∧ response.Serves (resources key)
            (spec.requested (resources key).length).1
            (spec.requested (resources key).length).2 := by
  refine yields_bind (yields_ofExcept _) fun spec parsed => ?_
  refine yields_bind (requestMeta_yields meets positive probed spec) fun upstream faithful => ?_
  refine yields_bind (yields_ofExcept _) fun ends ends_eq => ?_
  obtain ⟨ends_eq, ordered, bounded⟩ :=
    endpoints_eq_requested parsed faithful ends_eq
  subst ends_eq
  refine yields_bind (tryServeCached_serves meets positive honest faithful
    ordered) fun answer served => ?_
  cases answer with
  | some response =>
    exact yields_pure ⟨spec, parsed, served response rfl⟩
  | none =>
    simp only
    split
    · exact (fetchFromNetwork_serves meets positive honest ordered
        bounded).weaken fun _ served => ⟨spec, parsed, served⟩
    · exact (serveAsFollower_serves meets positive keeps honest ordered
        bounded).weaken fun _ served => ⟨spec, parsed, served⟩

end Paths

/-! ## Runs -/

/-- A `GET` request with a `Range` header, what the outside world decides while
it is handled, what others do while it waits, and how the file system treats its
write to the cache. -/
structure Request where
  outside : Outside
  waited : Manager Disk → Manager Disk
  writing : Environment
  key : Key
  header : Text

/-- A step of a run: a request, or an eviction between two requests. -/
inductive Event
  | request (request : Request)
  | evict (entry : CacheEntry)

section Runs

variable (env : Environment)

/-- A request is handled. -/
def Request.serve (request : Request) : ManagerM Disk Response :=
  processRequest (engineWriting env request.writing storageConfig)
    request.outside request.waited request.key request.header

/-- The state after an event. -/
def Event.step : Event → Manager Disk → Option (Manager Disk)
  | .request asked, manager => some (asked.serve env manager).2
  | .evict entry, manager =>
    some (StorageManager.evict (engine env storageConfig) entry manager).2

/-- The upstream of a request is an origin of its resource, and while it waits
the cache stays one of the resources. -/
def Request.Honest (resources : Key → Bytes) (request : Request) : Prop :=
  request.outside.probe.Honest (resources request.key) ∧
    request.outside.fetch.Honest (resources request.key) ∧
    ∀ manager : Manager Disk, AllMirror resources manager.engine →
      AllMirror resources (request.waited manager).engine

def Event.Honest (resources : Key → Bytes) : Event → Manager Disk → Prop
  | .request asked, _ => asked.Honest resources
  | .evict _, _ => True

variable {env} {resources : Key → Bytes} (calm : env.Calm)
  (nonempty : ∀ key, 0 < (resources key).length)
include calm nonempty

theorem Request.serve_serves {request : Request} (honest : request.Honest resources) :
    Yields (StorageManager.OverEngine (AllMirror resources)) (request.serve env) fun response =>
        ∃ spec, parseRangeSpec request.header = .ok spec ∧ response.Serves (resources request.key)
            (spec.requested (resources request.key).length).1
            (spec.requested (resources request.key).length).2 :=
  processRequest_serves
    (engineWriting_meets_resourceTerms calm request.writing (by decide) resources)
    (nonempty request.key) honest.2.2 honest.1 honest.2.1 request.header

theorem allMirror_of_reaches {manager : Manager Disk}
    (reached : Reaches (Event.step env) (Event.Honest resources) (Manager.new Disk.empty) manager) :
    StorageManager.OverEngine (AllMirror resources) manager := by
  refine reached.invariant _ (fun key => Mirrors.empty _ key) ?_
  intro event before after mirrors honest moves
  cases event with
  | request request =>
    cases moves
    exact (Request.serve_serves calm nonempty honest before mirrors).1
  | evict entry =>
    cases moves
    exact (StorageManager.evict_yields (engineWriting_meets_resourceTerms calm env
      (by decide) resources) entry before mirrors).1

/-- Every request of every run is answered, if at all, with a beginning of the
range that it asks for. -/
theorem serves_of_reaches {manager : Manager Disk}
    (reached : Reaches (Event.step env) (Event.Honest resources) (Manager.new Disk.empty) manager)
    {request : Request} (honest : request.Honest resources) {response : Response}
    (answered : (request.serve env manager).1 = .ok response) :
    ∃ spec, parseRangeSpec request.header = .ok spec ∧ response.Serves (resources request.key)
        (spec.requested (resources request.key).length).1
        (spec.requested (resources request.key).length).2 :=
  (Request.serve_serves calm nonempty honest manager
    (allMirror_of_reaches calm nonempty reached)).2 response answered

end Runs

/-- A request to an origin that sends two bytes at a time. -/
def cappedRequest (content : Bytes) (header : Text) : Request where
  outside := {
    probe := cappedOrigin content 1
    fetch := cappedOrigin content 1
    inTime := true
    leads := true
    cacheTakes := fun _ => true
    now := 1 }
  waited := id
  writing := .calmHost
  key := "video"
  header := header

/-- After a request that left two bytes in the cache, a request from the second
byte on is answered from the cache and the origin. -/
theorem serves_of_reaches_stitched :
    let content : Bytes := [10, 20, 30, 40]
    let first := cappedRequest content "bytes=0-".toList
    let second := cappedRequest content "bytes=1-3".toList
    ∃ response, (second.serve .calmHost (first.serve .calmHost (Manager.new Disk.empty)).2).1 =
          .ok response ∧
      response.Serves content 1 3 := by
  intro content first second
  have honest (header : Text) :
      (cappedRequest content header).Honest fun _ => content :=
    ⟨cappedOrigin_honest content 1, cappedOrigin_honest content 1, fun _ mirrors => mirrors⟩
  have started : Event.Honest (fun _ => content) (.request first)
      (Manager.new Disk.empty) := honest _
  have answered : ((second.serve .calmHost
      (first.serve .calmHost (Manager.new Disk.empty)).2).1).ctorIdx = 0 := by
    decide +kernel
  cases answer_eq : (second.serve .calmHost
      (first.serve .calmHost (Manager.new Disk.empty)).2).1 with
  | error reason =>
    rw [answer_eq] at answered
    cases answered
  | stopped =>
    rw [answer_eq] at answered
    cases answered
  | ok response =>
    obtain ⟨spec, parsed, served⟩ := serves_of_reaches
      Environment.calmHost_calm (fun _ => by decide)
      (Reaches.refl.tail started rfl) (honest _) answer_eq
    have spec_eq : parseRangeSpec "bytes=1-3".toList = .ok (.offset 1 3) := by decide
    cases parsed.symm.trans spec_eq
    exact ⟨response, rfl, served⟩

end DataSourceManager
end VideoProxy
