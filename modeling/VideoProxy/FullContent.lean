import VideoProxy.Handlers.Origin
import VideoProxy.RequestHandler
import VideoProxy.Storage.Contract

/-!
# Full responses

A client that sends no range gets a `200`.  Its declared length is the total
length of the resource exactly when what the cache does not have is fetched to
the last byte: an origin that answers with less makes the proxy declare the
shorter length for the whole resource.

Serving is split into two parts for this: the plan, which only looks at the
cache, and what follows from the plan.
-/

namespace VideoProxy

open Faulty DiskStorage

/-- How a request will be served, as far as the cache decides. -/
inductive CachePlan
  | hit (start finish total : Nat)
  | stitch (start finish cachedEnd : Nat)
  | miss

namespace DataSourceManager

section Plans

variable (engine : StorageEngine σ) (outside : Outside)

/-- The decision of `try_serve_from_cache`. -/
def planFromCache (key : Key) (upstream : UpstreamMeta)
    (start requestedEnd : Nat) : ManagerM σ CachePlan := do
  match upstream.totalSize with
  | none => pure .miss
  | some totalSize =>
    let (start, finish) ←
      ofExcept (resolveRange start requestedEnd (some totalSize))
    if ← StorageManager.checkRange engine key (start, finish) then
      pure (.hit start finish totalSize)
    else pure .miss

/-- The decision of `try_serve_mixed`. -/
def planFromBoth (key : Key) (upstream : UpstreamMeta)
    (start requestedEnd : Nat) : ManagerM σ CachePlan := do
  match upstream.totalSize with
  | none => pure .miss
  | some totalSize =>
    let (start, finish) ←
      ofExcept (resolveRange start requestedEnd (some totalSize))
    let cachedSize ← StorageManager.getSize engine key
    match planMixed start finish (cachedSize.getD 0) with
    | .noCache => pure .miss
    | .wholeRangeCached => planFromCache engine key upstream start requestedEnd
    | .stitch cachedEnd =>
      if ← StorageManager.checkRange engine key (start, cachedEnd - 1) then
        pure (.stitch start finish cachedEnd)
      else pure .miss

/-- The decision of both cache paths, in order. -/
def planCached (key : Key) (upstream : UpstreamMeta)
    (start requestedEnd : Nat) : ManagerM σ CachePlan := do
  match ← planFromCache engine key upstream start requestedEnd with
  | .miss => planFromBoth engine key upstream start requestedEnd
  | plan => pure plan

/-- What follows from a plan. -/
def servePlan (key : Key) (upstream : UpstreamMeta) : CachePlan → ManagerM σ (Option Response)
  | .hit start finish total => do
      let stream ← StorageManager.read engine outside.now key (start, finish)
      let response ← ofExcept (ResponseBuilder.buildPartialContentResponse
        stream (headersFromMeta upstream) start finish total)
      pure (some response)
  | .stitch start finish cachedEnd => do
      let response ← MixedSourceHandler.handle engine outside key start finish cachedEnd
      pure (some response)
  | .miss => pure none

theorem tryServeFromCache_eq (key : Key) (upstream : UpstreamMeta) (start requestedEnd : Nat) :
    tryServeFromCache engine outside key upstream start requestedEnd =
      planFromCache engine key upstream start requestedEnd >>=
        servePlan engine outside key upstream := by
  unfold tryServeFromCache planFromCache
  cases upstream.totalSize with
  | none => rfl
  | some totalSize =>
    simp only [bind_assoc]
    refine bind_congr fun resolved => bind_congr fun cached => ?_
    cases cached with
    | true => rfl
    | false => rfl

theorem tryServeMixed_eq (key : Key) (upstream : UpstreamMeta) (start requestedEnd : Nat) :
    tryServeMixed engine outside key upstream start requestedEnd =
      planFromBoth engine key upstream start requestedEnd >>=
        servePlan engine outside key upstream := by
  unfold tryServeMixed planFromBoth
  cases known : upstream.totalSize with
  | none => rfl
  | some totalSize =>
    simp only [bind_assoc]
    refine bind_congr fun resolved => bind_congr fun cachedSize => ?_
    cases planMixed resolved.1 resolved.2 (cachedSize.getD 0) with
    | noCache => rfl
    | wholeRangeCached => exact tryServeFromCache_eq _ _ _ _ _ _
    | stitch cachedEnd =>
      simp only [bind_assoc]
      refine bind_congr fun cached => ?_
      cases cached with
      | true => rfl
      | false => rfl

theorem tryServeCached_eq (key : Key) (upstream : UpstreamMeta) (start requestedEnd : Nat) :
    tryServeCached engine outside key upstream start requestedEnd =
      planCached engine key upstream start requestedEnd >>=
        servePlan engine outside key upstream := by
  unfold tryServeCached planCached
  rw [tryServeFromCache_eq]
  simp only [bind_assoc]
  refine bind_congr fun plan => ?_
  cases plan with
  | hit start finish total => rw [pure_bind]; simp [servePlan]
  | stitch start finish cachedEnd => rw [pure_bind]; simp [servePlan]
  | miss => exact tryServeMixed_eq _ _ _ _ _ _

/-- The plan of a request for a range, and the metadata that it rests on.  A
follower plans again, from the state that it finds after its wait. -/
def requestPlan
    (leads : Bool)
    (waited : Manager σ → Manager σ)
    (key : Key)
    (start requestedEnd : Nat) : ManagerM σ (UpstreamMeta × CachePlan) := do
  let upstream ← StorageManager.upstreamMeta engine key
  match ← planCached engine key upstream start requestedEnd with
  | .miss =>
    if leads then pure (upstream, .miss)
    else do
      update waited
      let upstream ← StorageManager.upstreamMeta engine key
      let plan ← planCached engine key upstream start requestedEnd
      pure (upstream, plan)
  | plan => pure (upstream, plan)

/-- What is not served from the cache is fetched. -/
def answerPlan (key : Key) (start requestedEnd : Nat)
    (planned : UpstreamMeta × CachePlan) : ManagerM σ Response := do
  match ← servePlan engine outside key planned.1 planned.2 with
  | some response => pure response
  | none =>
    fetchFromNetwork engine outside key (formatRange start requestedEnd) start requestedEnd

/-- A request for a range from a position on is planned and then answered. -/
theorem processRequest_eq
    (waited : Manager σ → Manager σ)
    (key : Key)
    {header : Text} {start requestedEnd : Nat}
    (parsed : parseRangeSpec header = .ok (.offset start requestedEnd)) :
    processRequest engine outside waited key header =
      requestPlan engine outside.leads waited key start requestedEnd >>=
        answerPlan engine outside key start requestedEnd := by
  have served (upstream : UpstreamMeta) (plan : CachePlan)
      (other : ManagerM σ Response) (planned : plan ≠ .miss) :
      (servePlan engine outside key upstream plan >>= fun
        | some response => pure response
        | none => other) =
      answerPlan engine outside key start requestedEnd (upstream, plan) := by
    cases plan with
    | hit start finish total => simp [answerPlan, servePlan]
    | stitch start finish cachedEnd => simp [answerPlan, servePlan]
    | miss => exact absurd rfl planned
  unfold processRequest requestPlan requestMeta
  rw [parsed, ofExcept_ok, pure_bind]
  simp only [RangeSpec.endpoints, ofExcept_ok, pure_bind, bind_assoc, tryServeCached_eq]
  refine bind_congr fun upstream => bind_congr fun plan => ?_
  cases plan with
  | hit start finish total =>
    rw [pure_bind]
    exact served _ _ _ (by simp)
  | stitch start finish cachedEnd =>
    rw [pure_bind]
    exact served _ _ _ (by simp)
  | miss =>
    cases outside.leads with
    | true => rfl
    | false =>
      simp only [servePlan, pure_bind, Bool.false_eq_true, if_false,
        serveAsFollower, tryServeCached_eq, bind_assoc]
      rfl

end Plans

end DataSourceManager

/-! ## Plans for a whole resource -/

/-- A plan to serve a whole resource of a given length. -/
def CachePlan.Whole (total : Nat) : CachePlan → Prop
  | .hit start finish _ => start = 0 ∧ finish + 1 = total
  | .stitch start finish _ =>
    start = 0 ∧ finish + 1 = total ∧ total ≤ u64Max
  | .miss => True

/-- What the plan leaves to the upstream is answered to the last byte. -/
def CachePlan.Completed (total : Nat) (outside : Outside) : CachePlan → Prop
  | .hit _ _ _ => True
  | .stitch _ finish cachedEnd => ∀ fetched,
      MixedSourceHandler.fetchWithTimeout outside (formatRange cachedEnd finish) = .ok fetched →
      total ≤ cachedEnd + fetched.contentLength
  | .miss => ∀ fetched,
      NetworkHandler.fetch outside.fetch (formatRange 0 openEnded) = .ok fetched →
      total ≤ fetched.contentLength

/-- A successful response that tells the truth about the length of the resource:
the total in its `Content-Range`, if there is one, and its own length, if it is
not a part. -/
structure HttpResponse.Truthful (total : Nat) (response : HttpResponse) : Prop where
  range : NetworkHandler.totalSizeFromContentRange response.headers = 0 ∨
    NetworkHandler.totalSizeFromContentRange response.headers = total
  whole : response.status ≠ 206 → ∀ length,
    NetSource.contentLength response.headers = .ok length → length = total

/-- An upstream whose successful responses are truthful. -/
def Upstream.Truthful (total : Nat) (upstream : Upstream) : Prop :=
  ∀ attempt range response, upstream.opening attempt range =
      .answered response → 200 ≤ response.status → response.status < 300 →
    response.Truthful total

/-- An origin that sends a few bytes at a time is truthful. -/
theorem cappedOrigin_truthful (content : Bytes) (cap : Nat) :
    (cappedOrigin content cap).Truthful content.length := by
  intro attempt range response opened _ success
  unfold cappedOrigin at opened
  simp only at opened
  split at opened
  · rename_i start finish parsed
    cases opened
    unfold cappedAnswer at success ⊢
    split
    · rename_i inside
      refine ⟨?_, fun other => absurd rfl other⟩
      rw [NetworkHandler.totalSizeFromContentRange_of_get rfl (by omega)]
      split
      · exact Or.inr rfl
      · exact Or.inl rfl
    · rename_i outside
      rw [if_neg outside] at success
      simp at success
  · cases opened

namespace NetworkHandler

theorem totalSize_cases (response : NetResponse) (length : Nat) :
    totalSize response length = 0 ∨ (totalSize response length =
          totalSizeFromContentRange response.headers ∧
        totalSizeFromContentRange response.headers ≠ 0) ∨
      (response.status = 200 ∧ totalSize response length = length) := by
  unfold totalSize
  split
  · split
    · exact Or.inr (Or.inr ⟨‹_›, rfl⟩)
    · exact Or.inl rfl
  · rename_i declared
    exact Or.inr (Or.inl ⟨rfl, declared⟩)

/-- What was fetched from a truthful upstream declares no other total, and is
not empty unless the resource is. -/
theorem fetch_truthful {total : Nat} {upstream : Upstream} (truthful : upstream.Truthful total)
    {range : Text} {fetched : FetchedUpstream} (ended : fetch upstream range = .ok fetched) :
    (∀ size, fetched.upstream.totalSize = some size → size = total ∧ size ≤ u64Max) ∧
      (0 < total → 0 < fetched.contentLength) := by
  unfold fetch at ended
  obtain ⟨⟨net, length⟩, downloaded, ended⟩ := exists_of_except_ok ended
  cases ended
  obtain ⟨start, finish, attempt, response, accepted, _, opened, promise,
    net_eq⟩ := NetSource.downloadStream_eq_ok downloaded
  obtain ⟨ranged, whole⟩ := truthful attempt range response opened
    promise.success.1 promise.success.2
  have headers_eq : net.headers = response.headers := by
    rw [net_eq, promise.response_eq]
  have status_eq : net.status = response.status := by
    rw [net_eq, promise.response_eq]
  refine ⟨fun size size_eq => ?_, fun positive => ?_⟩
  · obtain ⟨positive, size_eq⟩ := Option.ite_none_right_eq_some.mp size_eq
    obtain rfl := Option.some.inj size_eq
    have bounded := totalSizeFromContentRange_le response.headers
    have declared := totalSize_cases net length
    rw [headers_eq, status_eq] at declared
    rcases declared with unknown | ⟨same, known⟩ | ⟨status, same⟩
    · omega
    · omega
    · obtain ⟨_, _, _, word⟩ :=
        NetSource.contentLength_eq_ok promise.length_eq
      have length_eq := whole (by omega) length promise.length_eq
      omega
  · by_cases status : response.status = 206
    · obtain ⟨value, last, text, _, _, _, _, length_eq, _⟩ :=
        (promise.verified status).range
      change 0 < length
      omega
    · have length_eq := whole status length promise.length_eq
      change 0 < length
      omega

end NetworkHandler

namespace DataSourceManager

section Lengths

variable {engine : StorageEngine σ} {outside : Outside} {key : Key}
  {total : Nat}

theorem hit_declares (upstream : UpstreamMeta) (start finish size : Nat) :
    Yields (fun _ => True) (servePlan engine outside key upstream (.hit start finish size))
      fun answer => ∃ response, answer = some response ∧
        response.status = 206 ∧ response.headers.get "content-length" =
          some (Text.decimal (finish - start + 1)) := by
  refine yields_bind (yields_true _) fun stream _ => ?_
  refine yields_bind (yields_ofExcept _) fun response built => ?_
  obtain ⟨_, _, status, _, length, _⟩ :=
    ResponseBuilder.buildPartialContentResponse_eq_ok built
  exact yields_pure ⟨response, rfl, status, length⟩

theorem handle_declares {start finish cachedEnd : Nat} :
    Yields (fun _ => True) (MixedSourceHandler.handle engine outside key start finish cachedEnd)
      fun response => ∃ fetched, MixedSourceHandler.fetchWithTimeout outside
          (formatRange cachedEnd finish) = .ok fetched ∧
        response.status = 206 ∧ response.headers.get "content-length" =
          some (Text.decimal (clampEndToUpstreamLength cachedEnd finish
            fetched.contentLength - start + 1)) := by
  unfold MixedSourceHandler.handle
  split
  · exact yields_fail _ _
  · rename_i closed
    split
    · exact yields_fail _ _
    · refine yields_bind (yields_ofExcept _) fun fetched fetched_eq => ?_
      refine yields_bind (yields_ofExcept _) fun networkSize _ => ?_
      split
      · exact yields_fail _ _
      · refine yields_bind (yields_true _) fun cacheStream _ => ?_
        refine yields_bind (yields_true _) fun networkStream _ => ?_
        refine (yields_ofExcept _).weaken fun response built => ?_
        obtain ⟨_, _, status, _, length, _⟩ :=
          ResponseBuilder.buildPartialContentResponse_eq_ok built
        refine ⟨fetched, ?_, status, length⟩
        rw [formatRange, if_neg closed]
        exact fetched_eq

theorem fetch_declares (truthful : outside.fetch.Truthful total) :
    Yields (fun _ => True) (fetchFromNetwork engine outside key (formatRange 0 openEnded) 0
        openEnded)
      fun response => ∃ fetched, NetworkHandler.fetch outside.fetch (formatRange 0 openEnded) =
          .ok fetched ∧
        0 < total ∧ total ≤ u64Max ∧ response.status = 206 ∧
        response.headers.get "content-length" =
          some (Text.decimal (clampEndToUpstreamLength 0 (total - 1)
            fetched.contentLength + 1)) := by
  refine yields_bind (yields_ofExcept _) fun fetched fetched_eq => ?_
  obtain ⟨declared, _⟩ := NetworkHandler.fetch_truthful truthful fetched_eq
  refine yields_bind (yields_ofExcept _) fun resolved resolved_eq => ?_
  cases known : fetched.upstream.totalSize with
  | none =>
    rw [known] at resolved_eq
    simp [resolveRange] at resolved_eq
  | some size =>
    rw [known] at resolved_eq
    obtain ⟨rfl, word⟩ := declared size known
    obtain ⟨positive, rfl⟩ := resolveRange_some_eq_ok_iff.mp resolved_eq
    refine yields_bind (yields_true _) fun _ _ => ?_
    refine yields_bind (yields_true _) fun clientStream _ => ?_
    refine (yields_ofExcept _).weaken fun response built => ?_
    obtain ⟨_, _, status, _, length, _⟩ :=
      ResponseBuilder.buildPartialContentResponse_eq_ok built
    have last_eq : min openEnded (size - 1) = size - 1 := by
      unfold openEnded
      omega
    rw [last_eq] at length
    exact ⟨fetched, fetched_eq, positive, word, status, length⟩

theorem declared_eq_total_iff {cachedEnd finish length : Nat} (finish_eq : finish + 1 = total)
    (word : total ≤ u64Max) (positive : 0 < length) :
    some (Text.decimal (clampEndToUpstreamLength cachedEnd finish length + 1)) =
        some (Text.decimal total) ↔
      total ≤ cachedEnd + length := by
  have reaches : clampEndToUpstreamLength cachedEnd finish length = finish ↔
      finish < cachedEnd + length :=
    clampEndToUpstreamLength_eq_iff positive (by omega)
  rw [Option.some.injEq, Text.decimal_inj, ← finish_eq, Nat.add_right_cancel_iff, reaches]
  exact Nat.lt_iff_add_one_le

/-- The total length is declared exactly if the plan is completed. -/
theorem answerPlan_declares (truthful : outside.fetch.Truthful total) (upstream : UpstreamMeta)
    {plan : CachePlan} (whole : plan.Whole total) :
    Yields (fun _ => True) (answerPlan engine outside key 0 openEnded (upstream, plan))
      fun response => response.status = 206 ∧
        (response.headers.get "content-length" = some (Text.decimal total) ↔
          plan.Completed total outside) := by
  cases plan with
  | hit start finish size =>
    obtain ⟨rfl, finish_eq⟩ := whole
    refine yields_bind (hit_declares upstream 0 finish size) fun answer declared => ?_
    obtain ⟨response, rfl, status, length⟩ := declared
    refine yields_pure ⟨status, ?_⟩
    rw [length, show finish - 0 + 1 = total by omega]
    exact iff_of_true rfl trivial
  | stitch start finish cachedEnd =>
    obtain ⟨rfl, finish_eq, word⟩ := whole
    refine yields_bind (yields_some handle_declares) fun answer declared => ?_
    obtain ⟨response, rfl, fetched, fetched_eq, status, length⟩ := declared
    refine yields_pure ⟨status, ?_⟩
    have positive : 0 < fetched.contentLength := by
      have inTime := fetched_eq
      unfold MixedSourceHandler.fetchWithTimeout at inTime
      split at inTime
      · exact (NetworkHandler.fetch_truthful truthful inTime).2 (by omega)
      · cases inTime
    rw [length, Nat.sub_zero, declared_eq_total_iff finish_eq word positive]
    constructor
    · intro reached other other_eq
      rw [fetched_eq] at other_eq
      cases other_eq
      exact reached
    · exact fun completed => completed fetched fetched_eq
  | miss =>
    refine yields_bind (yields_pure (rfl : none = none)) ?_
    rintro _ rfl
    refine (fetch_declares truthful).weaken fun response declared => ?_
    obtain ⟨fetched, fetched_eq, nonempty, word, status, length⟩ := declared
    have positive :=
      (NetworkHandler.fetch_truthful truthful fetched_eq).2 nonempty
    refine ⟨status, ?_⟩
    rw [length, declared_eq_total_iff (by omega) word positive, Nat.zero_add]
    constructor
    · intro reached other other_eq
      rw [fetched_eq] at other_eq
      cases other_eq
      exact reached
    · exact fun completed => completed fetched fetched_eq

section Planning

variable {length : Key → Nat} {holds : σ → Prop} (meets : engine.Meets (totalTerms length) holds)
include meets

variable {upstream : UpstreamMeta}

theorem planFromCache_whole (faithful : TotalIs (length key) upstream.totalSize) :
    Yields (StorageManager.OverEngine holds) (planFromCache engine key upstream 0 openEnded)
      (CachePlan.Whole (length key)) := by
  unfold planFromCache
  cases known : upstream.totalSize with
  | none => exact yields_pure trivial
  | some size =>
    obtain ⟨rfl, word⟩ := faithful size known
    refine yields_bind (yields_ofExcept _) fun resolved resolved_eq => ?_
    obtain ⟨positive, rfl⟩ := resolveRange_some_eq_ok_iff.mp resolved_eq
    refine yields_bind (StorageManager.checkRange_yields meets key _) fun cached _ => ?_
    split
    · refine yields_pure ⟨rfl, ?_⟩
      unfold openEnded
      omega
    · exact yields_pure trivial

theorem planFromBoth_whole (faithful : TotalIs (length key) upstream.totalSize) :
    Yields (StorageManager.OverEngine holds) (planFromBoth engine key upstream 0 openEnded)
      (CachePlan.Whole (length key)) := by
  have fromCache := planFromCache_whole meets faithful
  unfold planFromBoth
  cases known : upstream.totalSize with
  | none => exact yields_pure trivial
  | some size =>
    obtain ⟨rfl, word⟩ := faithful size known
    refine yields_bind (yields_ofExcept _) fun resolved resolved_eq => ?_
    obtain ⟨positive, rfl⟩ := resolveRange_some_eq_ok_iff.mp resolved_eq
    refine yields_bind (StorageManager.getSize_yields meets key) fun cachedSize _ => ?_
    split
    · exact yields_pure trivial
    · exact fromCache
    · refine yields_bind (StorageManager.checkRange_yields meets key _) fun cached _ => ?_
      split
      · refine yields_pure ⟨rfl, ?_, word⟩
        unfold openEnded
        omega
      · exact yields_pure trivial

theorem planCached_whole (faithful : TotalIs (length key) upstream.totalSize) :
    Yields (StorageManager.OverEngine holds) (planCached engine key upstream 0 openEnded)
      (CachePlan.Whole (length key)) := by
  refine yields_bind (planFromCache_whole meets faithful) fun plan whole => ?_
  split
  · exact planFromBoth_whole meets faithful
  · exact yields_pure whole

theorem requestPlan_whole
    (leads : Bool)
    {waited : Manager σ → Manager σ}
    (keeps : ∀ manager, holds manager.engine → holds (waited manager).engine) :
    Yields (StorageManager.OverEngine holds)
      (requestPlan engine leads waited key 0 openEnded)
      fun planned => planned.2.Whole (length key) := by
  refine yields_bind (StorageManager.upstreamMeta_yields meets key) fun upstream faithful => ?_
  refine yields_bind (planCached_whole meets faithful) fun plan whole => ?_
  split
  · split
    · exact yields_pure trivial
    · refine yields_bind (yields_update keeps) fun _ _ => ?_
      refine yields_bind (StorageManager.upstreamMeta_yields meets key) fun upstream faithful => ?_
      exact yields_bind (planCached_whole meets faithful) fun plan whole => yields_pure whole
  · exact yields_pure whole

end Planning

end Lengths

/-- The plan that a request for a whole resource is served by, from the state it
starts in and, for a follower, the state after its wait. -/
def wholePlan
    (engine : StorageEngine σ)
    (outside : Outside)
    (waited : Manager σ → Manager σ)
    (key : Key)
    (manager : Manager σ) : Option CachePlan :=
  match (requestPlan engine outside.leads waited key 0 openEnded manager).1 with
  | .ok planned => some planned.2
  | _ => none

/-- The upstream completes what the cache lacks of a resource. -/
def CompletesWhole
    (engine : StorageEngine σ)
    (outside : Outside)
    (waited : Manager σ → Manager σ)
    (key : Key)
    (total : Nat)
    (manager : Manager σ) : Prop :=
  ∀ plan, wholePlan engine outside waited key manager = some plan →
    plan.Completed total outside

/-- A request for everything is answered with the total length exactly if the
upstream completes what the cache lacks. -/
theorem processRequest_declares
    {engine : StorageEngine σ} {length : Key → Nat} {holds : σ → Prop}
    (meets : engine.Meets (totalTerms length) holds)
    {outside : Outside} {waited : Manager σ → Manager σ}
    (keeps : ∀ manager, holds manager.engine → holds (waited manager).engine)
    {key : Key}
    (truthful : outside.fetch.Truthful (length key))
    {manager : Manager σ}
    (held : holds manager.engine)
    {response : Response}
    (answered : (processRequest engine outside waited key "bytes=0-".toList
      manager).1 = .ok response) :
    response.status = 206 ∧ (response.headers.get "content-length" =
          some (Text.decimal (length key)) ↔
        CompletesWhole engine outside waited key (length key) manager) := by
  have parsed : parseRangeSpec "bytes=0-".toList = .ok (.offset 0 openEnded) := by decide
  rw [processRequest_eq engine outside waited key parsed] at answered
  obtain ⟨⟨upstream, plan⟩, middle, planned, answered⟩ :=
    exists_of_bind_ok answered
  have whole := (requestPlan_whole meets outside.leads keeps manager held).2
    (upstream, plan) (by rw [planned])
  have declared := (answerPlan_declares truthful upstream whole middle trivial).2 response answered
  have plan_eq : wholePlan engine outside waited key manager = some plan := by
    rw [wholePlan, planned]
  refine ⟨declared.1, declared.2.trans ⟨fun completed other other_eq => ?_,
    fun completes => completes plan plan_eq⟩⟩
  rw [plan_eq] at other_eq
  cases other_eq
  exact completed

end DataSourceManager

/-! ## The handler -/

namespace DataRequest

theorem withSourceId_plain {urls : UrlLibrary} {request : ClientRequest}
    (plain : request.headers.get "range" = none) {sourceId : Option Nat} {data : DataRequest}
    (made : withSourceId urls request sourceId = .ok data) :
    data.range = "bytes=0-".toList ∧ data.clientSentRange = false := by
  unfold withSourceId at made
  obtain ⟨url, _, made⟩ := exists_of_except_ok made
  split at made
  · cases made
  · obtain ⟨key, _, made⟩ := exists_of_except_ok made
    obtain ⟨range, range_eq, made⟩ := exists_of_except_ok made
    rw [requestRange, plain] at range_eq
    cases range_eq
    cases made
    exact ⟨rfl, by rw [plain]; rfl⟩

theorem fromRegisteredSource_plain {urls : UrlLibrary} {request : ClientRequest}
    (plain : request.headers.get "range" = none) {sourceId : Nat} {source : RegisteredSource}
    {data : DataRequest} (made : fromRegisteredSource urls request sourceId source = .ok data) :
    data.range = "bytes=0-".toList ∧ data.clientSentRange = false := by
  unfold fromRegisteredSource at made
  split at made
  · cases made
  · split at made
    · cases made
    · split at made
      · cases made
      · refine withSourceId_plain ?_ made
        rw [Headers.get_insert_ne (by decide), Headers.get_insert_ne (by decide),
          Headers.get_insert_ne (by decide)]
        exact plain

end DataRequest

namespace RequestHandler

/-- An attempt to serve a request, with the data request and the manager that it
starts from. -/
structure Start (σ : Type) where
  attempt : Attempt σ
  data : DataRequest
  manager : Manager σ

section Answers

variable (urls : UrlLibrary) (engine : StorageEngine σ)
  (first second : Attempt σ) (request : ClientRequest)

/-- The attempt whose outcome a `GET` request is answered with: the second one if
the first ends with an expired authorization of a registered source. -/
def answering (handler : Handler σ) : Option (Start σ) :=
  match dataRequest urls request handler with
  | (.ok data, opened) =>
    match dispatchDataRequest engine first data false opened.manager, data.sourceId with
    | (.error (.upstreamAuthorizationExpired _), manager), some sourceId =>
      match refreshedRequest urls request sourceId data.url
          { opened with manager := manager } with
      | (.ok refreshed, reopened) =>
        some ⟨second, refreshed, reopened.manager⟩
      | _ => none
    | _, _ => some ⟨first, data, opened.manager⟩
  | _ => none

variable {urls engine first second request}

variable {data : DataRequest} {handler : Handler σ} {response : Response}

theorem registeredRequest_plain (plain : request.headers.get "range" = none) {id : Nat}
        (made : (registeredRequest urls request id handler).1 = .ok data) :
    data.range = "bytes=0-".toList ∧ data.clientSentRange = false := by
  obtain ⟨source, _, resolved, made⟩ := exists_of_bind_ok made
  cases source with
  | none => cases made
  | some source =>
    cases direct : DataRequest.fromRegisteredSource urls request id source with
    | error reason =>
      simp only [direct] at made
      cases made
    | ok value =>
      simp only [direct] at made
      cases made
      exact DataRequest.fromRegisteredSource_plain plain direct

theorem dataRequest_plain (plain : request.headers.get "range" = none)
    (made : (dataRequest urls request handler).1 = .ok data) :
    data.range = "bytes=0-".toList ∧ data.clientSentRange = false := by
  obtain ⟨id, opened, parsed, made⟩ := exists_of_bind_ok made
  cases id with
  | some id => exact registeredRequest_plain plain made
  | none =>
    cases direct : DataRequest.new urls request with
    | error reason =>
      simp only [direct] at made
      cases made
    | ok value =>
      simp only [direct] at made
      cases made
      exact DataRequest.withSourceId_plain plain direct

theorem refreshedRequest_plain (plain : request.headers.get "range" = none) {sourceId : Nat}
    {url : Text} (made : (refreshedRequest urls request sourceId url handler).1 = .ok data) :
    data.range = "bytes=0-".toList ∧ data.clientSentRange = false := by
  obtain ⟨registry, _, _, made⟩ := exists_of_bind_ok made
  obtain ⟨refreshed, _, _, made⟩ := exists_of_bind_ok made
  obtain ⟨_, _, _, made⟩ := exists_of_bind_ok made
  exact registeredRequest_plain plain made

/-- An attempt on the manager ends like its operation. -/
theorem attempt_onManager_eq_ok {operation : ManagerM σ α} {after : Handler σ}
    {result : Except ProxyError α}
    (tried : attempt (onManager operation) handler = (.ok result, after)) :
    operation handler.manager = (match result with
        | .ok value => .ok value
        | .error reason => .error reason, after.manager) ∧
      after = { handler with manager := after.manager } := by
  unfold attempt onManager at tried
  cases ended : operation handler.manager with
  | mk exit manager =>
    simp only [ended] at tried
    cases exit with
    | ok value =>
      cases tried
      exact ⟨rfl, rfl⟩
    | error reason =>
      cases tried
      exact ⟨rfl, rfl⟩
    | stopped => cases tried

theorem exists_answering_of_dispatch (plain : request.headers.get "range" = none)
    {opened : Handler σ} (made : dataRequest urls request handler = (.ok data, opened))
    (answered : (dispatchWithRefresh urls engine first second request false
      data opened).1 = .ok response) :
    ∃ start, answering urls engine first second request handler = some start ∧
      start.data.range = "bytes=0-".toList ∧
      (dispatchDataRequest engine start.attempt start.data false
        start.manager).1 = .ok response := by
  have dataPlain := dataRequest_plain plain (by rw [made])
  obtain ⟨result, after, tried, answered⟩ := exists_of_bind_ok answered
  obtain ⟨direct, after_eq⟩ := attempt_onManager_eq_ok tried
  cases result with
  | ok value =>
    cases answered
    refine ⟨⟨first, data, opened.manager⟩, ?_, dataPlain.1, by rw [direct]⟩
    simp [answering, made, direct]
  | error reason =>
    cases source : data.sourceId with
    | none =>
      simp only [source] at answered
      cases reason <;> cases answered
    | some sourceId =>
      simp only [source] at answered
      cases reason with
      | upstreamAuthorizationExpired expired =>
        obtain ⟨refreshed, reopened, renewed, answered⟩ :=
          exists_of_bind_ok answered
        obtain ⟨result, last, retried, answered⟩ :=
          exists_of_bind_ok answered
        obtain ⟨again, _⟩ := attempt_onManager_eq_ok retried
        cases result with
        | error reason => cases answered
        | ok value =>
          cases answered
          refine ⟨⟨second, refreshed, reopened.manager⟩, ?_,
            (refreshedRequest_plain plain (by rw [renewed])).1,
            by rw [again]⟩
          rw [after_eq] at renewed
          simp only [answering, made, direct, source, renewed]
      | _ => cases answered

/-- A `GET` request is answered by one of its attempts. -/
theorem exists_answering (plain : request.headers.get "range" = none) (get : request.method = .get)
        (answered : (handleRequest urls engine first second request handler).1 = .ok response) :
    ∃ start data inner, answering urls engine first second request handler = some start ∧
      start.data.range = "bytes=0-".toList ∧ data.clientSentRange = false ∧
      (dispatchDataRequest engine start.attempt start.data false start.manager).1 = .ok inner ∧
      response = fullContentIfNoRangeRequested inner data := by
  obtain ⟨_, _, validated, answered⟩ := exists_of_bind_ok answered
  rw [get] at validated
  cases validated
  obtain ⟨data, opened, made, answered⟩ := exists_of_bind_ok answered
  obtain ⟨inner, _, dispatched, answered⟩ := exists_of_bind_ok answered
  cases answered
  rw [get, show decide (Method.get = .head) = false from rfl] at dispatched
  obtain ⟨start, start_eq, range_eq, direct⟩ :=
    exists_answering_of_dispatch plain made (by rw [dispatched])
  exact ⟨start, data, inner, start_eq, range_eq,
    (dataRequest_plain plain (by rw [made])).2, direct, rfl⟩

theorem fullContent_of_partial (status : response.status = 206)
    (plain : data.clientSentRange = false) :
    (fullContentIfNoRangeRequested response data).status = 200 ∧
      (fullContentIfNoRangeRequested response data).headers.get
        "content-length" = response.headers.get "content-length" := by
  unfold fullContentIfNoRangeRequested
  rw [if_neg (by simp [status, plain])]
  refine ⟨rfl, ?_⟩
  rw [Headers.get_insert_ne (by decide), Headers.get_remove_ne (by decide)]

end Answers

/-- A `GET` request without a range to a source that is no playlist is answered
with a `200`, and that declares the total length of the resource exactly if the
upstream completes what the cache lacks. -/
theorem contentLength_eq_total_iff
    {urls : UrlLibrary} {env : Environment} {config : StorageConfig}
    {first second : Attempt Disk} {request : ClientRequest}
    (get : request.method = .get)
    (plain : request.headers.get "range" = none)
    {handler : Handler Disk} {start : Start Disk}
    (attempted : answering urls (engine env config) first second request
      handler = some start)
    (media : start.data.requestType = .normal)
    {length : Key → Nat}
    (known : AllKnowTotal length start.manager.engine)
    (waits : ∀ manager, AllKnowTotal length manager.engine →
      AllKnowTotal length (start.attempt.waited manager).engine)
    (truthful : start.attempt.outside.fetch.Truthful
      (length start.data.cacheKey))
    {response : Response}
    (answered : (handleRequest urls (engine env config) first second request
      handler).1 = .ok response) :
    response.status = 200 ∧ (response.headers.get "content-length" =
          some (Text.decimal (length start.data.cacheKey)) ↔
        DataSourceManager.CompletesWhole (engine env config)
          start.attempt.outside start.attempt.waited start.data.cacheKey
          (length start.data.cacheKey) start.manager) := by
  obtain ⟨other, data, inner, other_eq, range_eq, unranged, direct, rfl⟩ :=
    exists_answering plain get answered
  rw [attempted] at other_eq
  cases other_eq
  simp only [dispatchDataRequest, media, range_eq] at direct
  obtain ⟨status, declares⟩ := DataSourceManager.processRequest_declares
    (engine_meets_totalTerms env config length) waits truthful known direct
  obtain ⟨full, length_eq⟩ := fullContent_of_partial status unranged
  rw [length_eq]
  exact ⟨full, declares⟩

theorem answering_direct
    {urls : UrlLibrary} {engine : StorageEngine σ} {first second : Attempt σ}
    {request : ClientRequest} {handler : Handler σ} {data : DataRequest}
    (unregistered : parseMediaPath request.path = .ok none)
    (made : DataRequest.new urls request = .ok data) (sourceless : data.sourceId = none) :
    answering urls engine first second request handler = some ⟨first, data, handler.manager⟩ := by
  have opened : dataRequest urls request handler = (.ok data, handler) := by
    simp only [dataRequest, unregistered, ofExcept_ok, pure_bind, made]
    rfl
  simp only [answering, opened, sourceless]
  split
  · rename_i absurdly
    cases absurdly
  · rfl

/-! ### A short full response -/

/-- A URL library for a proxy with one source. -/
def singleSource : UrlLibrary where
  parse := fun _ => some ⟨"http", "", none, some "origin", none, "/video.mp4"⟩
  uriError := fun _ => none
  requested := fun _ => .ok "http://origin/video.mp4".toList

/-- A `GET` request without a range. -/
def plainGet : ClientRequest where
  method := .get
  path := "/proxy/video".toList
  headers := []

/-- An attempt with an origin that sends at most `cap + 1` bytes at a time. -/
def cappedAttempt (content : Bytes) (cap : Nat) : Attempt Disk where
  outside := {
    probe := cappedOrigin content cap
    fetch := cappedOrigin content cap
    inTime := true
    leads := true
    cacheTakes := fun _ => true
    now := 1 }
  waited := id
  playlist := fun _ => .error (.network "no playlist")

/-- A new proxy with an empty cache. -/
def newHandler : Handler Disk where
  manager := Manager.new Disk.empty
  registry := ⟨∅, none⟩

/-- Status and declared length of an answer. -/
def declared : Exit ProxyError Response → Option (Nat × Option Text)
  | .ok response => some (response.status, response.headers.get "content-length")
  | _ => none

/-- An origin of four bytes that sends two at a time: the plain `GET` is answered
with a `200` of two bytes. -/
theorem plainGet_declares_prefix :
    let content : Bytes := [10, 20, 30, 40]
    let attempt := cappedAttempt content 1
    attempt.outside.fetch.Truthful content.length ∧
    declared (handleRequest singleSource (engine .calmHost ⟨4⟩) attempt attempt
        plainGet newHandler).1 = some (200, some (Text.decimal 2)) ∧
    Text.decimal 2 ≠ Text.decimal content.length := by
  refine ⟨cappedOrigin_truthful _ 1, ?_, ?_⟩
  · decide +kernel
  · decide

/-- What a leader leaves in the cache of a resource of four bytes. -/
def leading (content : Bytes) (key : Key) : ManagerM Disk Nat := do
  StorageManager.recordUpstreamMeta (engine .calmHost ⟨4⟩) key ⟨some 4, none⟩
  StorageManager.write (engine .calmHost ⟨4⟩) 1 key [.ok content] (0, 3)

theorem leading_keeps (content : Bytes) (key : Key) (manager : Manager Disk)
    (known : AllKnowTotal (fun _ => 4) manager.engine) :
    AllKnowTotal (fun _ => 4) (leading content key manager).2.engine := by
  have meets := engine_meets_totalTerms .calmHost ⟨4⟩ fun _ => 4
  have faithful : TotalIs 4 (some 4) := by
    rintro _ ⟨⟩
    exact ⟨rfl, by decide⟩
  have yields : Yields (StorageManager.OverEngine (AllKnowTotal fun _ => 4))
      (leading content key) fun _ => True := by
    refine yields_bind (StorageManager.recordUpstreamMeta_yields meets faithful) fun _ _ => ?_
    exact StorageManager.write_yields meets 1 trivial
  exact (yields manager known).1

/-- A follower of an origin that sends two bytes at a time.  While it waits, the
leader stores all four bytes, so that the answer declares all of them. -/
theorem contentLength_eq_total_iff_follower :
    let content : Bytes := [10, 20, 30, 40]
    let key : Key := "23:http://origin/video.mp4"
    let attempt : Attempt Disk :=
      { cappedAttempt content 1 with
        outside := { (cappedAttempt content 1).outside with leads := false }
        waited := fun manager => (leading content key manager).2 }
    ∃ response, (handleRequest singleSource (engine .calmHost ⟨4⟩) attempt attempt
        plainGet newHandler).1 = .ok response ∧
      response.status = 200 ∧
      response.headers.get "content-length" = some (Text.decimal 4) ∧
      DataSourceManager.CompletesWhole (engine .calmHost ⟨4⟩) attempt.outside
        attempt.waited key 4 (Manager.new Disk.empty) := by
  intro content key attempt
  have parts : declared (handleRequest singleSource (engine .calmHost ⟨4⟩)
      attempt attempt plainGet newHandler).1 = some (200, some (Text.decimal 4)) := by
    decide +kernel
  have made : ∃ data, DataRequest.new singleSource plainGet = .ok data ∧
      data.sourceId = none ∧ data.requestType = .normal ∧
      data.cacheKey = key :=
    ⟨_, rfl, rfl, by decide +kernel, by decide +kernel⟩
  obtain ⟨data, made, sourceless, media, key_eq⟩ := made
  cases answer_eq : (handleRequest singleSource (engine .calmHost ⟨4⟩) attempt
      attempt plainGet newHandler).1 with
  | error reason =>
    rw [answer_eq] at parts
    cases parts
  | stopped =>
    rw [answer_eq] at parts
    cases parts
  | ok response =>
    have known : AllKnowTotal (fun _ => 4) Disk.empty := by
      refine fun key => ⟨fun metadata found => ?_, fun metadata found => ?_⟩
      all_goals cases found
    rw [answer_eq] at parts
    have length_eq := congrArg Prod.snd (Option.some.inj parts)
    have settled := contentLength_eq_total_iff rfl rfl
      (answering_direct (by decide +kernel) made sourceless) media known
      (leading_keeps content key) (cappedOrigin_truthful content 1) answer_eq
    rw [key_eq] at settled
    exact ⟨response, rfl, settled.1, length_eq, settled.2.mp length_eq⟩

end RequestHandler
end VideoProxy
