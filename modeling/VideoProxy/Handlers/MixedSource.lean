import VideoProxy.Handlers.Tee

/-!
# Cached beginnings with a fetched rest

`MixedSourceHandler` answers a request whose beginning is cached: it reads that
from the cache, fetches the rest, and joins the two streams.
-/

namespace VideoProxy

/-- `take_bytes` from a number of bytes taken on: exactly `limit` bytes, or an
error when the stream ends before. -/
def takeBytes (limit : Nat) : Nat → ByteStream → ByteStream
  | taken, [] =>
    if taken ≥ limit then []
    else
      [.error (.network s!"流提前结束：期望 {limit} 字节,实际 {taken} 字节")]
  | taken, .error reason :: _ => if taken ≥ limit then [] else [.error reason]
  | taken, .ok chunk :: rest =>
    if taken ≥ limit then []
    else if chunk.isEmpty then .ok [] :: takeBytes limit taken rest
    else
      let chunkSize := min chunk.length (limit - taken)
      .ok (chunk.take chunkSize) :: takeBytes limit (taken + chunkSize) rest

variable {limit taken : Nat}

theorem takeBytes_of_le (enough : limit ≤ taken) (stream : ByteStream) :
    takeBytes limit taken stream = [] := by
  cases stream with
  | nil => exact if_pos enough
  | cons item rest =>
    cases item with
    | error reason => exact if_pos enough
    | ok chunk => exact if_pos enough

theorem takeBytes_ok (missing : taken < limit) (chunk : Bytes) (rest : ByteStream) :
    takeBytes limit taken (.ok chunk :: rest) = .ok (chunk.take (limit - taken)) ::
        takeBytes limit (taken + min chunk.length (limit - taken)) rest := by
  rw [takeBytes, if_neg (Nat.not_le.mpr missing)]
  split
  · rename_i blank
    rw [List.isEmpty_iff.mp blank, List.take_nil, List.length_nil, Nat.zero_min, Nat.add_zero]
  · simp only [Nat.min_comm chunk.length, ← List.take_eq_take_min]

/-- The bytes that are still missing are passed on, as far as the stream has
them. -/
theorem delivered_takeBytes (limit taken : Nat) (stream : ByteStream) :
    delivered (takeBytes limit taken stream) = (delivered stream).take (limit - taken) := by
  induction stream generalizing taken with
  | nil =>
    rw [delivered, List.take_nil, takeBytes]
    split
    · rfl
    · rfl
  | cons item rest inductionHypothesis =>
    by_cases missing : taken < limit
    · cases item with
      | error reason =>
        rw [takeBytes, if_neg (Nat.not_le.mpr missing), delivered, delivered, List.take_nil]
      | ok chunk =>
        rw [takeBytes_ok missing, delivered, delivered, inductionHypothesis, List.take_append]
        congr 2
        omega
    · rw [takeBytes_of_le (by omega), Nat.sub_eq_zero_of_le (by omega), List.take_zero, delivered]

/-- Nothing fails exactly if the stream delivers enough bytes. -/
theorem faultless_takeBytes_iff (limit taken : Nat) (stream : ByteStream) :
    (∀ reason, .error reason ∉ takeBytes limit taken stream) ↔
      limit ≤ taken + (delivered stream).length := by
  induction stream generalizing taken with
  | nil =>
    rw [takeBytes, delivered, List.length_nil, Nat.add_zero]
    split
    · rename_i enough
      exact iff_of_true (fun _ => List.not_mem_nil) enough
    · rename_i missing
      exact iff_of_false (fun faultless => faultless _ List.mem_cons_self) missing
  | cons item rest inductionHypothesis =>
    by_cases missing : taken < limit
    · cases item with
      | error reason =>
        rw [takeBytes, if_neg (Nat.not_le.mpr missing), delivered, List.length_nil]
        exact iff_of_false (fun faultless => faultless _ List.mem_cons_self) (by omega)
      | ok chunk =>
        simp only [takeBytes_ok missing, List.mem_cons, reduceCtorEq, false_or,
          inductionHypothesis, delivered, List.length_append]
        omega
    · rw [takeBytes_of_le (by omega)]
      exact iff_of_true (fun _ => List.not_mem_nil) (by omega)

theorem contents_takeBytes {stream : ByteStream} {bytes : Bytes}
    (whole : contents stream = .ok bytes) (exactly : taken + bytes.length = limit) :
    contents (takeBytes limit taken stream) = .ok bytes := by
  have delivers := delivered_of_contents whole
  refine contents_eq_ok_iff.mpr ⟨(faultless_takeBytes_iff _ _ _).mpr ?_, ?_⟩
  · rw [delivers]
    exact exactly.ge
  · rw [delivered_takeBytes, delivers]
    exact (List.take_of_length_le (by omega)).symm

/-- `create_mixed_stream`. -/
def createMixedStream (cachedStream networkStream : ByteStream)
    (cacheSize networkSize : Nat) : ByteStream :=
  takeBytes cacheSize 0 cachedStream ++ takeBytes networkSize 0 networkStream

/-- The joined stream delivers a beginning of the wanted bytes of both streams, and
all of them unless it fails, which it does if one of the streams is too short. -/
theorem createMixedStream_exact (cachedStream networkStream : ByteStream)
    (cacheSize networkSize : Nat) :
    delivered (createMixedStream cachedStream networkStream cacheSize networkSize) <+:
        (delivered cachedStream).take cacheSize ++ (delivered networkStream).take networkSize ∧
      ((∀ reason, .error reason ∉
          createMixedStream cachedStream networkStream cacheSize networkSize) →
        delivered (createMixedStream cachedStream networkStream cacheSize networkSize) =
            (delivered cachedStream).take cacheSize ++ (delivered networkStream).take networkSize ∧
          (delivered (createMixedStream cachedStream networkStream cacheSize
            networkSize)).length = cacheSize + networkSize) ∧
      ((delivered cachedStream).length < cacheSize ∨
          (delivered networkStream).length < networkSize →
        ∃ reason, .error reason ∈
          createMixedStream cachedStream networkStream cacheSize networkSize) := by
  unfold createMixedStream
  have first := delivered_takeBytes cacheSize 0 cachedStream
  have second := delivered_takeBytes networkSize 0 networkStream
  rw [Nat.sub_zero] at first second
  refine ⟨?_, fun faultless => ?_, fun short => ?_⟩
  · by_cases faultless : ∀ reason, .error reason ∉ takeBytes cacheSize 0 cachedStream
    · refine ⟨[], ?_⟩
      rw [List.append_nil, delivered_append faultless, first, second]
    · push Not at faultless
      obtain ⟨reason, fails⟩ := faultless
      rw [delivered_append_of_error fails, first]
      exact List.prefix_append _ _
  · simp only [List.mem_append, not_or, forall_and, faultless_takeBytes_iff,
      Nat.zero_add] at faultless
    have unbroken := (faultless_takeBytes_iff cacheSize 0 cachedStream).mpr (by omega)
    rw [delivered_append unbroken, first, second, List.length_append,
      List.length_take_of_le faultless.1, List.length_take_of_le faultless.2]
    exact ⟨rfl, rfl⟩
  · by_contra faultless
    push Not at faultless
    simp only [List.mem_append, not_or, forall_and, faultless_takeBytes_iff,
      Nat.zero_add] at faultless
    omega

namespace MixedSourceHandler

open Faulty

/-- `fetch_with_timeout`. -/
def fetchWithTimeout (outside : Outside) (range : Text) : Except ProxyError FetchedUpstream :=
  if outside.inTime then NetworkHandler.fetch outside.fetch range
  else .error (.network "网络请求超时")

/-- `MixedSourceHandler::handle`. -/
def handle (engine : StorageEngine σ) (outside : Outside) (key : Key)
    (start finish cachedEnd : Nat) : ManagerM σ Response := do
  if finish = openEnded then
    fail (.invalidRange "混合源范围未收敛：end 仍为开区间哨兵值")
  else if start > finish ∨ cachedEnd ≤ start ∨ cachedEnd > finish then
    fail (.invalidRange "无效的请求范围")
  else
    let cacheSize := cachedEnd - start
    let range := "bytes=".toList ++ Text.decimal cachedEnd ++ ['-'] ++ Text.decimal finish
    let fetched ← ofExcept (fetchWithTimeout outside range)
    let finish :=
      clampEndToUpstreamLength cachedEnd finish fetched.contentLength
    let networkSize ← ofExcept (rangeLength cachedEnd finish)
    match checkedAdd cacheSize networkSize with
    | none => fail (.invalidRange "请求范围长度超出可表示范围")
    | some _ =>
      let cacheStream ← StorageManager.read engine outside.now key (start, cachedEnd - 1)
      let networkStream ← teeToCache engine outside key (cachedEnd, finish) fetched.stream
      ofExcept (ResponseBuilder.buildPartialContentResponse
        (createMixedStream cacheStream networkStream cacheSize networkSize)
        fetched.headers start finish (fetched.upstream.totalSize.getD 0))

end MixedSourceHandler
end VideoProxy
