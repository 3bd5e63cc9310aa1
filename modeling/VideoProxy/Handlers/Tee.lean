import VideoProxy.Handlers.Network
import VideoProxy.Storage.Manager

/-!
# Forwarding a body to the client and to the cache

`tee_to_cache` splits the body of an upstream response.  The client receives all
of it.  The cache receives items as long as it takes them: when it falls behind
for too long or its writer is gone, nothing more is sent to it.
-/

namespace VideoProxy

/-- What the outside world decides while a request is handled. -/
structure Outside where
  /-- The upstream during the probe for the total length. -/
  probe : Upstream
  /-- The upstream during the fetch of the requested bytes. -/
  fetch : Upstream
  /-- Whether the answer to a mixed request arrives before `NETWORK_TIMEOUT`. -/
  inTime : Bool
  /-- Whether no other request is fetching the same range. -/
  leads : Bool
  /-- Whether the cache takes an item of the body, by its number. -/
  cacheTakes : Nat → Bool
  /-- The time of the request. -/
  now : Nat

/-- `forward_upstream` from an item on: what the client and the cache receive,
where the client reads to the end. -/
def forwardUpstream (cacheTakes : Nat → Bool) :
    Nat → Bool → ByteStream → ByteStream × ByteStream
  | _, _, [] => ([], [])
  | index, cacheOpen, .ok chunk :: rest =>
    let cacheOpen := cacheOpen && cacheTakes index
    let (client, cache) :=
      forwardUpstream cacheTakes (index + 1) cacheOpen rest
    (.ok chunk :: client, if cacheOpen then .ok chunk :: cache else cache)
  | index, cacheOpen, .error reason :: _ =>
    ([.error reason],
      if cacheOpen && cacheTakes index then [.error reason] else [])

theorem forwardUpstream_client (cacheTakes : Nat → Bool) (index : Nat) (cacheOpen : Bool)
    {stream : ByteStream} {bytes : Bytes} (whole : contents stream = .ok bytes) :
    (forwardUpstream cacheTakes index cacheOpen stream).1 = stream := by
  induction stream generalizing index cacheOpen bytes with
  | nil => rfl
  | cons item rest inductionHypothesis =>
    obtain ⟨chunk, others, rfl, othersWhole, rfl⟩ := contents_cons_eq_ok whole
    simp only [forwardUpstream]
    rw [inductionHypothesis _ _ othersWhole]

theorem forwardUpstream_closed (cacheTakes : Nat → Bool) (index : Nat) (stream : ByteStream) :
    (forwardUpstream cacheTakes index false stream).2 = [] := by
  induction stream generalizing index with
  | nil => rfl
  | cons item rest inductionHypothesis =>
    cases item with
    | error reason => rfl
    | ok chunk =>
      simp only [forwardUpstream, Bool.false_and]
      exact inductionHypothesis _

/-- The cache receives a beginning of what the stream delivers. -/
theorem forwardUpstream_cache (cacheTakes : Nat → Bool) (index : Nat) (cacheOpen : Bool)
    (stream : ByteStream) :
    delivered (forwardUpstream cacheTakes index cacheOpen stream).2 <+: delivered stream := by
  induction stream generalizing index cacheOpen with
  | nil => exact List.prefix_refl []
  | cons item rest inductionHypothesis =>
    cases item with
    | error reason =>
      simp only [forwardUpstream]
      split <;> exact List.prefix_refl []
    | ok chunk =>
      simp only [forwardUpstream]
      cases taken : cacheOpen && cacheTakes index with
      | true =>
        exact (List.prefix_append_right_inj chunk).mpr (inductionHypothesis _ _)
      | false =>
        simp only [forwardUpstream_closed]
        exact List.nil_prefix

open Faulty in
/-- `tee_to_cache`, with the write to the cache done at once.  Its failure does
not concern the client. -/
def teeToCache (engine : StorageEngine σ) (outside : Outside) (key : Key) (range : Nat × Nat)
    (stream : ByteStream) : ManagerM σ ByteStream := do
  let (client, cache) := forwardUpstream outside.cacheTakes 0 true stream
  ignore (StorageManager.write engine outside.now key cache range)
  pure client

end VideoProxy
