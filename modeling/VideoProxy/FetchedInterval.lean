import VideoProxy.DataSource.Download
import VideoProxy.DataSourceManager

/-!
# The interval of a fetched response

`fetch_from_network` caches and advertises an interval that it works out from the
request, the total length of the resource and the declared length of the body.
The total is read a second time from the `Content-Range` of the response, after
the last slash and whatever the status is.

For a `206` the first reading has been checked, and the two agree, so the interval
is the one of the header.  Another status is only accepted for a request for
everything, and its `Content-Range` is not checked at all.
-/

namespace VideoProxy

namespace NetworkHandler

theorem afterLast_append {separator : Char} {rest : Text} (absent : separator ∉ rest)
    (front : Text) :
    afterLast separator (front ++ separator :: rest) = rest := by
  have plain : ∀ char ∈ rest.reverse, decide (char ≠ separator) = true := by
    intro char member
    rw [decide_eq_true_eq]
    rintro rfl
    exact absent (List.mem_reverse.mp member)
  unfold afterLast
  rw [List.reverse_append, List.reverse_cons, List.append_assoc, List.takeWhile_append_of_pos plain]
  simp

/-- The total that was split off is found again after the last slash. -/
theorem trim_afterLast_of_split {value total : Text} {first last : Nat}
    (split_eq : NetSource.splitContentRange value = .ok (first, last, total))
    (plain : '/' ∉ total) :
    Text.trim (afterLast '/' value) = Text.trim total := by
  have slash : ∃ front, Text.trim value = front ++ '/' :: total := by
    unfold NetSource.splitContentRange at split_eq
    simp only at split_eq
    split at split_eq
    · cases split_eq
    · rename_i range text parts
      obtain ⟨rest, stripped, cut⟩ := Option.bind_eq_some_iff.mp parts
      split at split_eq
      · cases split_eq
      · split at split_eq
        · cases split_eq
          refine ⟨"bytes ".toList ++ range, ?_⟩
          rw [Text.eq_of_stripStart stripped, Text.eq_of_splitOnce cut, List.append_assoc]
        · cases split_eq
  obtain ⟨front, trimmed⟩ := slash
  obtain ⟨lead, back, value_eq, _, blank⟩ := Text.exists_eq_append_trim value
  have absent : '/' ∉ total ++ back := by
    rw [List.mem_append, not_or]
    refine ⟨plain, fun member => ?_⟩
    exact absurd (blank '/' member) (by decide)
  rw [trimmed, List.append_assoc, ← List.append_assoc, List.cons_append] at value_eq
  rw [value_eq, afterLast_append absent, Text.trim_append_whitespace total blank]

theorem totalSizeFromContentRange_of_verified {headers : Headers} {value total : Text}
    {first last : Nat} (found : headers.get "content-range" = some value)
    (visible : Headers.toStr value = some value)
    (split_eq : NetSource.splitContentRange value = .ok (first, last, total))
    (sized : total = "*".toList ∨ ∃ size, Text.parseU64 total = some size ∧ last < size) :
    totalSizeFromContentRange headers = (Text.parseU64 total).getD 0 := by
  have number : '/' ∉ total ∧ Text.trim total = total := by
    rcases sized with rfl | ⟨size, parsed, -⟩
    · decide
    · refine ⟨fun member => ?_, Text.trim_of_parseU64 parsed⟩
      rcases Text.isDigit_of_parseU64 parsed member with same | digit
      · exact absurd same (by decide)
      · exact absurd digit (by decide)
  unfold totalSizeFromContentRange
  rw [found, Option.bind_some, visible, Option.bind_some,
    trim_afterLast_of_split split_eq number.1, number.2]

theorem fetch_of_downloaded {upstream : Upstream} {range : Text} {net : NetResponse} {length : Nat}
    (downloaded : NetSource.downloadStream upstream range = .ok (net, length))
    {fetched : FetchedUpstream} (fetches : fetch upstream range = .ok fetched) :
    fetched.contentLength = length ∧ fetched.upstream.totalSize =
        if totalSize net length > 0 then some (totalSize net length) else none := by
  unfold fetch at fetches
  rw [downloaded] at fetches
  cases fetches
  exact ⟨rfl, rfl⟩

end NetworkHandler

/-! ## What is cached and advertised -/

namespace DataSourceManager

open Faulty

/-- A fetched response was served: its metadata was recorded, its body was handed to
the cache for an interval, and the answer advertises that interval. -/
structure Serves (engine : StorageEngine σ) (outside : Outside) (key : Key)
    (fetched : FetchedUpstream) (manager : Manager σ) (first last : Nat) (response : Response)
    (after : Manager σ) : Prop where
  cached : ∃ recorded,
    ignore (StorageManager.recordUpstreamMeta engine key fetched.upstream) manager =
      (.ok (), recorded) ∧
    teeToCache engine outside key (first, last) fetched.stream recorded = (.ok response.body, after)
  ordered : first ≤ last
  range : response.headers.get "content-range" = some (ResponseBuilder.contentRange
    first last (fetched.upstream.totalSize.getD 0))
  length : response.headers.get "content-length" = some (Text.decimal (last - first + 1))

theorem fetchFromNetwork_eq_ok {engine : StorageEngine σ} {outside : Outside} {key : Key}
    {range : Text} {start requestedEnd : Nat} {manager after : Manager σ} {response : Response}
    (served : fetchFromNetwork engine outside key range start requestedEnd manager =
      (.ok response, after)) :
    ∃ fetched first finish, NetworkHandler.fetch outside.fetch range = .ok fetched ∧
      resolveRange start requestedEnd fetched.upstream.totalSize = .ok (first, finish) ∧
      Serves engine outside key fetched manager first
        (clampEndToUpstreamLength first finish fetched.contentLength) response after := by
  obtain ⟨fetched, _, fetching, resolving⟩ := exists_of_bind_eq_ok served
  obtain ⟨fetches, rfl⟩ := ofExcept_eq_ok fetching
  obtain ⟨⟨first, finish⟩, _, resolved, recording⟩ := exists_of_bind_eq_ok resolving
  obtain ⟨resolves, rfl⟩ := ofExcept_eq_ok resolved
  obtain ⟨_, recorded, records, teeing⟩ := exists_of_bind_eq_ok recording
  obtain ⟨clientStream, teed, tees, building⟩ := exists_of_bind_eq_ok teeing
  obtain ⟨built, rfl⟩ := ofExcept_eq_ok building
  obtain ⟨ordered, -, -, range, length, body⟩ :=
    ResponseBuilder.buildPartialContentResponse_eq_ok built
  subst body
  exact ⟨fetched, first, finish, fetches, resolves, ⟨recorded, records, tees⟩, ordered,
    range, length⟩

end DataSourceManager

/-! ## What was received -/

/-- An interval and a total as the upstream response has them. -/
structure Received (net : NetResponse) (length first last : Nat) (total : Option Nat) : Prop where
  ranged : net.status = 206 → ∃ value text, net.headers.get "content-range" = some value ∧
    NetSource.splitContentRange value = .ok (first, last, text) ∧
    (text = "*".toList ∧ total = none ∨ ∃ size, Text.parseU64 text = some size ∧ total = some size)
  whole : net.status ≠ 206 → first = 0 ∧ last + 1 = length
  length_eq : last - first + 1 = length
  complete : net.status = 200 → total = some length

/-- A verified range is the interval that is worked out. -/
theorem received_of_verified {net : NetResponse} {start requestedEnd length : Nat}
    (bounded : requestedEnd ≤ u64Max) (status : net.status = 206)
    (verified : NetSource.Verified net.headers start requestedEnd length)
    (visible : ∀ value, net.headers.get "content-range" = some value →
      Headers.toStr value = some value)
    {first finish : Nat} {total : Option Nat}
    (total_eq : total = if NetworkHandler.totalSize net length > 0 then
      some (NetworkHandler.totalSize net length) else none)
    (resolves : resolveRange start requestedEnd total = .ok (first, finish)) :
    Received net length first (clampEndToUpstreamLength first finish length) total := by
  obtain ⟨value, last, text, found, split_eq, ordered, inside, length_eq, sized⟩ :=
    verified.range
  have declared := NetworkHandler.totalSizeFromContentRange_of_verified found
    (visible value found) split_eq sized
  have size_eq : NetworkHandler.totalSize net length = (Text.parseU64 text).getD 0 := by
    unfold NetworkHandler.totalSize
    rw [declared]
    split
    · rename_i unknown
      rw [unknown, if_neg (by omega)]
    · rfl
  rw [size_eq] at total_eq
  have interval : first = start ∧ clampEndToUpstreamLength first finish length = last ∧
      (text = "*".toList ∧ total = none ∨
        ∃ size, Text.parseU64 text = some size ∧ total = some size) := by
    rw [← length_eq]
    rcases sized with rfl | ⟨size, parsed, below⟩
    · have unknown : total = none := by
        rw [total_eq]
        decide
      rw [unknown] at resolves ⊢
      simp only [resolveRange] at resolves
      split at resolves
      · cases resolves
      · cases resolves
        exact ⟨rfl, clampEndToUpstreamLength_of_body ordered inside (by omega), .inl ⟨rfl, rfl⟩⟩
    · have known : total = some size := by
        rw [total_eq, parsed, Option.getD_some, if_pos (by omega)]
      rw [known] at resolves ⊢
      obtain ⟨-, resolved⟩ := resolveRange_some_eq_ok_iff.mp resolves
      cases resolved
      exact ⟨rfl, clampEndToUpstreamLength_of_body ordered (by omega) (by omega),
        .inr ⟨size, parsed, rfl⟩⟩
  obtain ⟨rfl, clamped, totals⟩ := interval
  rw [clamped]
  exact ⟨fun _ => ⟨value, text, found, split_eq, totals⟩, fun other => absurd status other,
    length_eq, fun other => by omega⟩

/-- Without a range that was checked, the interval is cut at both lengths. -/
theorem received_whole_iff {net : NetResponse} {length : Nat} (word : length ≤ u64Max)
    (status : net.status ≠ 206) {first finish : Nat} {total : Option Nat}
    (total_eq : total = if NetworkHandler.totalSize net length > 0 then
      some (NetworkHandler.totalSize net length) else none)
    (resolves : resolveRange 0 openEnded total = .ok (first, finish)) :
    Received net length first (clampEndToUpstreamLength first finish length) total ↔
      (NetworkHandler.totalSizeFromContentRange net.headers ≠ 0 → 0 < length ∧
          length ≤ NetworkHandler.totalSizeFromContentRange net.headers ∧
          (net.status = 200 → NetworkHandler.totalSizeFromContentRange net.headers = length)) := by
  -- an unknown total does not resolve a request for everything
  have known : ∃ size, total = some size ∧ 0 < size ∧
      NetworkHandler.totalSize net length = size := by
    split at total_eq
    · exact ⟨_, total_eq, ‹_›, rfl⟩
    · rw [total_eq] at resolves
      cases resolves
  obtain ⟨size, rfl, positive, size_eq⟩ := known
  obtain ⟨-, resolved⟩ := resolveRange_some_eq_ok_iff.mp resolves
  cases resolved
  have clamped : clampEndToUpstreamLength 0 (min openEnded (size - 1)) length =
      if length = 0 then min openEnded (size - 1)
      else min (min openEnded (size - 1)) (length - 1) := by
    cases length with
    | zero => rfl
    | succ length =>
      rw [if_neg (by omega)]
      change min _ (saturatingAdd 0 length) = _
      rw [saturatingAdd_of_le (by omega), Nat.zero_add, Nat.add_sub_cancel]
  have small := NetworkHandler.totalSizeFromContentRange_le net.headers
  unfold NetworkHandler.totalSize at size_eq
  rw [clamped]
  unfold openEnded
  by_cases unknown : NetworkHandler.totalSizeFromContentRange net.headers = 0
  · simp only [unknown] at size_eq
    split at size_eq
    · subst size_eq
      refine iff_of_true ⟨fun other => absurd other status, fun _ => ?_, ?_, fun _ => rfl⟩
        fun other => absurd unknown other
      · rw [if_neg (by omega)]
        omega
      · rw [if_neg (by omega)]
        omega
    · omega
  · have same : NetworkHandler.totalSizeFromContentRange net.headers = size := by
      split at size_eq
      · contradiction
      · exact size_eq
    rw [same] at small unknown ⊢
    constructor
    · intro received _
      have reaches := (received.whole status).2
      have complete (isFull : net.status = 200) : size = length :=
        Option.some.inj (received.complete isFull)
      split at reaches
      · omega
      · exact ⟨by omega, by omega, complete⟩
    · intro bounds
      obtain ⟨nonempty, within, complete⟩ := bounds unknown
      rw [if_neg (by omega)]
      refine ⟨fun other => absurd other status, fun _ => ⟨rfl, by omega⟩, by omega,
        fun isFull => ?_⟩
      rw [complete isFull]

namespace DataSourceManager

/-- The interval that is cached and advertised is the one that was received, and
the recorded total is the declared one, exactly if the `Content-Range` of a response
that is not a `206` has no total, or one that the body does not exceed, and for a
`200` just the length of the body. -/
theorem received_iff {engine : StorageEngine σ} {outside : Outside} {key : Key} {range : Text}
    {start requestedEnd : Nat} (parsed : parseRange range = .ok (start, requestedEnd))
    {net : NetResponse} {length : Nat}
    (downloaded : NetSource.downloadStream outside.fetch range = .ok (net, length))
    {manager after : Manager σ} {response : Response}
    (served : fetchFromNetwork engine outside key range start requestedEnd manager =
      (.ok response, after)) :
    ∃ fetched first last, Serves engine outside key fetched manager first last response after ∧
      (Received net length first last fetched.upstream.totalSize ↔ (net.status ≠ 206 →
          NetworkHandler.totalSizeFromContentRange net.headers ≠ 0 →
          0 < length ∧ length ≤ NetworkHandler.totalSizeFromContentRange net.headers ∧
            (net.status = 200 →
              NetworkHandler.totalSizeFromContentRange net.headers = length))) := by
  obtain ⟨fetched, first, finish, fetches, resolves, serves⟩ :=
    fetchFromNetwork_eq_ok served
  obtain ⟨rfl, total_eq⟩ := NetworkHandler.fetch_of_downloaded downloaded fetches
  refine ⟨fetched, first, _, serves, ?_⟩
  obtain ⟨-, bounded⟩ := parseRange_eq_ok parsed
  obtain ⟨attempt, accepted, tried, net_eq⟩ :=
    NetSource.downloadStream_tries parsed downloaded
  obtain ⟨answer, -, promise⟩ := NetSource.tryDownload_eq_ok bounded tried
  have accepted_eq : net.status = accepted.status ∧ net.headers = accepted.headers := by
    rw [net_eq]
    exact ⟨rfl, rfl⟩
  have answer_eq : net.status = answer.status ∧ net.headers = answer.headers := by
    have response_eq : accepted = _ := promise.response_eq
    rw [net_eq, response_eq]
    exact ⟨rfl, rfl⟩
  obtain ⟨-, -, -, word⟩ := NetSource.contentLength_eq_ok promise.length_eq
  by_cases status : net.status = 206
  · refine iff_of_true ?_ fun other => absurd status other
    refine received_of_verified bounded status ?_ (fun value found => ?_) total_eq resolves
    · rw [answer_eq.2]
      exact promise.verified (answer_eq.1.symm.trans status)
    · rw [accepted_eq.2] at found
      exact NetSource.tryDownload_visible tried (accepted_eq.1.symm.trans status) found
  · obtain ⟨rfl, rfl⟩ := promise.whole (answer_eq.1 ▸ status)
    exact (received_whole_iff word status total_eq resolves).trans
      ⟨fun held _ => held, fun held => held status⟩

/-- An upstream with one response to every request. -/
def answeringWith (response : HttpResponse) : Outside where
  probe := ⟨.ok (), fun _ _ => .timedOut, fun _ _ => .timedOut⟩
  fetch := ⟨.ok (), fun _ _ => .answered response, fun _ _ => .timedOut⟩
  inTime := true
  leads := true
  cacheTakes := fun _ => true
  now := 0

/-- Two of four bytes. -/
def twoOfFour : HttpResponse where
  status := 206
  reason := "Partial Content"
  headers := [("content-length", ['2']), ("content-range", "bytes 1-2/4".toList)]
  body := [.ok [1, 2]]

theorem received_iff_partial :
    ∃ net response after fetched first last,
      NetSource.downloadStream (answeringWith twoOfFour).fetch "bytes=1-2".toList = .ok (net, 2) ∧
      Serves (DiskStorage.engine .calmHost ⟨4⟩) (answeringWith twoOfFour) "video"
        fetched (Manager.new Disk.empty) first last response after ∧
      Received net 2 first last fetched.upstream.totalSize := by
  have downloaded : NetSource.downloadStream (answeringWith twoOfFour).fetch
      "bytes=1-2".toList = .ok (_, 2) := rfl
  have observed : (fetchFromNetwork (DiskStorage.engine .calmHost ⟨4⟩)
      (answeringWith twoOfFour) "video" "bytes=1-2".toList 1 2
      (Manager.new Disk.empty)).1.value?.map Response.status = some 206 := by
    decide +kernel
  obtain ⟨response, after, served, -⟩ := Faulty.exists_of_value? observed
  obtain ⟨fetched, first, last, serves, received⟩ :=
    received_iff (by decide) downloaded served
  exact ⟨_, response, after, fetched, first, last, downloaded, serves,
    received.mpr fun other => absurd rfl other⟩

/-- Ten bytes as a complete response, with a range of five. -/
def mislabelled : HttpResponse where
  status := 200
  reason := "OK"
  headers := [("content-length", "10".toList), ("content-range", "bytes 0-4/5".toList)]
  body := [.ok [0, 1, 2, 3, 4, 5, 6, 7, 8, 9]]

/-- Five of the ten bytes are advertised. -/
theorem complete_response_cut :
    (∃ net, NetSource.downloadStream (answeringWith mislabelled).fetch
        "bytes=0-".toList = .ok (net, 10) ∧ net.status = 200) ∧
      ∃ response after, fetchFromNetwork (DiskStorage.engine .calmHost ⟨4⟩)
          (answeringWith mislabelled) "video" "bytes=0-".toList 0 openEnded
          (Manager.new Disk.empty) = (.ok response, after) ∧
        response.headers.get "content-range" = some "bytes 0-4/5".toList ∧
        response.headers.get "content-length" = some ['5'] := by
  have observed : (fetchFromNetwork (DiskStorage.engine .calmHost ⟨4⟩)
      (answeringWith mislabelled) "video" "bytes=0-".toList 0 openEnded
      (Manager.new Disk.empty)).1.value?.map (fun response =>
        (response.headers.get "content-range", response.headers.get "content-length")) =
      some (some "bytes 0-4/5".toList, some ['5']) := by
    decide +kernel
  obtain ⟨response, after, served, seen⟩ := Faulty.exists_of_value? observed
  obtain ⟨range, length⟩ := Prod.mk.inj seen
  exact ⟨⟨_, rfl, rfl⟩, response, after, served, range, length⟩

end DataSourceManager
end VideoProxy
