import VideoProxy.DataSource.NetSource

/-!
# What an accepted response promises

Inversion lemmas for the download: a response that was accepted answers one of
the attempts, has the status, the length and the range that were checked, and
its body is the wrapped one.
-/

namespace VideoProxy

namespace NetSource

/-- What `verify_content_range` finds in the headers it lets pass. -/
structure Verified (headers : Headers) (start finish length : Nat) : Prop where
  range : ∃ value last total, headers.get "content-range" = some value ∧
    splitContentRange value = .ok (start, last, total) ∧
    start ≤ last ∧ last ≤ finish ∧ last - start + 1 = length ∧
    (total = "*".toList ∨ ∃ size, Text.parseU64 total = some size ∧ last < size)

variable {last length start finish rangeEnd rangeStart : Nat} {accepted : NetResponse × Nat}
  {range : Text}

theorem verifyPositions_eq_ok {expectedStart expectedEnd : Nat} (word : last ≤ u64Max)
    (verified : verifyPositions expectedStart expectedEnd length start last = .ok ()) :
    start = expectedStart ∧ start ≤ last ∧ (expectedEnd ≤ u64Max → last ≤ expectedEnd) ∧
      last - start + 1 = length := by
  unfold verifyPositions at verified
  split at verified
  · cases verified
  · split at verified
    · cases verified
    · split at verified
      · cases verified
      · split at verified
        · cases verified
        · rename_i sameStart ordered inside _ actual actual_eq
          split at verified
          · cases verified
          · rename_i sameLength
            simp only [Option.bind_eq_some_iff, checkedSub_eq_some_iff,
              checkedAdd_eq_some_iff] at actual_eq
            obtain ⟨span, ⟨_, span_eq⟩, sum_eq, _⟩ := actual_eq
            refine ⟨by omega, by omega, fun bounded => ?_, by omega⟩
            by_cases unbounded : expectedEnd = u64Max
            · omega
            · exact Nat.le_of_not_lt fun beyond => inside ⟨unbounded, beyond⟩

theorem splitContentRange_eq_ok {value : Text} {total : Text}
    (split_eq : splitContentRange value = .ok (start, last, total)) :
    last ≤ u64Max := by
  unfold splitContentRange at split_eq
  simp only at split_eq
  split at split_eq
  · cases split_eq
  · split at split_eq
    · cases split_eq
    · split at split_eq
      · rename_i first_eq last_eq
        cases split_eq
        exact Text.parseU64_le last_eq
      · cases split_eq

theorem verifyTotal_eq_ok {total : Text} (verified : verifyTotal last total = .ok ()) :
    total = "*".toList ∨ ∃ size, Text.parseU64 total = some size ∧ last < size := by
  unfold verifyTotal at verified
  split at verified
  · exact Or.inl ‹_›
  · split at verified
    · cases verified
    · rename_i size size_eq
      split at verified
      · cases verified
      · exact Or.inr ⟨size, size_eq, by omega⟩

/-- What a range that passes the check looks like. -/
theorem verifyContentRange_eq_ok {headers : Headers} (bounded : finish ≤ u64Max)
    (verified : verifyContentRange headers start finish length = .ok ()) :
    Verified headers start finish length := by
  unfold verifyContentRange at verified
  cases found : headers.get "content-range" with
  | none =>
    rw [found] at verified
    cases verified
  | some value =>
    simp only [found] at verified
    cases visible : Headers.toStr value with
    | none =>
      rw [visible] at verified
      cases verified
    | some text =>
      obtain rfl := Headers.eq_of_toStr visible
      simp only [visible] at verified
      obtain ⟨⟨actualStart, last, total⟩, split_eq, verified⟩ :=
        exists_of_except_ok verified
      obtain ⟨_, positions, sized⟩ := exists_of_except_ok verified
      obtain ⟨rfl, ordered, inside, length_eq⟩ := verifyPositions_eq_ok
        (splitContentRange_eq_ok split_eq) positions
      exact ⟨text, last, total, found, split_eq, ordered, inside bounded,
        length_eq, verifyTotal_eq_ok sized⟩

theorem contentLength_eq_ok {headers : Headers} (declared : contentLength headers = .ok length) :
    ∃ value, headers.get "content-length" = some value ∧
      Text.parseU64 value = some length ∧ length ≤ u64Max := by
  unfold contentLength at declared
  split at declared
  · cases declared
  · rename_i value found
    split at declared
    · cases declared
    · rename_i text visible
      split at declared
      · cases declared
      · rename_i parsed
        cases declared
        rw [Headers.eq_of_toStr visible] at parsed
        exact ⟨value, found, parsed, Text.parseU64_le parsed⟩

/-- An accepted response: either a verified `206`, or another success to a
request for everything. -/
structure Accepted (start finish : Nat) (response : HttpResponse) (accepted : NetResponse)
    (length : Nat) : Prop where
  response_eq : accepted = ⟨response.status, response.headers, v1DataStream response.body⟩
  length_eq : contentLength response.headers = .ok length
  success : 200 ≤ response.status ∧ response.status < 300
  verified : response.status = 206 → Verified response.headers start finish length
  whole : response.status ≠ 206 → start = 0 ∧ finish = openEnded

/-- What `try_download` has checked of a response that it accepts. -/
theorem acceptResponse_checks {response : HttpResponse}
    (accepted_eq : acceptResponse range start finish response = .ok accepted) :
    accepted.1 = ⟨response.status, response.headers, v1DataStream response.body⟩ ∧
      contentLength response.headers = .ok accepted.2 ∧
      (200 ≤ response.status ∧ response.status < 300) ∧
      (response.status = 206 →
        verifyContentRange response.headers start finish accepted.2 = .ok ()) ∧
      (response.status ≠ 206 → start = 0 ∧ finish = openEnded) := by
  unfold acceptResponse at accepted_eq
  simp only at accepted_eq
  split at accepted_eq
  · cases accepted_eq
  · split at accepted_eq
    · cases accepted_eq
    · split at accepted_eq
      · cases accepted_eq
      · split at accepted_eq
        · cases accepted_eq
        · rename_i _ _ success honoured
          obtain ⟨length, length_eq, accepted_eq⟩ :=
            exists_of_except_ok accepted_eq
          have whole : response.status ≠ 206 → start = 0 ∧ finish = openEnded := by
            intro other
            have sent := not_and.mp honoured other
            exact ⟨by omega, by_contra fun closed => sent (Or.inr closed)⟩
          split at accepted_eq
          · obtain ⟨_, verified, accepted_eq⟩ :=
              exists_of_except_ok accepted_eq
            cases accepted_eq
            exact ⟨rfl, length_eq, by omega, fun _ => verified, whole⟩
          · cases accepted_eq
            exact ⟨rfl, length_eq, by omega, fun expected => absurd expected ‹_›, whole⟩

/-- What an accepted response looks like. -/
theorem acceptResponse_eq_ok (bounded : finish ≤ u64Max) {response : HttpResponse}
    (accepted_eq : acceptResponse range start finish response = .ok accepted) :
    Accepted start finish response accepted.1 accepted.2 := by
  obtain ⟨response_eq, length_eq, success, verified, whole⟩ :=
    acceptResponse_checks accepted_eq
  exact ⟨response_eq, length_eq, success,
    fun status => verifyContentRange_eq_ok bounded (verified status), whole⟩

/-- Only an answer is accepted. -/
theorem tryDownload_eq_ok (bounded : finish ≤ u64Max) {exchange : Exchange}
    (tried : tryDownload range start finish exchange = .ok accepted) :
    ∃ response, exchange = .answered response ∧
      Accepted start finish response accepted.1 accepted.2 := by
  cases exchange with
  | unbuildable => cases tried
  | timedOut => cases tried
  | failed message => cases tried
  | answered response => exact ⟨response, rfl, acceptResponse_eq_ok bounded tried⟩

/-- The result is that of one of the attempts. -/
theorem downloadLoop_eq_ok {opening : Nat → Exchange}
    {remaining attempt : Nat} {lastError : Option ProxyError}
    (ended : downloadLoop opening range start finish remaining attempt lastError = .ok accepted) :
    ∃ attempt, tryDownload range start finish (opening attempt) = .ok accepted := by
  induction remaining generalizing attempt lastError with
  | zero => cases ended
  | succ remaining inductionHypothesis =>
    unfold downloadLoop at ended
    split at ended
    · rename_i value tried
      cases ended
      exact ⟨attempt, tried⟩
    · cases ended
    · cases ended
    · exact inductionHypothesis ended

/-- The range of an accepted `206` is a text. -/
theorem tryDownload_visible {exchange : Exchange}
    (tried : tryDownload range start finish exchange = .ok accepted)
    (status : accepted.1.status = 206) {value : Text}
    (found : accepted.1.headers.get "content-range" = some value) :
    Headers.toStr value = some value := by
  cases exchange with
  | unbuildable => cases tried
  | timedOut => cases tried
  | failed message => cases tried
  | answered response =>
    obtain ⟨response_eq, -, -, verified, -⟩ := acceptResponse_checks tried
    rw [response_eq] at status found
    have checked := verified status
    unfold verifyContentRange at checked
    simp only at found
    simp only [found] at checked
    cases visible : Headers.toStr value with
    | none =>
      rw [visible] at checked
      cases checked
    | some text => rw [Headers.eq_of_toStr visible]

theorem downloadStream_tries {upstream : Upstream}
    (parsed : parseRange range = .ok (start, finish)) {net : NetResponse}
    (ended : downloadStream upstream range = .ok (net, length)) :
    ∃ attempt accepted, tryDownload range start finish (upstream.opening attempt range) =
        .ok (accepted, length) ∧
      net = ⟨accepted.status, accepted.headers, wrapWithRetry upstream.resuming
        start finish maxAttempts (maxAttempts - 1) accepted.body 0⟩ := by
  unfold downloadStream at ended
  obtain ⟨_, _, ended⟩ := exists_of_except_ok ended
  obtain ⟨⟨start', finish'⟩, parsed', ended⟩ := exists_of_except_ok ended
  rw [parsed] at parsed'
  cases parsed'
  obtain ⟨⟨accepted, accepted_length⟩, looped, ended⟩ :=
    exists_of_except_ok ended
  cases ended
  obtain ⟨attempt, tried⟩ := downloadLoop_eq_ok looped
  exact ⟨attempt, accepted, tried, rfl⟩

/-- A download, taken apart. -/
theorem downloadStream_eq_ok {upstream : Upstream} {net : NetResponse}
    (ended : downloadStream upstream range = .ok (net, length)) :
    ∃ start finish attempt response accepted, parseRange range = .ok (start, finish) ∧
      upstream.opening attempt range = .answered response ∧
      Accepted start finish response accepted length ∧
      net = ⟨accepted.status, accepted.headers, wrapWithRetry upstream.resuming
        start finish maxAttempts (maxAttempts - 1) accepted.body 0⟩ := by
  have parses : ∃ start finish, parseRange range = .ok (start, finish) := by
    unfold downloadStream at ended
    obtain ⟨_, _, ended⟩ := exists_of_except_ok ended
    obtain ⟨⟨start, finish⟩, parsed, _⟩ := exists_of_except_ok ended
    exact ⟨start, finish, parsed⟩
  obtain ⟨start, finish, parsed⟩ := parses
  obtain ⟨attempt, accepted, tried, net_eq⟩ := downloadStream_tries parsed ended
  obtain ⟨response, opened, answer⟩ :=
    tryDownload_eq_ok (parseRange_eq_ok parsed).2 tried
  exact ⟨start, finish, attempt, response, accepted, parsed, opened, answer, net_eq⟩

/-! ## Bodies without errors -/

theorem advanceBytesRead_of_le {bytesRead chunkLength : Nat}
    (word : bytesRead + chunkLength ≤ u64Max) (ordered : rangeStart ≤ rangeEnd)
    (bounded : rangeEnd ≤ u64Max) (inside : bytesRead + chunkLength ≤ rangeEnd - rangeStart + 1) :
    advanceBytesRead bytesRead chunkLength rangeStart rangeEnd = .ok (bytesRead + chunkLength) := by
  unfold advanceBytesRead
  rw [checkedAdd_of_le word]
  simp only
  split
  · rename_i closed
    have span : checkedSub rangeEnd rangeStart = some (rangeEnd - rangeStart) :=
      checkedSub_eq_some_iff.mpr ⟨ordered, rfl⟩
    have small : rangeEnd - rangeStart + 1 ≤ u64Max := by
      unfold openEnded at closed
      omega
    simp only [span, Option.bind_some, checkedAdd_of_le small]
    rw [if_neg (by omega)]
  · rfl

theorem wrapBody_of_contents (resuming : Nat → Text → Exchange)
    (ordered : rangeStart ≤ rangeEnd) (bounded : rangeEnd ≤ u64Max) (attempt : Nat)
    (retry : Option (ByteStream → Nat → ByteStream)) {body : ByteStream} {bytes : Bytes}
    (whole : contents body = .ok bytes) {bytesRead : Nat} (word : bytesRead + bytes.length ≤ u64Max)
    (inside : bytesRead + bytes.length ≤ rangeEnd - rangeStart + 1) :
    wrapBody resuming rangeStart rangeEnd attempt retry body bytesRead = body := by
  induction body generalizing bytes bytesRead with
  | nil => rfl
  | cons item rest inductionHypothesis =>
    obtain ⟨chunk, others, rfl, othersWhole, rfl⟩ := contents_cons_eq_ok whole
    rw [List.length_append] at word inside
    rw [wrapBody, advanceBytesRead_of_le (by omega) ordered bounded (by omega)]
    simp only
    rw [inductionHypothesis othersWhole (by omega) (by omega)]

/-- A body without errors is passed on as it is. -/
theorem wrapWithRetry_of_contents (resuming : Nat → Text → Exchange)
    (ordered : rangeStart ≤ rangeEnd) (bounded : rangeEnd ≤ u64Max) (maxAttempts remaining : Nat)
    {body : ByteStream} {bytes : Bytes} (whole : contents body = .ok bytes)
    (word : bytes.length ≤ u64Max) (inside : bytes.length ≤ rangeEnd - rangeStart + 1) :
    wrapWithRetry resuming rangeStart rangeEnd maxAttempts remaining body 0 = body := by
  cases remaining with
  | zero =>
    exact wrapBody_of_contents resuming ordered bounded _ _ whole (by omega) (by omega)
  | succ remaining =>
    exact wrapBody_of_contents resuming ordered bounded _ _ whole (by omega) (by omega)

end NetSource
end VideoProxy
