import VideoProxy.Lib.BoundedCache
import VideoProxy.Lib.Framing

/-!
# The caches of the HLS manager

`HlsManager` has a table of playlists and a table of playlist bodies.  Both have a
limit on the number of their entries and one on their bytes, and make room for a
new entry by erasing the oldest ones.

The maps are iterated over in an order that is not known.  `Instant` cannot be
later than some moment: an addition that leads beyond it panics.
-/

namespace VideoProxy
namespace Hls

/-! ## The tables -/

/-- `MAX_CACHED_PLAYLISTS`. -/
def maxCachedPlaylists : Nat := 512

/-- `MAX_CACHED_PLAYLIST_BODIES`. -/
def maxCachedPlaylistBodies : Nat := 128

/-- `MAX_PLAYLIST_BODY_CACHE_BYTES`. -/
def maxPlaylistBodyCacheBytes : Nat := 8 * 1024 * 1024

/-- `MAX_PLAYLIST_CACHE_BYTES`. -/
def maxPlaylistCacheBytes : Nat := 32 * 1024 * 1024

/-- The parts of `Segment` that the cache uses. -/
structure Segment where
  url : Text
  sequence : Nat
  size : Option Nat
  cached : Bool

/-- The parts of `VariantStream` that the cache uses. -/
structure VariantStream where
  url : Text
  resolution : Option Text

/-- The parts of `PlaylistInfo` that the cache uses. -/
structure StoredPlaylist where
  url : Text
  segments : List Segment
  variants : List VariantStream
  updatedAtUnixNanos : Nat

/-- `CachedPlaylistBody`. -/
structure CachedPlaylistBody where
  content : Text
  expiresAt : Nat
  insertedAt : Nat

/-- What the platform decides: `size_of` of the records, the last `Instant`, and
the index that `binary_search_by_key` finds. -/
structure Platform where
  sizeOfSegment : Nat
  sizeOfVariantStream : Nat
  sizeOfPlaylistInfo : Nat
  lastInstant : Nat
  binarySearch : List Nat → Nat → Option Nat

/-- The playlists by URL. -/
abbrev Playlists := AList fun _ : Text => StoredPlaylist

/-- The playlist bodies by URL. -/
abbrev Bodies := AList fun _ : Text => CachedPlaylistBody

/-- `HlsManager`. -/
structure HlsManager where
  playlists : Playlists
  playlistBodies : Bodies

/-- `HlsManager::new`. -/
def HlsManager.new : HlsManager where
  playlists := ∅
  playlistBodies := ∅

/-- `playlist_size`. -/
def playlistSize (platform : Platform) (key : Text) (info : StoredPlaylist) : Nat :=
  let segmentBytes := info.segments.foldl (fun total segment =>
    saturatingAdd (saturatingAdd total platform.sizeOfSegment) segment.url.byteSize) 0
  let variantBytes := info.variants.foldl (fun total variant =>
    saturatingAdd (saturatingAdd (saturatingAdd total platform.sizeOfVariantStream)
        variant.url.byteSize)
      (variant.resolution.elim 0 Text.byteSize)) 0
  saturatingAdd (saturatingAdd
      (saturatingAdd (saturatingAdd key.byteSize platform.sizeOfPlaylistInfo) info.url.byteSize)
      segmentBytes)
    variantBytes

/-- The bytes that a body counts with its URL. -/
def entryBytes (url content : Text) : Nat :=
  Text.byteSize url + Text.byteSize content

/-- The limits of the table of playlists. -/
def playlistBudget (platform : Platform) : Budget Text StoredPlaylist where
  size := playlistSize platform
  maxEntries := maxCachedPlaylists
  maxBytes := maxPlaylistCacheBytes
  positive := by decide
  below := by decide

/-- The limits of the table of bodies. -/
def bodyBudget : Budget Text CachedPlaylistBody where
  size url entry := entryBytes url entry.content
  maxEntries := maxCachedPlaylistBodies
  maxBytes := maxPlaylistBodyCacheBytes
  positive := by decide
  below := by decide

/-- A round of the loop of `cache_playlist`, which goes on if there is nothing to
erase. -/
def playlistRound (platform : Platform) (order : Iteration Text StoredPlaylist)
    (newBytes : Nat) : Playlists → Option Playlists :=
  (playlistBudget platform).round StoredPlaylist.updatedAtUnixNanos order some newBytes

/-- A round of the loop of `cache_playlist_body`, which breaks if there is nothing
to erase. -/
def bodyRound (order : Iteration Text CachedPlaylistBody)
    (entryBytes : Nat) : Bodies → Option Bodies :=
  bodyBudget.round CachedPlaylistBody.insertedAt order (fun _ => none) entryBytes

/-! ## The calls -/

/-- How a call ends, and what it makes of its table. -/
inductive Outcome (α : Type)
  | returned (table : α)
  | panicked (table : α)
  | looping

/-- The outcome for the manager of a table. -/
def Outcome.map (change : α → β) : Outcome α → Outcome β
  | .returned table => .returned (change table)
  | .panicked table => .panicked (change table)
  | .looping => .looping

/-- `HlsManager::cache_playlist`. -/
def cachePlaylist
    (platform : Platform)
    (order : Iteration Text StoredPlaylist)
    (url : Text)
    (info : StoredPlaylist)
    (playlists : Playlists) : Outcome Playlists :=
  let newBytes := playlistSize platform url info
  if newBytes > maxPlaylistCacheBytes then .returned playlists
  else
    let kept := playlists.erase url
    match loop (playlistRound platform order newBytes) (kept.entries.length + 1) kept with
    | some room => .returned (room.insert url info)
    | none => .looping

/-- `HlsManager::cache_playlist_body`. -/
def cachePlaylistBody
    (platform : Platform)
    (order : Iteration Text CachedPlaylistBody)
    (url content : Text)
    (ttl now : Nat)
    (bodies : Bodies) : Outcome Bodies :=
  if entryBytes url content > maxPlaylistBodyCacheBytes then .returned bodies
  else
    let kept := bodies.erase url
    match loop (bodyRound order (entryBytes url content)) (kept.entries.length + 1) kept with
    | some room =>
      if now + ttl ≤ platform.lastInstant then
        .returned (room.insert url { content, expiresAt := now + ttl, insertedAt := now })
      else .panicked room
    | none => .looping

/-- `HlsManager::cached_playlist_body`. -/
def cachedPlaylistBody
    (url : Text)
    (now : Nat)
    (bodies : Bodies) : Option Text × Bodies :=
  match bodies.lookup url with
  | some entry =>
    if entry.expiresAt > now then (some entry.content, bodies)
    else (none, bodies.erase url)
  | none => (none, bodies.erase url)

/-- `HlsManager::update_segment_cache`. -/
def updateSegmentCache
    (platform : Platform)
    (url : Text)
    (sequence size : Nat)
    (playlists : Playlists) : Playlists :=
  match playlists.lookup url with
  | none => playlists
  | some playlist =>
    match platform.binarySearch (playlist.segments.map Segment.sequence) sequence with
    | none => playlists
    | some index =>
      playlists.insert url { playlist with
        segments := playlist.segments.modify index fun segment =>
          { segment with size := some size, cached := true } }

/-- A call of the manager, with the time it reads and the order in which it
iterates over the table. -/
inductive Call
  | cachePlaylist (order : Iteration Text StoredPlaylist) (url : Text)
      (info : StoredPlaylist)
  | cachePlaylistBody (order : Iteration Text CachedPlaylistBody)
      (url content : Text) (ttl now : Nat)
  | cachedPlaylistBody (url : Text) (now : Nat)
  | updateSegmentCache (url : Text) (sequence size : Nat)

/-- Make a call. -/
def Call.run (platform : Platform) (manager : HlsManager) : Call → Outcome HlsManager
  | .cachePlaylist order url info =>
    (Hls.cachePlaylist platform order url info manager.playlists).map
      fun playlists => { manager with playlists }
  | .cachePlaylistBody order url content ttl now =>
    (Hls.cachePlaylistBody platform order url content ttl now manager.playlistBodies).map
      fun playlistBodies => { manager with playlistBodies }
  | .cachedPlaylistBody url now =>
    .returned { manager with
      playlistBodies := (Hls.cachedPlaylistBody url now manager.playlistBodies).2 }
  | .updateSegmentCache url sequence size =>
    .returned { manager with
      playlists := Hls.updateSegmentCache platform url sequence size manager.playlists }

/-- The manager after a call, if it ends. -/
def Call.step (platform : Platform) (call : Call) (manager : HlsManager) : Option HlsManager :=
  match call.run platform manager with
  | .returned after | .panicked after => some after
  | .looping => none

/-! ## Limits -/

/-- Both tables keep to their limits. -/
def HlsManager.Within (platform : Platform) (manager : HlsManager) : Prop :=
  (playlistBudget platform).Within manager.playlists ∧ bodyBudget.Within manager.playlistBodies

/-- What the call brings is there if it fits. -/
def Call.Present (platform : Platform) (after : HlsManager) : Call → Prop
  | .cachePlaylist _ url info =>
    playlistSize platform url info ≤ maxPlaylistCacheBytes → after.playlists.lookup url = some info
  | .cachePlaylistBody _ url content ttl now =>
    entryBytes url content ≤ maxPlaylistBodyCacheBytes → after.playlistBodies.lookup url =
        some { content, expiresAt := now + ttl, insertedAt := now }
  | _ => True

/-- The loop of the call erases the oldest entry of the table each time. -/
def Call.EvictsOldest (platform : Platform) (manager : HlsManager) : Call → Prop
  | .cachePlaylist order url info =>
    playlistSize platform url info ≤ maxPlaylistCacheBytes → ∀ table next, Reaches
          (fun _ : Unit => playlistRound platform order (playlistSize platform url info))
          (fun _ _ => True) (manager.playlists.erase url) table →
        playlistRound platform order (playlistSize platform url info) table = some next →
        Evicts StoredPlaylist.updatedAtUnixNanos table next
  | .cachePlaylistBody order url content _ _ =>
    entryBytes url content ≤ maxPlaylistBodyCacheBytes → ∀ table next,
        Reaches (fun _ : Unit => bodyRound order (entryBytes url content))
          (fun _ _ => True) (manager.playlistBodies.erase url) table →
        bodyRound order (entryBytes url content) table = some next →
        Evicts CachedPlaylistBody.insertedAt table next
  | _ => True

/-- The call returns, the tables keep to their limits, what has been inserted is
there, and only the oldest entries were evicted for it. -/
def Call.Kept (platform : Platform) (manager : HlsManager) (call : Call) : Prop :=
  (∃ after, call.run platform manager = .returned after ∧
    after.Within platform ∧ call.Present platform after) ∧
  call.EvictsOldest platform manager

/-- The moment when a body expires can be represented. -/
def Call.Representable (platform : Platform) : Call → Prop
  | .cachePlaylistBody _ url content ttl now =>
    entryBytes url content ≤ maxPlaylistBodyCacheBytes → now + ttl ≤ platform.lastInstant
  | _ => True

section Limits

variable {platform : Platform} {manager after : HlsManager} {url content : Text}
  {info : StoredPlaylist} {ttl now sequence size : Nat}

/-- The state of a segment does not count for the size of its playlist. -/
theorem playlistSize_modify (index : Nat) (change : Segment → Segment)
    (keeps : ∀ segment, (change segment).url = segment.url) :
    playlistSize platform url
        { info with segments := info.segments.modify index change } =
      playlistSize platform url info := by
  have urls : (info.segments.modify index change).map Segment.url =
      info.segments.map Segment.url := by
    refine List.ext_getElem? fun position => ?_
    rw [List.getElem?_map, List.getElem?_map, List.getElem?_modify]
    cases info.segments[position]? with
    | none => rfl
    | some segment =>
      by_cases same : index = position
      · simp [same, keeps]
      · simp [same]
  have folded (segments : List Segment) :
      segments.foldl (fun total segment =>
          saturatingAdd (saturatingAdd total platform.sizeOfSegment) segment.url.byteSize) 0 =
        (segments.map Segment.url).foldl (fun total url =>
          saturatingAdd (saturatingAdd total platform.sizeOfSegment) (Text.byteSize url)) 0 := by
    rw [List.foldl_map]
  unfold playlistSize
  simp only [folded, urls]

/-- A playlist that is stored is in the table, which keeps to its limits. -/
theorem cachePlaylist_kept
    {playlists : Playlists}
    (within : (playlistBudget platform).Within playlists)
    (order : Iteration Text StoredPlaylist)
    (url : Text)
    (info : StoredPlaylist) :
    ∃ after, cachePlaylist platform order url info playlists = .returned after ∧
      (playlistBudget platform).Within after ∧
      (playlistSize platform url info ≤ maxPlaylistCacheBytes →
        after.lookup url = some info) := by
  by_cases fits : playlistSize platform url info ≤ maxPlaylistCacheBytes
  · obtain ⟨room, loops, free⟩ := @Budget.loop_round_ends _ _
      (playlistBudget platform) _ StoredPlaylist.updatedAtUnixNanos order some _ fits
      (playlists.erase url)
    have runs : cachePlaylist platform order url info playlists =
        .returned (room.insert url info) := by
      simp only [cachePlaylist, playlistRound, loops, Nat.not_lt.mpr fits, if_false]
    exact ⟨_, runs, Budget.within_insert free, fun _ => AList.lookup_insert room⟩
  · exact ⟨playlists, if_pos (Nat.not_le.mp fits), within, fun small => absurd small fits⟩

/-- The loop makes room for a body that fits; after that, only the moment when it
expires matters. -/
theorem cachePlaylistBody_room
    (fits : entryBytes url content ≤ maxPlaylistBodyCacheBytes)
    (order : Iteration Text CachedPlaylistBody)
    (ttl now : Nat)
    (bodies : Bodies) :
    ∃ room : Bodies, ¬bodyBudget.Full (entryBytes url content) room ∧
      cachePlaylistBody platform order url content ttl now bodies =
        if now + ttl ≤ platform.lastInstant then
          .returned (room.insert url
            { content, expiresAt := now + ttl, insertedAt := now })
        else .panicked room := by
  obtain ⟨room, loops, free⟩ := @Budget.loop_round_ends _ _ bodyBudget _
    CachedPlaylistBody.insertedAt order (fun _ => none) _ fits (bodies.erase url)
  refine ⟨room, free, ?_⟩
  simp only [cachePlaylistBody, bodyRound, loops, Nat.not_lt.mpr fits, if_false]

theorem cachedPlaylistBody_within
    {bodies : Bodies}
    (within : bodyBudget.Within bodies) :
    bodyBudget.Within (cachedPlaylistBody url now bodies).2 := by
  unfold cachedPlaylistBody
  split
  · split
    · exact within
    · exact Budget.within_erase within url
  · exact Budget.within_erase within url

theorem updateSegmentCache_within
    {playlists : Playlists}
    (within : (playlistBudget platform).Within playlists) :
    (playlistBudget platform).Within
      (updateSegmentCache platform url sequence size playlists) := by
  unfold updateSegmentCache
  split
  · exact within
  · rename_i playlist found
    split
    · exact within
    · rename_i index _
      refine Budget.within_replace within found ?_
      exact playlistSize_modify index _ fun _ => rfl

/-- Whatever call is made, the tables keep to their limits. -/
theorem step_within
    {call : Call}
    (within : manager.Within platform)
    (steps : call.step platform manager = some after) :
    after.Within platform := by
  cases call with
  | cachePlaylist order url info =>
    obtain ⟨kept, returns, keeps, _⟩ := cachePlaylist_kept within.1 order url info
    rw [Call.step, Call.run, returns] at steps
    cases steps
    exact ⟨keeps, within.2⟩
  | cachePlaylistBody order url content ttl now =>
    by_cases fits : entryBytes url content ≤ maxPlaylistBodyCacheBytes
    · obtain ⟨room, free, runs⟩ :=
        @cachePlaylistBody_room platform _ _ fits order ttl now manager.playlistBodies
      rw [Call.step, Call.run, runs] at steps
      by_cases representable : now + ttl ≤ platform.lastInstant
      · rw [if_pos representable] at steps
        cases steps
        exact ⟨within.1, Budget.within_insert free⟩
      · rw [if_neg representable] at steps
        cases steps
        exact ⟨within.1, Budget.within_of_not_full free⟩
    · have large : cachePlaylistBody platform order url content ttl now
          manager.playlistBodies = .returned manager.playlistBodies :=
        if_pos (Nat.not_le.mp fits)
      rw [Call.step, Call.run, large] at steps
      cases steps
      exact within
  | cachedPlaylistBody url now =>
    cases steps
    exact ⟨within.1, cachedPlaylistBody_within within.2⟩
  | updateSegmentCache url sequence size =>
    cases steps
    exact ⟨updateSegmentCache_within within.1, within.2⟩

theorem new_within : HlsManager.new.Within platform :=
  ⟨⟨Nat.zero_le _, Nat.zero_le _⟩, ⟨Nat.zero_le _, Nat.zero_le _⟩⟩

theorem evictsOldest (manager : HlsManager) (call : Call) : call.EvictsOldest platform manager := by
  cases call with
  | cachePlaylist order url info =>
    exact fun fits table next _ rounds => Budget.round_evicts fits rounds
  | cachePlaylistBody order url content ttl now =>
    exact fun fits table next _ rounds => Budget.round_evicts fits rounds
  | cachedPlaylistBody url now => trivial
  | updateSegmentCache url sequence size => trivial

end Limits

/-- After any calls, a call ends, keeps both tables within their limits, leaves
what it has inserted in its table and evicts only the oldest entries for it,
exactly if the moment when the body expires can be represented. -/
theorem caches_kept_iff {platform : Platform} {manager : HlsManager}
    (reached : Reaches (Call.step platform) (fun _ _ => True) HlsManager.new manager)
    (call : Call) :
    call.Kept platform manager ↔ call.Representable platform := by
  have within : manager.Within platform :=
    reached.invariant (HlsManager.Within platform) new_within
      fun _ _ _ within _ steps => step_within within steps
  rw [Call.Kept, and_iff_left (evictsOldest manager call)]
  cases call with
  | cachePlaylist order url info =>
    obtain ⟨after, returns, keeps, present⟩ := cachePlaylist_kept within.1 order url info
    refine iff_of_true ⟨{ manager with playlists := after }, ?_, ⟨keeps, within.2⟩, present⟩
      trivial
    rw [Call.run, returns]
    rfl
  | cachePlaylistBody order url content ttl now =>
    by_cases fits : entryBytes url content ≤ maxPlaylistBodyCacheBytes
    · obtain ⟨room, free, runs⟩ :=
        @cachePlaylistBody_room platform _ _ fits order ttl now manager.playlistBodies
      simp only [Call.run, runs, Call.Representable, fits, true_imp_iff]
      constructor
      · rintro ⟨after, returns, _⟩
        by_contra late
        rw [if_neg late] at returns
        cases returns
      · intro representable
        rw [if_pos representable]
        exact ⟨_, rfl, ⟨within.1, Budget.within_insert free⟩, fun _ => AList.lookup_insert room⟩
    · have large : cachePlaylistBody platform order url content ttl now
          manager.playlistBodies = .returned manager.playlistBodies :=
        if_pos (Nat.not_le.mp fits)
      refine iff_of_true ⟨manager, ?_, within, fun small => absurd small fits⟩
        fun small => absurd small fits
      rw [Call.run, large]
      rfl
  | cachedPlaylistBody url now =>
    exact iff_of_true ⟨_, rfl, ⟨within.1, cachedPlaylistBody_within within.2⟩, trivial⟩ trivial
  | updateSegmentCache url sequence size =>
    exact iff_of_true ⟨_, rfl, ⟨updateSegmentCache_within within.1, within.2⟩, trivial⟩ trivial

/-- A platform with 64 bits whose instants have a signed number of seconds; times
are in nanoseconds. -/
def unix64 : Platform where
  sizeOfSegment := 56
  sizeOfVariantStream := 56
  sizeOfPlaylistInfo := 112
  lastInstant := (2 ^ 63 - 1) * 1000000000 + 999999999
  binarySearch sequences sequence := sequences.findIdx? (· == sequence)

/-- There is a body that takes the whole budget. -/
theorem exists_large_body :
    ∃ large, entryBytes ['u'] large = maxPlaylistBodyCacheBytes := by
  refine ⟨List.replicate (maxPlaylistBodyCacheBytes - 1) 'x', ?_⟩
  rw [entryBytes, Text.byteSize_replicate]
  decide

/-- The call after that of such a body has to evict it. -/
theorem caches_kept_iff_evicting :
    ∃ large manager,
      Call.step unix64 (.cachePlaylistBody (.listed _ _) ['u'] large 60000000000 7)
        HlsManager.new = some manager ∧
      manager.playlistBodies.lookup ['u'] = some ⟨large, 60000000007, 7⟩ ∧
      bodyBudget.Full (entryBytes ['v'] ['x']) manager.playlistBodies ∧
      Call.Kept unix64 manager
        (.cachePlaylistBody (.listed _ _) ['v'] ['x'] 60000000000 8) := by
  obtain ⟨large, size_eq⟩ := exists_large_body
  have steps : ∃ manager,
      Call.step unix64 (.cachePlaylistBody (.listed _ _) ['u'] large 60000000000 7)
        HlsManager.new = some manager ∧
      manager.playlistBodies =
        AList.insert ['u'] ⟨large, 60000000007, 7⟩ (∅ : Bodies) := by
    simp only [Call.step, Call.run, Hls.cachePlaylistBody, size_eq]
    exact ⟨_, rfl, rfl⟩
  obtain ⟨manager, stepped, bodies_eq⟩ := steps
  refine ⟨large, manager, stepped, ?_, Or.inr ?_, (caches_kept_iff
    (Reaches.refl.tail trivial stepped) _).mpr fun _ => by decide⟩
  · rw [bodies_eq]
    rfl
  · rw [bodies_eq]
    change saturatingAdd (saturatingAdd 0 (entryBytes ['u'] large))
      (entryBytes ['v'] ['x']) > _
    rw [size_eq]
    decide

/-- With `Duration::MAX` the call panics, and the body is not in the table. -/
theorem endless_body_panics :
    entryBytes ['u'] ['x'] ≤ maxPlaylistBodyCacheBytes ∧
    ∃ after, Call.run unix64 HlsManager.new (.cachePlaylistBody (.listed _ _) ['u'] ['x']
          ((2 ^ 64 - 1) * 1000000000 + 999999999) 7) = .panicked after ∧
      after.playlistBodies.lookup ['u'] = none :=
  ⟨by decide, _, rfl, rfl⟩

end Hls
end VideoProxy
