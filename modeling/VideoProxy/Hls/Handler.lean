import VideoProxy.Hls.PlaylistCaches
import VideoProxy.Hls.Registration

/-!
# The playlist handler

`handle_m3u8` takes the path of the proxy off a URL, looks for a playlist body
that is still fresh, and else downloads the playlist, rewrites its references,
registers them as sources and keeps the result for a while.
-/

namespace VideoProxy
namespace Hls

open Faulty

/-- `MAX_PLAYLIST_ITEMS`. -/
def maxPlaylistItems : Nat := 20000

/-- `m3u8_rs::Playlist`, with the numbers of variants and of segments. -/
inductive Playlist
  | master (variants : Nat)
  | media (segments targetDuration : Nat) (endList : Bool)

/-- The parts of `PlaylistInfo` that decide how long a playlist stays fresh. -/
structure PlaylistInfo where
  targetDuration : Nat
  isEndlist : Bool
  variants : Nat

/-- `HlsManager::process_m3u8`, after the parser. -/
def processM3u8 : Except String Playlist → Except ProxyError PlaylistInfo
  | .error message => .error (.parse message)
  | .ok (.master variants) =>
    if variants > maxPlaylistItems then
      .error (.parse s!"HLS variant count exceeds limit {maxPlaylistItems}")
    else .ok { targetDuration := 0, isEndlist := false, variants }
  | .ok (.media segments targetDuration endList) =>
    if segments > maxPlaylistItems then
      .error (.parse s!"HLS segment count exceeds limit {maxPlaylistItems}")
    else .ok { targetDuration, isEndlist := endList, variants := 0 }

/-- `playlist_refresh_ttl`, in milliseconds. -/
def playlistRefreshTtl (info : PlaylistInfo) : Nat :=
  if info.isEndlist then 5 * 60 * 1000
  else if info.variants ≠ 0 then 30 * 1000
  else min (max (info.targetDuration * 500) 1000) 10000

/-- The state of the handler. -/
structure HandlerState where
  bodies : Bodies
  registry : NumberedRegistry

/-- What the outside world decides while a playlist is served. -/
structure PlaylistWorld where
  /-- `download_m3u8`. -/
  download : Text → Except ProxyError Text
  /-- `m3u8_rs::parse_playlist`. -/
  parsePlaylist : Text → Except String Playlist
  parseError : Text → String
  lookupTime : Nat
  storeTime : Nat
  platform : Platform
  /-- The order in which the table of bodies is iterated over. -/
  order : Iteration Text CachedPlaylistBody

/-- Run an operation of the source registry. -/
def onRegistry (operation : Faulty NumberedRegistry ProxyError α) :
    Faulty HandlerState ProxyError α :=
  fun state =>
    let ended := operation state.registry
    (ended.1, { state with registry := ended.2 })

/-- Look for a fresh body. -/
def lookupBody (world : PlaylistWorld) (url : Text) :
    Faulty HandlerState ProxyError (Option Text) :=
  fun state =>
    let (content, bodies) := cachedPlaylistBody url world.lookupTime state.bodies
    (.ok content, { state with bodies })

/-- Keep a body.  There is no answer if the call does not return. -/
def storeBody (world : PlaylistWorld) (url content : Text) (ttl : Nat) :
    Faulty HandlerState ProxyError Unit :=
  fun state =>
    match cachePlaylistBody world.platform world.order url content ttl world.storeTime
        state.bodies with
    | .returned bodies => (.ok (), { state with bodies })
    | .panicked bodies => (.stopped, { state with bodies })
    | .looping => (.stopped, state)

/-- The part of `handle_m3u8` that removes the path of the proxy. -/
def cleanUrl (url : Text) : Except ProxyError Text :=
  match splitFirst proxyPrefix url with
  | none => .ok url
  | some (_, tail) =>
    match PercentEncoding.decodeComponent (afterLast proxyPrefix tail.length tail) with
    | .error error => .error (.request ("URL 解码失败: " ++ error.display))
    | .ok decoded => .ok decoded

section Serving

variable (rules : UrlRules) (parse : Text → Option ParsedUrl) (world : PlaylistWorld)

/-- The stage of `handle_m3u8` that rewrites a playlist and registers its
references. -/
def rewriteStage (content baseUrl : Text) : Faulty NumberedRegistry ProxyError Text :=
  registerRewrittenSources parse (rewriteM3u8 rules content baseUrl "/proxy".toList)

/-- The rest of `handle_m3u8`. -/
def servePlaylist (url : Text) : Faulty HandlerState ProxyError Text := do
  match ← lookupBody world url with
  | some content => pure content
  | none =>
    let content ← ofExcept (world.download url)
    let info ← ofExcept (processM3u8 (world.parsePlaylist content))
    let baseUrl ← ofExcept (getBaseUrl rules world.parseError url)
    let rewritten ← onRegistry (rewriteStage rules parse content baseUrl)
    storeBody world url rewritten (playlistRefreshTtl info)
    pure rewritten

/-- `handle_m3u8`. -/
def handleM3u8 (url : Text) : Faulty HandlerState ProxyError Text := do
  let clean ← ofExcept (cleanUrl url)
  servePlaylist rules parse world clean

end Serving

/-! ## The URL that is served -/

/-- A URL is left as it is just if it does not have the path of the proxy in
it. -/
theorem cleanUrl_eq_self_iff {url : Text} : cleanUrl url = .ok url ↔ ¬proxyPrefix <:+: url := by
  constructor
  · intro unchanged occurs
    cases found : splitFirst proxyPrefix url with
    | none => exact splitFirst_eq_none_iff.mp found occurs
    | some parts =>
      obtain ⟨before, tail⟩ := parts
      obtain ⟨url_eq, _⟩ :=
        (splitFirst_eq_some found).resolve_right proxyPrefix_ne_nil
      simp only [cleanUrl, found] at unchanged
      split at unchanged
      · cases unchanged
      · rename_i decoded decoded_eq
        cases unchanged
        -- The decoded rest would have to be as long as the whole URL.
        have shorter := PercentEncoding.decodeComponent_length_le decoded_eq
        obtain ⟨front, tail_eq⟩ :=
          afterLast_suffix proxyPrefix_ne_nil tail.length tail
        have long := congrArg (fun text => (PercentEncoding.utf8 text).length) url_eq
        have rest := congrArg (fun text => (PercentEncoding.utf8 text).length) tail_eq
        have positive : 0 < (PercentEncoding.utf8 proxyPrefix).length := by
          decide
        simp only [PercentEncoding.utf8_append, List.length_append] at long rest
        omega
  · intro clear
    rw [cleanUrl, splitFirst_eq_none_iff.mpr clear]

section Serving

variable {rules : UrlRules} {parse : Text → Option ParsedUrl}

/-- A world in which every download fails and names the URL. -/
def unreachable : PlaylistWorld where
  download url := .error (.network (String.ofList url))
  parsePlaylist _ := .error ""
  parseError _ := ""
  lookupTime := 0
  storeTime := 0
  platform := unix64
  order := .listed _ _

theorem servePlaylist_unreachable (url : Text) :
    (servePlaylist rules parse unreachable url
      { bodies := ∅, registry := .new }).1 =
      .error (.network (String.ofList url)) := by
  rfl

theorem handleM3u8_of_clean {url clean : Text} (clean_eq : cleanUrl url = .ok clean)
    (world : PlaylistWorld) :
    handleM3u8 rules parse world url = servePlaylist rules parse world clean := by
  rw [handleM3u8, clean_eq]
  rfl

theorem cleanUrl_ne_network (url : Text) (message : String) :
    cleanUrl url ≠ .error (.network message) := by
  unfold cleanUrl
  split
  · nofun
  · split
    · nofun
    · nofun

/-- The URL that is served is the clean one. -/
theorem handleM3u8_eq_iff {url other : Text} :
    (∀ world, handleM3u8 rules parse world url = servePlaylist rules parse world other) ↔
      cleanUrl url = .ok other := by
  constructor
  · intro same
    have exit_eq := @servePlaylist_unreachable rules parse other
    rw [← same unreachable] at exit_eq
    cases clean_eq : cleanUrl url with
    | error reason =>
      rw [handleM3u8, clean_eq] at exit_eq
      cases exit_eq
      exact absurd clean_eq (cleanUrl_ne_network url _)
    | ok clean =>
      rw [handleM3u8_of_clean clean_eq, servePlaylist_unreachable] at exit_eq
      simp only [Exit.error.injEq, ProxyError.network.injEq, String.ofList_inj] at exit_eq
      rw [exit_eq]
  · intro clean_eq world
    exact handleM3u8_of_clean clean_eq world

end Serving

end Hls
end VideoProxy
