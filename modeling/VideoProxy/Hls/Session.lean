import Mathlib.Data.Finset.Card
import Mathlib.Data.Nat.Digits.Defs
import VideoProxy.Hls.Handler

/-!
# Playlists of a long session

A player asks for the playlist of a live stream again and again, and each time the
references that are new are registered.  Sources are not released, so a session
goes on just as long as its playlists have no more different URLs than the
registry has room for.

What counts is what the second pass over a rewritten playlist finds: the
references, and also what follows the path of the proxy elsewhere in a tag.
-/

namespace VideoProxy
namespace Hls

open Faulty

/-- The stages of `handle_m3u8` for one playlist after the other, each with its
base URL. -/
def playSession (rules : UrlRules) (parse : Text → Option ParsedUrl) :
    List (Text × Text) → Faulty NumberedRegistry ProxyError (List Text)
  | [] => pure []
  | (content, baseUrl) :: playlists => do
      let output ← rewriteStage rules parse content baseUrl
      let outputs ← playSession rules parse playlists
      pure (output :: outputs)

/-! ## What the second pass finds -/

/-- The texts after the path of the proxy, as `register_rewritten_sources` finds
them; the fuel bounds the characters left. -/
def proxiedWithin : Nat → Text → List Text
  | 0, _ => []
  | fuel + 1, rest =>
    match splitFirst proxyPrefix rest with
    | none => []
    | some (_, tail) =>
      tail.takeWhile (!endsReference ·) :: proxiedWithin fuel (tail.dropWhile (!endsReference ·))

/-- The texts after the path of the proxy. -/
def proxied (text : Text) : List Text :=
  proxiedWithin text.length text

/-- The URL that is registered for a text, if there is one. -/
def sourceUrl (parse : Text → Option ParsedUrl) (encoded : Text) : Option Text :=
  match PercentEncoding.decodeComponent encoded with
  | .error _ => none
  | .ok url => (SourceRegistry.validateSourceUrl parse url).toOption

/-- What follows the path of the proxy outside of the references. -/
def strays (content : Text) : List Text :=
  (pieces content).flatMap fun piece => proxied (piece.render fun _ => [])

section Finding

variable {text : Text}

theorem proxiedWithin_of_clear (clear : ¬proxyPrefix <:+: text) (fuel : Nat) :
    proxiedWithin fuel text = [] := by
  cases fuel with
  | zero => rfl
  | succ fuel => rw [proxiedWithin, splitFirst_eq_none_iff.mpr clear]

/-- Fuel for each character is enough. -/
theorem proxiedWithin_eq {fuel more : Nat} (enough : text.length ≤ fuel)
    (enoughMore : text.length ≤ more) :
    proxiedWithin fuel text = proxiedWithin more text := by
  induction fuel generalizing text more with
  | zero =>
    have empty := List.length_eq_zero_iff.mp (Nat.le_zero.mp enough)
    rw [empty, proxiedWithin_of_clear (by decide), proxiedWithin_of_clear (by decide)]
  | succ fuel inductionHypothesis =>
    cases found : splitFirst proxyPrefix text with
    | none =>
      have clear := splitFirst_eq_none_iff.mp found
      rw [proxiedWithin_of_clear clear, proxiedWithin_of_clear clear]
    | some parts =>
      have shorter := length_after_lt found
      cases more with
      | zero => omega
      | succ more =>
        rw [proxiedWithin, proxiedWithin, found]
        exact congrArg _ (inductionHypothesis (by omega) (by omega))

theorem proxied_of_clear (clear : ¬proxyPrefix <:+: text) : proxied text = [] :=
  proxiedWithin_of_clear clear text.length

theorem proxied_nil : proxied [] = [] :=
  rfl

theorem proxied_of_split {before tail : Text}
    (found : splitFirst proxyPrefix text = some (before, tail)) :
    proxied text = tail.takeWhile (!endsReference ·) ::
      proxied (tail.dropWhile (!endsReference ·)) := by
  rw [proxied, proxiedWithin_eq (Nat.le_refl _) (Nat.le_succ _), proxiedWithin, found]
  exact congrArg _ (proxiedWithin_eq (length_after_lt found).le (Nat.le_refl _))

/-- What is found before a separator and what is found after it. -/
theorem proxied_append_cons {letter : Char} (separates : Separates letter) (front rest : Text) :
    proxied (front ++ letter :: rest) = proxied front ++ proxied rest := by
  induction front using pass_induction with
  | clear front clear =>
    have split_eq := splitFirst_append_cons proxyPrefix_ne_nil separates.1 clear rest
    rw [proxied_of_clear clear, List.nil_append]
    cases foundLater : splitFirst proxyPrefix rest with
    | none =>
      rw [foundLater] at split_eq
      rw [proxied_of_clear (splitFirst_eq_none_iff.mp split_eq),
        proxied_of_clear (splitFirst_eq_none_iff.mp foundLater)]
    | some parts =>
      rw [foundLater] at split_eq
      rw [proxied_of_split split_eq, proxied_of_split foundLater]
  | step front before tail found inductionHypothesis =>
    rw [proxied_of_split (splitFirst_append_right proxyPrefix_ne_nil found _),
      proxied_of_split found, separates.takeWhile, separates.dropWhile, inductionHypothesis,
      List.cons_append]

theorem proxied_pushProxied (value : Text) :
    proxied (pushProxied value "/proxy".toList) = [PercentEncoding.encodeComponent value] := by
  rw [proxied_of_split (splitFirst_pushProxied value), takeWhile_encoded, dropWhile_encoded,
    proxied_nil]

end Finding

/-! ## What a rewritten playlist demands -/

/-- What the second pass finds of a piece. -/
def Piece.demanded (absolute : Text → Text) : Piece → List Text
  | .fixed text => proxied text
  | .reference value => [PercentEncoding.encodeComponent (absolute value)]

/-- The second pass finds the references and what is found in the rest. -/
theorem proxied_pieces {absolute : Text → Text} {pieces : List Piece} (shaped : Shaped pieces) :
    proxied (pieces.flatMap (Piece.render fun value =>
        pushProxied (absolute value) "/proxy".toList)) =
      pieces.flatMap (Piece.demanded absolute) := by
  induction shaped with
  | nil => exact proxied_nil
  | @fixed front letter pieces separates _ inductionHypothesis =>
    have alone := proxied_append_cons separates front []
    rw [proxied_nil, List.append_nil] at alone
    rw [List.flatMap_cons, List.flatMap_cons, Piece.render, Piece.demanded, List.append_assoc,
      List.singleton_append, proxied_append_cons separates, inductionHypothesis, alone]
  | @reference value letter text pieces separates _ inductionHypothesis =>
    have alone (rest : Text) := proxied_append_cons separates [] rest
    rw [List.flatMap_cons, Piece.render, List.cons_append, ← List.nil_append (letter :: _),
      alone, proxied_nil, List.nil_append] at inductionHypothesis
    rw [List.flatMap_cons, List.flatMap_cons, List.flatMap_cons, Piece.render, Piece.render,
      List.cons_append, proxied_append_cons separates, proxied_pushProxied, inductionHypothesis,
      ← List.flatMap_cons]
    rfl

/-! ## The registry of a session -/

section Registry

open NumberedRegistry SourceRegistry

variable {parse : Text → Option ParsedUrl} {registry after : NumberedRegistry}
  {urls : Finset Text} {url : Text}

/-- The registry has just the given URLs, each once. -/
structure Holds (registry : NumberedRegistry) (urls : Finset Text) : Prop where
  listed : ∀ url, url ∈ urls ↔ ∃ entry ∈ registry.entries.entries,
    entry.2 = { identity := "hls".toList, url := url }
  size : registry.entries.entries.length = urls.card
  next : registry.nextId = urls.card + 1
  unused : ∀ id, registry.nextId ≤ id → registry.resolve id = none
  fits : urls.card ≤ maxRegisteredSources

theorem new_holds : Holds new ∅ where
  listed _ := ⟨nofun, fun ⟨_, member, _⟩ => nomatch member⟩
  size := rfl
  next := rfl
  unused _ _ := rfl
  fits := Nat.zero_le _

theorem named_hls : validateComponent "hls".toList "媒体身份" = .ok "hls".toList := by
  decide

theorem Holds.reuses (holds : Holds registry urls)
    (accepted : validateSourceUrl parse url = .ok url) (member : url ∈ urls) :
    ∃ id, registerOrReuse parse "hls".toList url registry = (.ok id, registry) := by
  unfold registerOrReuse
  simp only [named_hls, accepted]
  cases found : registry.entries.entries.find? fun entry =>
      entry.2.identity = "hls".toList ∧ entry.2.url = url with
  | some entry => exact ⟨entry.1, rfl⟩
  | none =>
    obtain ⟨entry, inTable, entry_eq⟩ := (holds.listed url).mp member
    have different := List.find?_eq_none.mp found entry inTable
    rw [entry_eq] at different
    exact absurd (decide_eq_true ⟨rfl, rfl⟩) different

theorem Holds.find?_eq_none (holds : Holds registry urls) (absent : url ∉ urls) :
    (registry.entries.entries.find? fun entry =>
      entry.2.identity = "hls".toList ∧ entry.2.url = url) = none := by
  refine List.find?_eq_none.mpr fun entry inTable matching => ?_
  obtain ⟨identity_eq, url_eq⟩ := of_decide_eq_true matching
  refine absent ((holds.listed url).mpr ⟨entry, inTable, ?_⟩)
  rw [← identity_eq, ← url_eq]

/-- A URL that the registry does not have is added, if there is room. -/
theorem Holds.inserts (holds : Holds registry urls)
    (accepted : validateSourceUrl parse url = .ok url) (absent : url ∉ urls)
    (room : urls.card < maxRegisteredSources) :
    ∃ id after, registerOrReuse parse "hls".toList url registry = (.ok id, after) ∧
      Holds after (insert url urls) := by
  have capacity : ¬maxRegisteredSources ≤ registry.entries.entries.length := by
    rw [holds.size]
    omega
  have small : maxRegisteredSources < 2 ^ 64 - 1 := by decide
  have following : followingId registry.nextId = some (registry.nextId + 1) := by
    apply followingId_of_lt
    · rw [holds.next]
      omega
    · rw [holds.next]
      omega
  have free : registry.resolve registry.nextId = none :=
    holds.unused registry.nextId (Nat.le_refl _)
  have fresh := AList.lookup_eq_none.mp free
  unfold registerOrReuse
  simp only [named_hls, accepted, holds.find?_eq_none absent, if_neg capacity, following]
  refine ⟨registry.nextId, _, rfl, ?_, ?_, ?_, ?_, ?_⟩
  · intro other
    rw [AList.entries_insert_of_notMem fresh, Finset.mem_insert]
    simp only [List.mem_cons, exists_eq_or_imp, RegisteredSource.mk.injEq, true_and]
    rw [holds.listed, eq_comm]
  · rw [AList.entries_insert_of_notMem fresh, List.length_cons, holds.size,
      Finset.card_insert_of_notMem absent]
  · change registry.nextId + 1 = _
    rw [holds.next, Finset.card_insert_of_notMem absent]
  · intro id later
    change registry.nextId + 1 ≤ id at later
    rw [SourceRegistry.resolve, AList.lookup_insert_ne (by omega)]
    exact holds.unused id (by omega)
  · rw [Finset.card_insert_of_notMem absent]
    omega

theorem Holds.refuses (holds : Holds registry urls)
    (accepted : validateSourceUrl parse url = .ok url) (absent : url ∉ urls)
    (full : maxRegisteredSources ≤ urls.card) :
    registerOrReuse parse "hls".toList url registry =
      (.error (.request "来源注册表已达到容量上限"), registry) := by
  have capacity : maxRegisteredSources ≤ registry.entries.entries.length := by
    rw [holds.size]
    exact full
  unfold registerOrReuse
  simp only [named_hls, accepted, holds.find?_eq_none absent, if_pos capacity]

theorem Holds.registers (holds : Holds registry urls)
    (accepted : validateSourceUrl parse url = .ok url)
    (room : (insert url urls).card ≤ maxRegisteredSources) :
    ∃ id after, registerOrReuse parse "hls".toList url registry = (.ok id, after) ∧
      Holds after (insert url urls) := by
  by_cases member : url ∈ urls
  · obtain ⟨id, reused⟩ := holds.reuses accepted member
    rw [Finset.insert_eq_of_mem member]
    exact ⟨id, registry, reused, holds⟩
  · rw [Finset.card_insert_of_notMem member] at room
    exact holds.inserts accepted member room

/-- A URL that was registered is admissible, and there was room for it. -/
theorem Holds.of_registered {id : Nat} (holds : Holds registry urls)
    (registered : registerOrReuse parse "hls".toList url registry = (.ok id, after)) :
    validateSourceUrl parse url = .ok url ∧ (insert url urls).card ≤ maxRegisteredSources := by
  cases validated : validateSourceUrl parse url with
  | error reason =>
    unfold registerOrReuse at registered
    simp only [named_hls, validated] at registered
    cases registered
  | ok accepted =>
    have same := validateSourceUrl_eq validated
    subst same
    refine ⟨rfl, ?_⟩
    by_cases member : accepted ∈ urls
    · rw [Finset.insert_eq_of_mem member]
      exact holds.fits
    · rw [Finset.card_insert_of_notMem member]
      by_contra full
      rw [holds.refuses validated member (by omega)] at registered
      cases registered

/-! ## Registering one playlist after another -/

/-- The URLs that are there when sources were added. -/
def grown (urls : Finset Text) (sources : List (Option Text)) : Finset Text :=
  urls ∪ (sources.filterMap id).toFinset

theorem grown_nil (urls : Finset Text) : grown urls [] = urls := by
  simp [grown]

theorem grown_some (urls : Finset Text) (url : Text) (sources : List (Option Text)) :
    grown urls (some url :: sources) = grown (insert url urls) sources := by
  simp [grown]

theorem grown_append (urls : Finset Text) (first second : List (Option Text)) :
    grown urls (first ++ second) = grown (grown urls first) second := by
  simp [grown, Finset.union_assoc]

/-- There is room for all sources, and each of them is one. -/
def Affords (urls : Finset Text) (sources : List (Option Text)) : Prop :=
  (∀ source ∈ sources, source.isSome) ∧ (grown urls sources).card ≤ maxRegisteredSources

theorem Affords.card_le {sources : List (Option Text)} (affords : Affords urls sources) :
    urls.card ≤ maxRegisteredSources :=
  (Finset.card_le_card Finset.subset_union_left).trans affords.2

theorem affords_nil : Affords urls [] ↔ urls.card ≤ maxRegisteredSources := by
  rw [Affords, grown_nil]
  exact and_iff_right nofun

theorem not_affords_none (sources : List (Option Text)) : ¬Affords urls (none :: sources) := by
  intro affords
  cases affords.1 none List.mem_cons_self

theorem affords_some (sources : List (Option Text)) :
    Affords urls (some url :: sources) ↔ Affords (insert url urls) sources := by
  rw [Affords, Affords, grown_some, List.forall_mem_cons]
  exact and_congr_left fun _ => and_iff_right rfl

theorem affords_append (first second : List (Option Text)) :
    Affords urls (first ++ second) ↔ Affords urls first ∧ Affords (grown urls first) second := by
  constructor
  · rintro ⟨sources, room⟩
    obtain ⟨firstSources, secondSources⟩ := List.forall_mem_append.mp sources
    rw [grown_append] at room
    have later : Affords (grown urls first) second := ⟨secondSources, room⟩
    exact ⟨⟨firstSources, later.card_le⟩, later⟩
  · rintro ⟨⟨firstSources, -⟩, secondSources, room⟩
    refine ⟨List.forall_mem_append.mpr ⟨firstSources, secondSources⟩, ?_⟩
    rw [grown_append]
    exact room

/-- The sources that a text demands. -/
def demands (parse : Text → Option ParsedUrl) (text : Text) : List (Option Text) :=
  (proxied text).map (sourceUrl parse)

theorem sourceUrl_eq_some {encoded : Text} :
    sourceUrl parse encoded = some url ↔
      PercentEncoding.decodeComponent encoded = .ok url ∧
        validateSourceUrl parse url = .ok url := by
  unfold sourceUrl
  constructor
  · intro source
    split at source
    · cases source
    · rename_i other decoded
      cases validated : validateSourceUrl parse other with
      | error reason =>
        rw [validated] at source
        cases source
      | ok accepted =>
        rw [validated] at source
        cases source
        cases validateSourceUrl_eq validated
        exact ⟨decoded, validated⟩
  · rintro ⟨decoded, accepted⟩
    simp only [decoded, accepted]
    rfl

/-- The second pass ends if there is room for all that it finds. -/
theorem Holds.registerRewrittenSources {text : Text} (holds : Holds registry urls)
    (affords : Affords urls (demands parse text)) :
    ∃ output after, Hls.registerRewrittenSources parse text registry = (.ok output, after) ∧
      Holds after (grown urls (demands parse text)) := by
  induction text using pass_induction generalizing registry urls with
  | clear text clear =>
    rw [registerRewrittenSources_of_clear clear, demands, proxied_of_clear clear, List.map_nil,
      grown_nil]
    exact ⟨text, registry, rfl, holds⟩
  | step text before tail found inductionHypothesis =>
    rw [demands, proxied_of_split found, List.map_cons] at affords ⊢
    cases source : sourceUrl parse (tail.takeWhile (!endsReference ·)) with
    | none =>
      rw [source] at affords
      exact absurd affords (not_affords_none _)
    | some url =>
      obtain ⟨decoded, validated⟩ := sourceUrl_eq_some.mp source
      rw [source, affords_some] at affords
      obtain ⟨id, middle, registered, middleHolds⟩ := holds.registers validated affords.card_le
      obtain ⟨others, after, ended, afterHolds⟩ := inductionHypothesis middleHolds affords
      refine ⟨before ++ mediaPath id ++ others, after, ?_, grown_some urls url _ ▸ afterHolds⟩
      rw [registerRewrittenSources_of_split found, registerReference, decoded]
      simp only [bind_assoc, pure_bind]
      rw [bind_of_ok registered, bind_of_ok ended]
      rfl

/-- When the second pass ended, there was room for all that it found. -/
theorem Holds.of_registerRewrittenSources {text output : Text} (holds : Holds registry urls)
    (ended : Hls.registerRewrittenSources parse text registry = (.ok output, after)) :
    Affords urls (demands parse text) := by
  induction text using pass_induction generalizing registry urls output after with
  | clear text clear =>
    rw [demands, proxied_of_clear clear]
    exact affords_nil.mpr holds.fits
  | step text before tail found inductionHypothesis =>
    rw [registerRewrittenSources_of_split found] at ended
    obtain ⟨path, middle, here, ended⟩ := exists_of_bind_eq_ok ended
    obtain ⟨others, final, later, -⟩ := exists_of_bind_eq_ok ended
    obtain ⟨url, id, decoded, registered, -⟩ := registerReference_eq_ok here
    obtain ⟨accepted, room⟩ := holds.of_registered registered
    obtain ⟨sameId, sameMiddle, again, middleHolds⟩ := holds.registers accepted room
    rw [registered] at again
    cases again
    rw [demands, proxied_of_split found, List.map_cons,
      sourceUrl_eq_some.mpr ⟨decoded, accepted⟩, affords_some]
    exact inductionHypothesis middleHolds later

/-- The sources that the playlists of a session demand. -/
def sessionDemands (rules : UrlRules) (parse : Text → Option ParsedUrl)
    (playlists : List (Text × Text)) : List (Option Text) :=
  playlists.flatMap fun playlist =>
    demands parse (rewriteM3u8 rules playlist.1 playlist.2 "/proxy".toList)

/-- A session goes on just if there is room for what its playlists demand. -/
theorem Holds.playSession_iff (rules : UrlRules) (holds : Holds registry urls)
    (playlists : List (Text × Text)) :
    (∃ outputs after, playSession rules parse playlists registry = (.ok outputs, after)) ↔
      Affords urls (sessionDemands rules parse playlists) := by
  induction playlists generalizing registry urls with
  | nil =>
    exact ⟨fun _ => affords_nil.mpr holds.fits, fun _ => ⟨[], registry, rfl⟩⟩
  | cons playlist playlists inductionHypothesis =>
    obtain ⟨content, baseUrl⟩ := playlist
    rw [sessionDemands, List.flatMap_cons, affords_append, playSession]
    constructor
    · rintro ⟨outputs, after, ended⟩
      obtain ⟨output, middle, here, ended⟩ := exists_of_bind_eq_ok ended
      obtain ⟨others, final, later, -⟩ := exists_of_bind_eq_ok ended
      have affords := holds.of_registerRewrittenSources here
      obtain ⟨again, sameMiddle, sameHere, middleHolds⟩ := holds.registerRewrittenSources affords
      have same := here.symm.trans sameHere
      cases same
      exact ⟨affords, (inductionHypothesis middleHolds).mp ⟨_, _, later⟩⟩
    · rintro ⟨affords, affordsLater⟩
      obtain ⟨output, middle, here, middleHolds⟩ := holds.registerRewrittenSources affords
      obtain ⟨others, after, later⟩ :=
        (inductionHypothesis middleHolds).mpr affordsLater
      refine ⟨output :: others, after, ?_⟩
      rw [rewriteStage, bind_of_ok here, bind_of_ok later]
      rfl

end Registry

/-! ## What a session may ask for -/

section Sessions

open SourceRegistry

variable (rules : UrlRules) {parse : Text → Option ParsedUrl}

/-- The URLs of a session: those of the references, and those that follow the path
of the proxy outside of them. -/
def sessionUrls (parse : Text → Option ParsedUrl) (playlists : List (Text × Text)) : List Text :=
  playlists.flatMap fun playlist =>
    (references playlist.1).map (absolutize rules · (Base.new rules playlist.2)) ++
      (strays playlist.1).filterMap (sourceUrl parse)

theorem mem_demands_rewritten {content baseUrl : Text} {source : Option Text} :
    source ∈ demands parse (rewriteM3u8 rules content baseUrl "/proxy".toList) ↔
      (∃ value ∈ references content, sourceUrl parse (PercentEncoding.encodeComponent
          (absolutize rules value (Base.new rules baseUrl))) = source) ∨
      ∃ stray ∈ strays content, sourceUrl parse stray = source := by
  have trimmed : trimSlashes "/proxy".toList = "/proxy".toList := by decide
  rw [demands, rewriteM3u8_eq, trimmed,
    proxied_pieces (pieces_shaped content), List.mem_map]
  constructor
  · rintro ⟨found, member, source_eq⟩
    obtain ⟨piece, inContent, member⟩ := List.mem_flatMap.mp member
    cases piece with
    | fixed text =>
      exact .inr ⟨found, List.mem_flatMap.mpr ⟨_, inContent, member⟩, source_eq⟩
    | reference value =>
      rw [List.mem_singleton.mp member] at source_eq
      exact .inl ⟨value, List.mem_filterMap.mpr ⟨_, inContent, rfl⟩, source_eq⟩
  · rintro (⟨value, member, source_eq⟩ | ⟨stray, member, source_eq⟩)
    · obtain ⟨piece, inContent, value_eq⟩ := List.mem_filterMap.mp member
      cases piece with
      | fixed text => cases value_eq
      | reference other =>
        cases value_eq
        exact ⟨_, List.mem_flatMap.mpr ⟨_, inContent, List.mem_cons_self⟩, source_eq⟩
    · obtain ⟨piece, inContent, inPiece⟩ := List.mem_flatMap.mp member
      cases piece with
      | fixed text =>
        exact ⟨stray, List.mem_flatMap.mpr ⟨_, inContent, inPiece⟩, source_eq⟩
      | reference value => cases inPiece

/-- The references of all playlists of a session are admissible. -/
def Admissible (parse : Text → Option ParsedUrl) (playlists : List (Text × Text)) : Prop :=
  ∀ playlist ∈ playlists, ∀ value ∈ references playlist.1, validateSourceUrl parse
        (absolutize rules value (Base.new rules playlist.2)) =
      .ok (absolutize rules value (Base.new rules playlist.2))

variable {rules} {playlists : List (Text × Text)}

theorem mem_sessionDemands (admissible : Admissible rules parse playlists) {source : Option Text} :
    source ∈ sessionDemands rules parse playlists ↔ ∃ playlist ∈ playlists,
        (∃ value ∈ references playlist.1,
          some (absolutize rules value (Base.new rules playlist.2)) = source) ∨
        ∃ stray ∈ strays playlist.1, sourceUrl parse stray = source := by
  rw [sessionDemands, List.mem_flatMap]
  refine exists_congr fun playlist => and_congr_right fun member => ?_
  rw [mem_demands_rewritten]
  refine or_congr_left (exists_congr fun value => and_congr_right fun inContent => ?_)
  rw [sourceUrl_eq_some.mpr ⟨PercentEncoding.decodeComponent_encodeComponent _,
    admissible playlist member value inContent⟩]

theorem grown_sessionDemands (admissible : Admissible rules parse playlists) :
    grown ∅ (sessionDemands rules parse playlists) =
      (sessionUrls rules parse playlists).toFinset := by
  ext url
  rw [grown, Finset.empty_union, List.mem_toFinset, List.mem_toFinset,
    List.mem_filterMap, sessionUrls, List.mem_flatMap]
  constructor
  · rintro ⟨source, demanded, rfl⟩
    obtain ⟨playlist, member, found⟩ := (mem_sessionDemands admissible).mp demanded
    refine ⟨playlist, member, List.mem_append.mpr ?_⟩
    rcases found with ⟨value, inContent, same⟩ | ⟨stray, inContent, same⟩
    · exact .inl (List.mem_map.mpr ⟨value, inContent, Option.some.inj same⟩)
    · exact .inr (List.mem_filterMap.mpr ⟨stray, inContent, same⟩)
  · rintro ⟨playlist, member, found⟩
    refine ⟨some url, (mem_sessionDemands admissible).mpr ⟨playlist, member, ?_⟩, rfl⟩
    rcases List.mem_append.mp found with referred | strayed
    · obtain ⟨value, inContent, same⟩ := List.mem_map.mp referred
      exact .inl ⟨value, inContent, congrArg some same⟩
    · obtain ⟨stray, inContent, same⟩ := List.mem_filterMap.mp strayed
      exact .inr ⟨stray, inContent, same⟩

theorem affords_sessionDemands_iff (admissible : Admissible rules parse playlists) :
    Affords ∅ (sessionDemands rules parse playlists) ↔
      (∀ playlist ∈ playlists, ∀ stray ∈ strays playlist.1, (sourceUrl parse stray).isSome) ∧
      (sessionUrls rules parse playlists).toFinset.card ≤
        NumberedRegistry.maxRegisteredSources := by
  rw [Affords, grown_sessionDemands admissible]
  refine and_congr_left fun _ => ?_
  constructor
  · intro sources playlist member stray inContent
    exact sources _ ((mem_sessionDemands admissible).mpr
      ⟨playlist, member, .inr ⟨stray, inContent, rfl⟩⟩)
  · intro sources source demanded
    obtain ⟨playlist, member, found⟩ := (mem_sessionDemands admissible).mp demanded
    rcases found with ⟨value, inContent, rfl⟩ | ⟨stray, inContent, rfl⟩
    · rfl
    · exact sources playlist member stray inContent

end Sessions

theorem splitOnP_joined {texts : List Text} (single : ∀ text ∈ texts, '\n' ∉ text) :
    (texts.flatMap (· ++ ['\n'])).splitOnP (· = '\n') = texts ++ [[]] := by
  induction texts with
  | nil => rfl
  | cons text texts inductionHypothesis =>
    obtain ⟨here, others⟩ := List.forall_mem_cons.mp single
    have plain : ∀ char ∈ text, decide (char = '\n') = false := by
      intro char member
      exact decide_eq_false fun same => here (same ▸ member)
    rw [List.flatMap_cons, List.append_assoc, List.singleton_append,
      List.splitOnP_append_cons_of_forall_mem plain _ (by decide),
      inductionHypothesis others, List.cons_append]

theorem lines_joined {texts : List Text} (single : ∀ text ∈ texts, '\n' ∉ text)
    (plain : ∀ text ∈ texts, text.getLast? ≠ some '\r') :
    lines (texts.flatMap (· ++ ['\n'])) = texts := by
  have stripped : texts.map stripReturn = texts := by
    refine (List.map_congr_left fun text member => ?_).trans (List.map_id texts)
    exact if_neg (plain text member)
  rw [lines, splitOnP_joined single]
  simp [stripped]

/-- The URL of a segment of a live stream. -/
def segmentUrl (number : Nat) : Text :=
  "https://h/".toList ++ Text.decimal number

/-- A playlist of a live stream with the segment of the moment. -/
def livePlaylist (number : Nat) : Text :=
  ["#EXTM3U".toList, "#EXT-X-TARGETDURATION:10".toList, "#EXTINF:10,".toList,
    segmentUrl number].flatMap (· ++ ['\n'])

theorem not_mem_segmentUrl {char : Char} (noDigit : char.isDigit = false)
    (absent : char ∉ "https://h/".toList) (number : Nat) :
    char ∉ segmentUrl number := by
  unfold segmentUrl
  rw [List.mem_append, not_or]
  exact ⟨absent, Text.not_mem_decimal noDigit number⟩

theorem segmentUrl_inj {left right : Nat} : segmentUrl left = segmentUrl right ↔ left = right := by
  unfold segmentUrl
  rw [List.append_cancel_left_eq, Text.decimal_inj]

theorem lines_livePlaylist (number : Nat) :
    lines (livePlaylist number) = ["#EXTM3U".toList, "#EXT-X-TARGETDURATION:10".toList,
        "#EXTINF:10,".toList, segmentUrl number] := by
  apply lines_joined
  · have absent := not_mem_segmentUrl (by decide : '\n'.isDigit = false) (by decide) number
    simp [absent]
  · have absent := not_mem_segmentUrl (by decide : '\r'.isDigit = false) (by decide) number
    have last : (segmentUrl number).getLast? ≠ some '\r' :=
      fun last => absent (List.mem_of_getLast? last)
    simp [last]

theorem pieces_livePlaylist (number : Nat) :
    pieces (livePlaylist number) =
      [.fixed "#EXTM3U\n".toList, .fixed "#EXT-X-TARGETDURATION:10\n".toList,
        .fixed "#EXTINF:10,\n".toList, .reference (segmentUrl number),
        .fixed ['\n']] := by
  rw [pieces, lines_livePlaylist]
  rfl

theorem references_livePlaylist (number : Nat) :
    references (livePlaylist number) = [segmentUrl number] := by
  rw [references, pieces_livePlaylist]
  rfl

theorem strays_livePlaylist (number : Nat) : strays (livePlaylist number) = [] := by
  rw [strays, pieces_livePlaylist]
  rfl

theorem absolutize_segmentUrl (rules : UrlRules) (number : Nat) (base : Base) :
    absolutize rules (segmentUrl number) base = segmentUrl number := by
  have trimmed : Text.trim (segmentUrl number) = segmentUrl number := by
    refine Text.trim_append_decimal (fun char first => ?_) number
    cases first
    decide
  rw [absolutize, trimmed]
  rfl

theorem validateSourceUrl_segmentUrl {number : Nat}
    (small : number ≤ NumberedRegistry.maxRegisteredSources) :
    SourceRegistry.validateSourceUrl parseAbsolute (segmentUrl number) =
      .ok (segmentUrl number) := by
  have digits : (Text.decimal number).length ≤ 5 :=
    Nat.toDigits_length 10 number 5 (by decide) (Nat.lt_of_le_of_lt small (by decide))
  have size : (String.ofList (segmentUrl number)).utf8ByteSize ≤
      SourceRegistry.maxSourceUrlLength := by
    refine (Text.byteSize_le (segmentUrl number)).trans ?_
    unfold segmentUrl
    rw [List.length_append]
    change 4 * (10 + _) ≤ 16 * 1024
    omega
  have noNul : Char.ofNat 0 ∉ segmentUrl number :=
    not_mem_segmentUrl (by decide) (by decide) number
  rw [SourceRegistry.validateSourceUrl, if_neg (not_or.mpr ⟨Nat.not_lt.mpr size, noNul⟩)]
  rfl

/-- The playlists of a live stream until there are more segments than the registry
has room for. -/
def longSession : List (Text × Text) :=
  (List.range (NumberedRegistry.maxRegisteredSources + 1)).map fun number =>
    (livePlaylist number, "https://h".toList)

theorem longSession_admissible : Admissible UrlRules.standard parseAbsolute longSession := by
  intro playlist member value inContent
  obtain ⟨number, inRange, rfl⟩ := List.mem_map.mp member
  rw [references_livePlaylist, List.mem_singleton] at inContent
  subst inContent
  rw [absolutize_segmentUrl]
  exact validateSourceUrl_segmentUrl (Nat.le_of_lt_succ (List.mem_range.mp inRange))

theorem sessionUrls_longSession :
    sessionUrls UrlRules.standard parseAbsolute longSession =
      (List.range (NumberedRegistry.maxRegisteredSources + 1)).map segmentUrl := by
  rw [sessionUrls, longSession, List.flatMap_map, List.map_eq_flatMap]
  refine List.flatMap_congr fun number _ => ?_
  simp only [references_livePlaylist, strays_livePlaylist, List.map_singleton,
    List.filterMap_nil, List.append_nil, absolutize_segmentUrl]

end Hls
end VideoProxy
