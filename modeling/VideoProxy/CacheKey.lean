import VideoProxy.Lib.Framing
import VideoProxy.RequestHandler

/-!
# Cache keys

The cache key of a request is the identity of the upstream resource, followed by
the identity that the client declares in two headers.  Each of these stands
behind its size, so a key is the key of one resource and of one declared identity
only.

Of a parsed URL with the scheme `http` or `https` it is used that its port is not
the default one, that its path begins with a slash, and that its host is a name
or an address in brackets.
-/

namespace VideoProxy

namespace ParsedUrl

/-- A host as URLs print it: a name, or an address in brackets. -/
inductive IsHost : Text → Prop
  | name {text : Text}
      (plain : ∀ char ∈ text, char ≠ ':' ∧ char ≠ '/' ∧ char ≠ '[') :
      IsHost text
  | address {inside : Text} (closed : ']' ∉ inside) :
      IsHost ('[' :: (inside ++ [']']))

/-- The port of a scheme. -/
def defaultPort (scheme : String) : Nat :=
  if scheme = "https" then 443 else 80

/-- `Url::port_or_known_default`. -/
def effectivePort (url : ParsedUrl) : Nat :=
  url.port.getD (defaultPort url.scheme)

/-- The host in lower case. -/
def lowerHost (url : ParsedUrl) : Option String :=
  url.host.map (String.map Char.toLower)

/-- A URL with the scheme `http` or `https`, as `Url::parse` returns it. -/
structure IsHttp (url : ParsedUrl) : Prop where
  scheme : url.scheme = "http" ∨ url.scheme = "https"
  host : ∃ host, url.host = some host ∧ IsHost host.toList
  port : url.port ≠ some (defaultPort url.scheme)
  path : ∃ rest, url.path.toList = '/' :: rest

/-- The URLs are for the same resource. -/
structure SameResource (first second : ParsedUrl) : Prop where
  scheme : first.scheme = second.scheme
  host : first.lowerHost = second.lowerHost
  port : first.effectivePort = second.effectivePort
  path : first.path = second.path

/-! ## The identity of a resource -/

/-- The characters of a name. -/
def continuesName (char : Char) : Bool :=
  char != ':' && char != '/' && char != '['

/-- What follows a host. -/
def EndsHost (rest : Text) : Prop :=
  ∃ mark tail, rest = mark :: tail ∧ (mark = ':' ∨ mark = '/')

theorem continuesName_iff {char : Char} :
    continuesName char = true ↔ char ≠ ':' ∧ char ≠ '/' ∧ char ≠ '[' := by
  simp only [continuesName, Bool.and_eq_true, bne_iff_ne, and_assoc]

theorem isHost_of_all {text : Text} (plain : text.all continuesName = true) : IsHost text :=
  .name fun char member =>
    continuesName_iff.mp (List.all_eq_true.mp plain char member)

theorem EndsHost.stops {rest : Text} (ends : EndsHost rest) : Text.Stops continuesName rest := by
  obtain ⟨mark, tail, rfl, rfl | rfl⟩ := ends
  · intro char first
    cases first
    rfl
  · intro char first
    cases first
    rfl

theorem name_ne_address {text rest other : Text}
    (plain : ∀ char ∈ text, char ≠ ':' ∧ char ≠ '/' ∧ char ≠ '[') (ends : EndsHost rest) :
    text ++ rest ≠ '[' :: other := by
  intro same
  cases text with
  | nil =>
    obtain ⟨mark, tail, rfl, rfl | rfl⟩ := ends
    · cases same
    · cases same
  | cons char text =>
    exact (plain char List.mem_cons_self).2.2 (List.cons.inj same).1

/-- A host is found again in front of a port or a path. -/
theorem IsHost.append_inj {first second firstRest secondRest : Text} (firstHost : IsHost first)
    (secondHost : IsHost second) (firstEnds : EndsHost firstRest) (secondEnds : EndsHost secondRest)
    (same : first ++ firstRest = second ++ secondRest) :
    first = second ∧ firstRest = secondRest := by
  cases firstHost with
  | name firstPlain =>
    cases secondHost with
    | name secondPlain =>
      exact Text.append_inj_of_stops
        (fun char member => continuesName_iff.mpr (firstPlain char member))
        (fun char member => continuesName_iff.mpr (secondPlain char member))
        firstEnds.stops secondEnds.stops same
    | address _ => exact absurd same (name_ne_address firstPlain firstEnds)
  | address firstClosed =>
    cases secondHost with
    | name secondPlain =>
      exact absurd same.symm (name_ne_address secondPlain secondEnds)
    | address secondClosed =>
      rw [List.cons_append, List.cons_append] at same
      have inner := (List.cons.inj same).2
      rw [List.append_assoc, List.append_assoc, List.singleton_append,
        List.singleton_append] at inner
      obtain ⟨rfl, rfl⟩ := Text.append_cons_inj firstClosed secondClosed inner
      exact ⟨rfl, rfl⟩

theorem IsHost.toLower {text : Text} (host : IsHost text) : IsHost (text.map Char.toLower) := by
  cases host with
  | name plain =>
    refine .name fun char member => ?_
    obtain ⟨original, listed, rfl⟩ := List.mem_map.mp member
    obtain ⟨noColon, noSlash, noBracket⟩ := plain original listed
    exact ⟨fun same => noColon (Text.eq_of_toLower_eq (by decide) same),
      fun same => noSlash (Text.eq_of_toLower_eq (by decide) same),
      fun same => noBracket (Text.eq_of_toLower_eq (by decide) same)⟩
  | @address inside closed =>
    rw [List.map_cons, List.map_append]
    refine .address fun member => ?_
    obtain ⟨original, listed, same⟩ := List.mem_map.mp member
    rw [Text.eq_of_toLower_eq (by decide) same] at listed
    exact closed listed

/-- A port that is printed. -/
def portText : Option Nat → Text
  | some port => ':' :: Text.decimal port
  | none => []

theorem endsHost_portText (port : Option Nat) (tail : Text) :
    EndsHost (portText port ++ '/' :: tail) := by
  cases port with
  | none => exact ⟨'/', tail, rfl, .inr rfl⟩
  | some port =>
    exact ⟨':', Text.decimal port ++ '/' :: tail, rfl, .inl rfl⟩

/-- A port is found again in front of a path. -/
theorem portText_append_inj {first second : Option Nat} {firstTail secondTail : Text}
    (same : portText first ++ '/' :: firstTail = portText second ++ '/' :: secondTail) :
    first = second ∧ '/' :: firstTail = '/' :: secondTail := by
  cases first with
  | none =>
    cases second with
    | none => exact ⟨rfl, same⟩
    | some port => cases same
  | some firstPort =>
    cases second with
    | none => cases same
    | some secondPort =>
      have slash : ∀ tail, Text.Stops Char.isDigit ('/' :: tail) := by
        intro tail char first
        cases first
        rfl
      obtain ⟨digits, tails⟩ := Text.append_inj_of_stops
        (fun _ member => Text.isDigit_of_mem_decimal member)
        (fun _ member => Text.isDigit_of_mem_decimal member)
        (slash firstTail) (slash secondTail) (List.cons.inj same).2
      exact ⟨congrArg some (Text.decimal_inj.mp digits), tails⟩

end ParsedUrl

namespace DataRequest

open ParsedUrl

theorem toList_toString (value : Nat) : (toString value).toList = Text.decimal value :=
  Nat.toList_repr

variable {url : ParsedUrl} {headers : Headers}

/-- The identity of a resource as text. -/
theorem canonicalUpstreamIdentity_text {identity : String}
    (identified : canonicalUpstreamIdentity url = .ok identity) :
    ∃ host, url.host = some host ∧ identity.toList = url.scheme.toList ++ ("://".toList ++
        (host.toList.map Char.toLower ++ (portText url.port ++ url.path.toList))) := by
  unfold canonicalUpstreamIdentity at identified
  cases host_eq : url.host with
  | none =>
    rw [host_eq] at identified
    cases identified
  | some host =>
    rw [host_eq] at identified
    cases identified
    refine ⟨host, rfl, ?_⟩
    simp only [String.toList_append, String.toList_map, List.append_assoc]
    cases url.port with
    | none => rfl
    | some port =>
      simp only [portText, String.toList_append, List.append_assoc, toList_toString]
      rfl

theorem scheme_append_inj {first second : String} {firstRest secondRest : Text}
    (firstScheme : first = "http" ∨ first = "https")
    (secondScheme : second = "http" ∨ second = "https")
    (same : first.toList ++ ("://".toList ++ firstRest) =
      second.toList ++ ("://".toList ++ secondRest)) :
    first = second ∧ firstRest = secondRest := by
  rcases firstScheme with rfl | rfl
  · rcases secondScheme with rfl | rfl
    · exact ⟨rfl, List.append_cancel_left (List.append_cancel_left same)⟩
    · cases same
  · rcases secondScheme with rfl | rfl
    · cases same
    · exact ⟨rfl, List.append_cancel_left (List.append_cancel_left same)⟩

theorem port_eq_iff {first second : ParsedUrl} (firstHttp : first.IsHttp)
    (secondHttp : second.IsHttp) (scheme_eq : first.scheme = second.scheme) :
    first.port = second.port ↔ first.effectivePort = second.effectivePort := by
  constructor
  · intro same
    rw [effectivePort, effectivePort, same, scheme_eq]
  · intro same
    have firstOther := firstHttp.port
    have secondOther := secondHttp.port
    rw [effectivePort, effectivePort, scheme_eq] at same
    rw [scheme_eq] at firstOther
    cases firstPort : first.port with
    | none =>
      cases secondPort : second.port with
      | none => rfl
      | some port =>
        rw [firstPort, secondPort] at same
        rw [secondPort] at secondOther
        exact absurd (congrArg some same.symm) secondOther
    | some port =>
      cases secondPort : second.port with
      | none =>
        rw [firstPort, secondPort] at same
        rw [firstPort] at firstOther
        exact absurd (congrArg some same) firstOther
      | some other =>
        rw [firstPort, secondPort] at same
        exact congrArg some same

/-- Identities are the same exactly for the same resource. -/
theorem canonicalUpstreamIdentity_eq_iff {first second : ParsedUrl}
    {firstIdentity secondIdentity : String} (firstHttp : first.IsHttp) (secondHttp : second.IsHttp)
    (firstIdentified : canonicalUpstreamIdentity first = .ok firstIdentity)
    (secondIdentified : canonicalUpstreamIdentity second = .ok secondIdentity) :
    firstIdentity = secondIdentity ↔ first.SameResource second := by
  obtain ⟨firstName, firstNamed, firstText⟩ :=
    canonicalUpstreamIdentity_text firstIdentified
  obtain ⟨secondName, secondNamed, secondText⟩ :=
    canonicalUpstreamIdentity_text secondIdentified
  have lower_eq : first.lowerHost = second.lowerHost ↔
      firstName.toList.map Char.toLower = secondName.toList.map Char.toLower := by
    rw [lowerHost, lowerHost, firstNamed, secondNamed, Option.map_some, Option.map_some,
      Option.some_inj, ← String.toList_inj, String.toList_map, String.toList_map]
  obtain ⟨firstTail, firstPath⟩ := firstHttp.path
  obtain ⟨secondTail, secondPath⟩ := secondHttp.path
  obtain ⟨_, firstKnown, firstHost⟩ := firstHttp.host
  obtain ⟨_, secondKnown, secondHost⟩ := secondHttp.host
  rw [firstNamed] at firstKnown
  rw [secondNamed] at secondKnown
  cases firstKnown
  cases secondKnown
  rw [← String.toList_inj, firstText, secondText]
  constructor
  · intro same
    rw [firstPath, secondPath] at same
    obtain ⟨scheme_eq, same⟩ :=
      scheme_append_inj firstHttp.scheme secondHttp.scheme same
    obtain ⟨host_eq, same⟩ := firstHost.toLower.append_inj secondHost.toLower
      (endsHost_portText _ _) (endsHost_portText _ _) same
    obtain ⟨port_eq, path_eq⟩ := portText_append_inj same
    rw [← firstPath, ← secondPath] at path_eq
    exact ⟨scheme_eq, lower_eq.mpr host_eq, (port_eq_iff firstHttp secondHttp scheme_eq).mp port_eq,
      String.toList_inj.mp path_eq⟩
  · intro same
    rw [same.scheme, lower_eq.mp same.host, same.path,
      (port_eq_iff firstHttp secondHttp same.scheme).mpr same.port]

/-! ## The declared identity -/

/-- The value of a header without the white space around it. -/
def trimmed (headers : Headers) (name : String) : Option Text :=
  (headers.get name).map Text.trim

/-- A value in a cache key. -/
def part : Option Text → Text
  | some value => '|' :: Text.framed value
  | none => []

/-- The declared identity in a cache key. -/
def declared (headers : Headers) : Text :=
  part (trimmed headers "x-cache-asset-id") ++ part (trimmed headers "x-cache-asset-revision")

theorem pushComponent_text (key value : String) :
    (pushComponent key value).toList = key.toList ++ Text.framed value.toList := by
  simp only [pushComponent, String.toList_append, toList_toString, Text.framed,
    Text.byteSize, String.ofList_toList, List.append_assoc]
  rfl

/-- A header value that can be read and is not blank. -/
def Readable (value : Text) : Prop :=
  Headers.toStr value = some value ∧ Text.trim value ≠ []

theorem headerText_eq_ok_iff {value text : Text} :
    headerText value = .ok text ↔ text = value ∧ Headers.toStr value = some value := by
  unfold headerText
  cases text_eq : Headers.toStr value with
  | none => simp
  | some same =>
    obtain rfl := Headers.eq_of_toStr text_eq
    simp [eq_comm]

theorem bind_eq_ok_iff {result : Except ε α} {next : α → Except ε β} {value : β} :
    (result >>= next) = .ok value ↔ ∃ middle, result = .ok middle ∧ next middle = .ok value := by
  constructor
  · exact exists_of_except_ok
  · rintro ⟨middle, rfl, ended⟩
    exact ended

/-- A header is pushed if it is there and readable. -/
theorem pushHeader_eq_ok_iff {name label key longer : String} :
    pushHeader headers name label key = .ok longer ↔
      ∃ value, headers.get name = some value ∧ Readable value ∧
        longer = pushComponent (key ++ "|") (String.ofList (Text.trim value)) := by
  unfold pushHeader
  cases value_eq : headers.get name with
  | none => simp
  | some value =>
    simp only [Option.some_inj, exists_eq_left']
    cases text_eq : headerText value with
    | error reason =>
      have unreadable : ¬Readable value := by
        intro readable
        rw [headerText_eq_ok_iff.mpr ⟨rfl, readable.1⟩] at text_eq
        cases text_eq
      simp [unreadable, bind, Except.bind]
    | ok text =>
      obtain ⟨rfl, visible⟩ := headerText_eq_ok_iff.mp text_eq
      by_cases empty : Text.trim text = []
      · simp [Readable, empty, bind, Except.bind]
      · simp only [Readable, visible, empty, ne_eq, not_false_eq_true,
          and_self, true_and, bind, Except.bind, List.isEmpty_iff]
        exact ⟨fun same => (Except.ok.inj same).symm, fun same => congrArg Except.ok same.symm⟩

/-- The identity headers are both absent, or both present and readable. -/
def AcceptsIdentity (headers : Headers) : Prop :=
  (headers.get "x-cache-asset-id" = none ∧ headers.get "x-cache-asset-revision" = none) ∨
  ∃ id revision, headers.get "x-cache-asset-id" = some id ∧
    headers.get "x-cache-asset-revision" = some revision ∧
    Readable id ∧ Readable revision

/-- A cache key consists of the identity of the resource and, if the identity
headers are there, of their values. -/
theorem buildCacheKey_eq_ok_iff {key : Key} :
    buildCacheKey url headers = .ok key ↔ AcceptsIdentity headers ∧
      ∃ identity, canonicalUpstreamIdentity url = .ok identity ∧
        key.toList = Text.framed identity.toList ++ declared headers := by
  unfold buildCacheKey
  cases identified : canonicalUpstreamIdentity url with
  | error reason => simp [bind, Except.bind]
  | ok identity =>
    simp only [bind, Except.bind, Except.ok.injEq, exists_eq_left']
    cases id_eq : headers.get "x-cache-asset-id" with
    | none =>
      cases revision_eq : headers.get "x-cache-asset-revision" with
      | none =>
        have text_eq : Text.framed identity.toList ++ declared headers =
            (pushComponent "" identity).toList := by
          rw [declared, trimmed, trimmed, id_eq, revision_eq, pushComponent_text]
          exact List.append_nil _
        have accepts : AcceptsIdentity headers := .inl ⟨id_eq, revision_eq⟩
        rw [text_eq, String.toList_inj, and_iff_right accepts, eq_comm]
        exact ⟨Except.ok.inj, congrArg Except.ok⟩
      | some revision => simp [AcceptsIdentity, id_eq, revision_eq]
    | some id =>
      cases revision_eq : headers.get "x-cache-asset-revision" with
      | none => simp [AcceptsIdentity, id_eq, revision_eq]
      | some revision =>
        have accepts_iff : AcceptsIdentity headers ↔ Readable id ∧ Readable revision := by
          simp [AcceptsIdentity, id_eq, revision_eq]
        have text_eq : Text.framed identity.toList ++ declared headers =
            (pushComponent (pushComponent (pushComponent "" identity ++
              "|") (String.ofList (Text.trim id)) ++ "|")
              (String.ofList (Text.trim revision))).toList := by
          simp only [declared, trimmed, id_eq, revision_eq, Option.map_some, part,
            pushComponent_text, String.toList_append, String.toList_ofList, List.append_assoc]
          rfl
        rw [accepts_iff, text_eq, String.toList_inj]
        change (pushHeader headers _ _ _ >>= _) = _ ↔ _
        simp only [bind_eq_ok_iff, pushHeader_eq_ok_iff, id_eq, revision_eq, Option.some_inj,
          exists_eq_left', and_assoc, exists_and_left, exists_eq_left]

theorem exists_buildCacheKey (http : url.IsHttp) (accepts : AcceptsIdentity headers) :
    ∃ key, buildCacheKey url headers = .ok key := by
  obtain ⟨host, host_eq, _⟩ := http.host
  obtain ⟨identity, identified⟩ :
      ∃ identity, canonicalUpstreamIdentity url = .ok identity := by
    rw [canonicalUpstreamIdentity, host_eq]
    exact ⟨_, rfl⟩
  exact ⟨String.ofList (Text.framed identity.toList ++ declared headers),
    buildCacheKey_eq_ok_iff.mpr ⟨accepts, identity, identified, String.toList_ofList⟩⟩

/-- The headers are both absent or both present. -/
def Paired (headers : Headers) : Prop :=
  (trimmed headers "x-cache-asset-id" = none ∧ trimmed headers "x-cache-asset-revision" = none) ∨
  ∃ id revision, trimmed headers "x-cache-asset-id" = some id ∧
    trimmed headers "x-cache-asset-revision" = some revision

theorem AcceptsIdentity.paired (accepts : AcceptsIdentity headers) : Paired headers := by
  rcases accepts with ⟨noId, noRevision⟩ | ⟨id, revision, id_eq, revision_eq, _⟩
  · refine .inl ⟨?_, ?_⟩
    · rw [trimmed, noId, Option.map_none]
    · rw [trimmed, noRevision, Option.map_none]
  · refine .inr ⟨Text.trim id, Text.trim revision, ?_, ?_⟩
    · rw [trimmed, id_eq, Option.map_some]
    · rw [trimmed, revision_eq, Option.map_some]

theorem declared_eq_iff {first second : Headers} (firstPaired : Paired first)
    (secondPaired : Paired second) :
    declared first = declared second ↔
      trimmed first "x-cache-asset-id" = trimmed second "x-cache-asset-id" ∧
      trimmed first "x-cache-asset-revision" = trimmed second "x-cache-asset-revision" := by
  constructor
  · intro same
    rcases firstPaired with
      ⟨firstId, firstRevision⟩ | ⟨_, _, firstId, firstRevision⟩
    · rcases secondPaired with
        ⟨secondId, secondRevision⟩ | ⟨_, _, secondId, secondRevision⟩
      · rw [firstId, firstRevision, secondId, secondRevision]
        exact ⟨rfl, rfl⟩
      · rw [declared, declared, firstId, firstRevision, secondId] at same
        cases same
    · rcases secondPaired with
        ⟨secondId, secondRevision⟩ | ⟨_, _, secondId, secondRevision⟩
      · rw [declared, declared, firstId, secondId, secondRevision] at same
        cases same
      · rw [declared, declared, firstId, firstRevision, secondId, secondRevision] at same
        simp only [part, List.cons_append, List.cons.injEq, true_and,
          Text.framed_append_inj, Text.framed_inj] at same
        rw [firstId, firstRevision, secondId, secondRevision, same.1, same.2]
        exact ⟨rfl, rfl⟩
  · rintro ⟨sameId, sameRevision⟩
    rw [declared, declared, sameId, sameRevision]

/-- Requests have the same cache key exactly when they are for the same resource
and declare the same identity, or none. -/
theorem buildCacheKey_eq_iff {first second : ParsedUrl} {firstHeaders secondHeaders : Headers}
    {firstKey secondKey : Key} (firstHttp : first.IsHttp) (secondHttp : second.IsHttp)
    (firstBuilt : buildCacheKey first firstHeaders = .ok firstKey)
    (secondBuilt : buildCacheKey second secondHeaders = .ok secondKey) :
    firstKey = secondKey ↔ first.SameResource second ∧ trimmed firstHeaders "x-cache-asset-id" =
        trimmed secondHeaders "x-cache-asset-id" ∧
      trimmed firstHeaders "x-cache-asset-revision" =
        trimmed secondHeaders "x-cache-asset-revision" := by
  obtain ⟨firstAccepts, firstIdentity, firstIdentified, firstText⟩ :=
    buildCacheKey_eq_ok_iff.mp firstBuilt
  obtain ⟨secondAccepts, secondIdentity, secondIdentified, secondText⟩ :=
    buildCacheKey_eq_ok_iff.mp secondBuilt
  rw [← String.toList_inj, firstText, secondText, Text.framed_append_inj,
    String.toList_inj, declared_eq_iff firstAccepts.paired secondAccepts.paired,
    canonicalUpstreamIdentity_eq_iff firstHttp secondHttp firstIdentified secondIdentified]

/-- A separator in the declared id does not move it into the revision. -/
theorem buildCacheKey_eq_iff_separator :
    ∃ url firstHeaders secondHeaders firstKey secondKey, url.IsHttp ∧
      buildCacheKey url firstHeaders = .ok firstKey ∧
      buildCacheKey url secondHeaders = .ok secondKey ∧
      firstKey ≠ secondKey ∧
      trimmed firstHeaders "x-cache-asset-id" = some "a|1:b".toList ∧
      trimmed secondHeaders "x-cache-asset-id" = some "a".toList := by
  let url : ParsedUrl :=
    { scheme := "https", host := some "CDN.example", path := "/v.mp4" }
  let declaring (id revision : String) : Headers :=
    [("x-cache-asset-id", id.toList), ("x-cache-asset-revision", revision.toList)]
  have isHttp : url.IsHttp :=
    ⟨.inr rfl, ⟨_, rfl, isHost_of_all (by decide)⟩, by decide, ⟨"v.mp4".toList, by decide⟩⟩
  obtain ⟨firstKey, firstBuilt⟩ :
      ∃ key, buildCacheKey url (declaring " a|1:b" "c") = .ok key := ⟨_, rfl⟩
  obtain ⟨secondKey, secondBuilt⟩ :
      ∃ key, buildCacheKey url (declaring "a" "b|1:c") = .ok key := ⟨_, rfl⟩
  refine ⟨url, _, _, firstKey, secondKey, isHttp, firstBuilt, secondBuilt,
    fun same => ?_, by decide, by decide⟩
  obtain ⟨_, id_eq, _⟩ := (buildCacheKey_eq_iff isHttp isHttp firstBuilt secondBuilt).mp same
  revert id_eq
  decide

end DataRequest
end VideoProxy
