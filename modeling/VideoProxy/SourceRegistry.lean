import Mathlib.Data.List.AList
import VideoProxy.Lib.Faulty
import VideoProxy.Lib.Text
import VideoProxy.Utils.Error

/-!
# Registered sources

`SourceRegistry` maps opaque numbers to the signed URLs of media sources.  A URL
that has expired is replaced by the one that a provider returns.

Parsing a URL is left to a library; only the parts that the proxy looks at are
modelled.
-/

namespace VideoProxy

/-- The parts of a parsed URL. -/
structure ParsedUrl where
  scheme : String
  username : String := ""
  password : Option String := none
  host : Option String
  port : Option Nat := none
  path : String

/-- `RegisteredSource`. -/
structure RegisteredSource where
  identity : Text
  url : Text

/-- The state of a `SourceRegistry` that requests depend on. -/
structure SourceRegistry where
  entries : AList fun _ : Nat => RegisteredSource
  refreshProvider : Option (Nat → Except ProxyError Text)

namespace SourceRegistry

/-- `MAX_SOURCE_URL_LENGTH`. -/
def maxSourceUrlLength : Nat := 16 * 1024

/-- `validate_source_url`. -/
def validateSourceUrl (parse : Text → Option ParsedUrl) (value : Text) : Except ProxyError Text :=
  if (String.ofList value).utf8ByteSize > maxSourceUrlLength ∨ Char.ofNat 0 ∈ value then
    .error (.request "来源 URL 无效")
  else
    match parse value with
    | none => .error (.request "来源 URL 无效")
    | some parsed =>
      if (parsed.scheme ≠ "http" ∧ parsed.scheme ≠ "https") ∨
          parsed.username ≠ "" ∨ parsed.password.isSome ∨
          parsed.host.isNone then
        .error (.request "来源 URL 必须是无凭据的 HTTP(S) 地址")
      else .ok value

theorem validateSourceUrl_eq {parse : Text → Option ParsedUrl} {url accepted : Text}
    (validated : validateSourceUrl parse url = .ok accepted) :
    accepted = url := by
  unfold validateSourceUrl at validated
  split at validated
  · cases validated
  · split at validated
    · cases validated
    · split at validated
      · cases validated
      · exact (Except.ok.inj validated).symm

/-- `validate_component`. -/
def validateComponent (value : Text) (label : String) :
    Except ProxyError Text :=
  let value := Text.trim value
  if value.isEmpty ∨ (String.ofList value).utf8ByteSize > 512 ∨ Char.ofNat 0 ∈ value then
    .error (.request (label ++ "无效"))
  else .ok value

/-- `SourceRegistry::resolve`. -/
def resolve (registry : SourceRegistry) (id : Nat) : Option RegisteredSource :=
  registry.entries.lookup id

/-- `SourceRegistry::refresh`. -/
def refresh (parse : Text → Option ParsedUrl) (registry : SourceRegistry) (id : Nat)
    (url : Text) : Except ProxyError SourceRegistry := do
  let url ← validateSourceUrl parse url
  match registry.entries.lookup id with
  | none => throw (.request "来源 ID 不存在")
  | some source =>
    pure { registry with
      entries := registry.entries.insert id { source with url := url } }

/-- `SourceRegistry::refresh_from_provider_if_current`. -/
def refreshFromProviderIfCurrent (parse : Text → Option ParsedUrl) (registry : SourceRegistry)
    (id : Nat) (expectedUrl : Text) : Except ProxyError SourceRegistry :=
  match registry.resolve id with
  | none => .error (.request "来源 ID 不存在")
  | some source =>
    if source.url ≠ expectedUrl then .ok registry
    else
      match registry.refreshProvider with
      | none => .error (.request "来源刷新器未配置")
      | some provider => do
          let url ← provider id
          registry.refresh parse id url

end SourceRegistry

/-! ## Registration -/

/-- A `SourceRegistry` with its counter of ids. -/
structure NumberedRegistry extends SourceRegistry where
  nextId : Nat

namespace NumberedRegistry

open SourceRegistry

/-- `MAX_REGISTERED_SOURCES`. -/
def maxRegisteredSources : Nat := 10000

/-- `SourceRegistry::register_or_reuse`. -/
def registerOrReuse (parse : Text → Option ParsedUrl)
    (identity url : Text) : Faulty NumberedRegistry ProxyError Nat :=
  fun registry =>
    match validateComponent identity "媒体身份" with
    | .error reason => (.error reason, registry)
    | .ok identity =>
      match validateSourceUrl parse url with
      | .error reason => (.error reason, registry)
      | .ok url =>
        match registry.entries.entries.find? fun entry =>
            entry.2.identity = identity ∧ entry.2.url = url with
        | some entry => (.ok entry.1, registry)
        | none =>
          if maxRegisteredSources ≤ registry.entries.entries.length then
            (.error (.request "来源注册表已达到容量上限"), registry)
          else
            match followingId registry.nextId with
            | none => (.error (.request "来源 ID 已耗尽"), registry)
            | some nextId =>
              (.ok registry.nextId, { registry with
                entries := registry.entries.insert registry.nextId
                  { identity, url }
                nextId })

/-- `SourceRegistry::default`. -/
def new : NumberedRegistry :=
  { entries := ∅, refreshProvider := none, nextId := 1 }

/-- There is room for more sources: the table does not fill up, and the ids that
come next are not in use. -/
structure Roomy (registry : NumberedRegistry) (count : Nat) : Prop where
  capacity : registry.entries.entries.length + count ≤ maxRegisteredSources
  unused : ∀ id, registry.nextId ≤ id → id < registry.nextId + count → registry.resolve id = none
  positive : 0 < registry.nextId
  ids : registry.nextId + count < 2 ^ 64

/-- Sources that are registered stay so. -/
def Extends (registry after : NumberedRegistry) : Prop :=
  ∀ id source, registry.resolve id = some source → after.resolve id = some source

theorem Roomy.mono {registry : NumberedRegistry} {count less : Nat} (roomy : registry.Roomy count)
    (le : less ≤ count) :
    registry.Roomy less := by
  obtain ⟨capacity, unused, positive, ids⟩ := roomy
  exact ⟨by omega, fun id from_ below => unused id from_ (by omega), positive, by omega⟩

/-- A source that is accepted is registered, if there is room. -/
theorem registerOrReuse_resolves {parse : Text → Option ParsedUrl} {identity url : Text}
    {registry : NumberedRegistry} {count : Nat}
    (named : validateComponent identity "媒体身份" = .ok identity)
    (accepted : validateSourceUrl parse url = .ok url) (roomy : registry.Roomy (count + 1)) :
    ∃ id after, registerOrReuse parse identity url registry = (.ok id, after) ∧
      after.resolve id = some { identity, url } ∧
      after.Roomy count ∧ registry.Extends after := by
  unfold registerOrReuse
  simp only [named, accepted]
  cases found : registry.entries.entries.find? fun entry =>
      entry.2.identity = identity ∧ entry.2.url = url with
  | some entry =>
    obtain ⟨id, source⟩ := entry
    have matching := List.find?_some found
    obtain ⟨rfl, rfl⟩ := of_decide_eq_true matching
    have listed := AList.mem_lookup_iff.mpr (List.mem_of_find?_eq_some found)
    exact ⟨id, registry, rfl, listed, roomy.mono (Nat.le_succ count), fun _ _ resolved => resolved⟩
  | none =>
    obtain ⟨capacity, unused, positive, ids⟩ := roomy
    have room : ¬maxRegisteredSources ≤ registry.entries.entries.length := by
      omega
    have following : followingId registry.nextId = some (registry.nextId + 1) :=
      followingId_of_lt positive (by omega)
    have free : registry.resolve registry.nextId = none :=
      unused registry.nextId (Nat.le_refl _) (by omega)
    simp only [if_neg room, following]
    refine ⟨registry.nextId, _, rfl, AList.lookup_insert _,
      ⟨?_, fun id from_ below => ?_, Nat.succ_pos _, ?_⟩,
      fun id source resolved => ?_⟩
    · rw [AList.entries_insert_of_notMem (AList.lookup_eq_none.mp free), List.length_cons]
      omega
    · change registry.nextId + 1 ≤ id at from_
      change id < registry.nextId + 1 + count at below
      rw [SourceRegistry.resolve, AList.lookup_insert_ne (by omega)]
      exact unused id (by omega) (by omega)
    · change registry.nextId + 1 + count < 2 ^ 64
      omega
    · have other : id ≠ registry.nextId := by
        rintro rfl
        rw [free] at resolved
        cases resolved
      rw [SourceRegistry.resolve, AList.lookup_insert_ne other]
      exact resolved

end NumberedRegistry
end VideoProxy
