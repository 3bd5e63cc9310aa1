import VideoProxy.Lib.Mutex
import VideoProxy.Lib.Transition
import VideoProxy.SourceRegistry

/-!
# Concurrent refreshes of registered sources

Calls of `refresh_from_provider_if_current` run beside each other and beside
`refresh`, `remove` and `clear`.  The module splits them where they touch what
other calls can see: the entries, the table of locks, and the locks themselves.
The provider is called while the lock of the id is held, and may return anything.

A call compares the URL with the one it expects before the provider is called,
and stores the new URL afterwards.  The lock keeps other such calls out in the
meantime, but not an explicit `refresh`.
-/

namespace VideoProxy
namespace SourceRefresh

/-- Where a call is: each place is named by what the call does next. -/
inductive Place
  | unstarted
  | checking (id : Nat) (expected : Text)
  | fetching (id : Nat) (expected : Text)
  | waiting (id : Nat) (expected : Text) (lock : Nat)
  | comparing (id : Nat) (expected : Text) (lock : Nat)
  | asking (id : Nat) (expected : Text) (lock : Nat)
  | storing (id : Nat) (expected : Text) (lock : Nat) (url : Text)
  | dropping (id : Nat)
  | droppingAll
  | returned (result : Except ProxyError Unit)

namespace Place

/-- The lock that a call holds. -/
def held : Place → Option Nat
  | .comparing _ _ lock | .asking _ _ lock | .storing _ _ lock _ => some lock
  | _ => none

/-- The id that a call has the lock of, and this lock. -/
def uses : Place → Option (Nat × Nat)
  | .waiting id _ lock | .comparing id _ lock | .asking id _ lock
  | .storing id _ lock _ => some (id, lock)
  | _ => none

/-- The id and the URL of a call that has compared and not yet stored. -/
def pending : Place → Option (Nat × Text)
  | .asking id expected _ | .storing id expected _ _ => some (id, expected)
  | _ => none

/-- The call is about to remove the lock of the id. -/
def Drops : Place → Nat → Prop
  | .dropping id, other => id = other
  | .droppingAll, _ => True
  | _, _ => False

end Place

/-- The registry, the table of locks, the locks and the calls. -/
structure State where
  registry : SourceRegistry
  /-- `refresh_locks`. -/
  locks : AList fun _ : Nat => Nat
  issued : Nat
  holder : Nat → Option Nat
  calls : Nat → Place

/-- What can happen next. -/
inductive Action
  | refreshIfCurrent (call id : Nat) (expected : Text)
  | advance (call : Nat)
  | answer (call : Nat) (outcome : Except ProxyError Text)
  | refresh (id : Nat) (url : Text)
  | remove (call id : Nat)
  | clear (call : Nat)

namespace State

/-- Nothing runs yet. -/
def start (registry : SourceRegistry) : State where
  registry := registry
  locks := ∅
  issued := 0
  holder _ := none
  calls _ := .unstarted

/-- A call goes on. -/
def move (state : State) (call : Nat) (place : Place) : State :=
  { state with calls := Function.update state.calls call place }

/-- A call that holds a lock returns. -/
def finish (state : State) (call lock : Nat) (result : Except ProxyError Unit) : State :=
  { state with
    holder := Function.update state.holder lock none
    calls := Function.update state.calls call (.returned result) }

/-- The next step of a call. -/
def advance (parse : Text → Option ParsedUrl) (call : Nat) (state : State) : Option State :=
  match state.calls call with
  | .checking id expected =>
    if (state.registry.resolve id).isNone then
      some (state.move call (.returned (.error (.request "来源 ID 不存在"))))
    else some (state.move call (.fetching id expected))
  | .fetching id expected =>
    match state.locks.lookup id with
    | some lock => some (state.move call (.waiting id expected lock))
    | none =>
      let lock := state.issued
      some ({ state with
        locks := state.locks.insert id lock
        issued := lock + 1 }.move call (.waiting id expected lock))
  | .waiting id expected lock =>
    match state.holder lock with
    | some _ => none
    | none =>
      some ({ state with
        holder := Function.update state.holder lock (some call) }.move call
          (.comparing id expected lock))
  | .comparing id expected lock =>
    if (state.registry.resolve id).any (·.url ≠ expected) then
      some (state.finish call lock (.ok ()))
    else some (state.move call (.asking id expected lock))
  | .asking _ _ lock =>
    match state.registry.refreshProvider with
    | none =>
      some (state.finish call lock (.error (.request "来源刷新器未配置")))
    | some _ => none
  | .storing id _ lock url =>
    match state.registry.refresh parse id url with
    | .ok registry =>
      some ({ state with registry }.finish call lock (.ok ()))
    | .error reason => some (state.finish call lock (.error reason))
  | .dropping id =>
    some ({ state with locks := state.locks.erase id }.move call (.returned (.ok ())))
  | .droppingAll =>
    some ({ state with locks := ∅ }.move call (.returned (.ok ())))
  | .unstarted | .returned _ => none

/-- One step. -/
def step (parse : Text → Option ParsedUrl) (action : Action) (state : State) : Option State :=
  match action with
  | .refreshIfCurrent call id expected =>
    match state.calls call with
    | .unstarted => some (state.move call (.checking id expected))
    | _ => none
  | .advance call => state.advance parse call
  | .answer call outcome =>
    match state.calls call, state.registry.refreshProvider with
    | .asking id expected lock, some _ =>
      match outcome with
      | .ok url => some (state.move call (.storing id expected lock url))
      | .error reason => some (state.finish call lock (.error reason))
    | _, _ => none
  | .refresh id url =>
    match state.registry.refresh parse id url with
    | .ok registry => some { state with registry }
    | .error _ => some state
  | .remove call id =>
    match state.calls call with
    | .unstarted =>
      if (state.registry.resolve id).isNone then
        some (state.move call (.returned (.ok ())))
      else
        let registry := { state.registry with
          entries := state.registry.entries.erase id }
        some ({ state with registry }.move call (.dropping id))
    | _ => none
  | .clear call =>
    match state.calls call with
    | .unstarted =>
      let registry := { state.registry with entries := ∅ }
      some ({ state with registry }.move call .droppingAll)
    | _ => none

end State

open State

/-! ## What the steps keep -/

/-- An explicit refresh comes when no call has compared the URL and not yet stored
a new one. -/
def Undisturbed : Action → State → Prop
  | .refresh id _, state =>
    ∀ call expected, (state.calls call).pending ≠ some (id, expected)
  | _, _ => True

/-- Sources that are there after a step were there before. -/
def Shrinks (before after : SourceRegistry) : Prop :=
  ∀ id, (after.resolve id).isSome → (before.resolve id).isSome

variable {after registry : SourceRegistry} {id call : Nat} {before state : State} {place : Place}
  {expected url : Text} {parse : Text → Option ParsedUrl}

theorem Shrinks.eq_none {before : SourceRegistry} (shrinks : Shrinks before after)
    (gone : before.resolve id = none) :
    after.resolve id = none := by
  rw [← Option.not_isSome_iff_eq_none] at gone ⊢
  exact fun there => gone (shrinks id there)

/-- A URL that was compared is still the current one. -/
def Current (registry : SourceRegistry) (place : Place) : Prop :=
  ∀ id expected source, place.pending = some (id, expected) →
    registry.resolve id = some source → source.url = expected

/-- The locks are in order, and what was compared is current. -/
structure Orderly (state : State) : Prop where
  fits : ∀ lock, Mutex.Fits (fun place => place.held = some lock) (state.holder lock) state.calls
  locked : ∀ call id lock, (state.calls call).uses = some (id, lock) →
    (state.registry.resolve id).isSome → state.locks.lookup id = some lock
  dropped : ∀ call id, (state.calls call).Drops id → state.registry.resolve id = none
  current : ∀ call, Current state.registry (state.calls call)

theorem start_orderly (registry : SourceRegistry) : Orderly (start registry) := by
  refine ⟨fun lock task => ?_, nofun, nofun, nofun⟩
  simp [start, Place.held]

/-- What a step has to show of the call that moves, and of what it changes for the
others. -/
theorem Orderly.moves {after : State} (orderly : Orderly before)
    (calls_eq : after.calls = Function.update before.calls call place)
    (handover : ∀ lock, Mutex.Handover call (before.holder lock)
      (after.holder lock) ((before.calls call).held = some lock)
      (place.held = some lock))
    (shrinks : Shrinks before.registry after.registry)
    (kept : ∀ id lock, (after.registry.resolve id).isSome →
      before.locks.lookup id = some lock → after.locks.lookup id = some lock)
    (locked : ∀ id lock, place.uses = some (id, lock) →
      (after.registry.resolve id).isSome → after.locks.lookup id = some lock)
    (dropped : ∀ id, place.Drops id → after.registry.resolve id = none)
    (current : Current after.registry place)
    (others : ∀ other, other ≠ call → Current after.registry (before.calls other)) :
    Orderly after := by
  refine ⟨fun lock => ?_, fun other id lock uses there => ?_,
    fun other id drops => ?_, fun other => ?_⟩
  · rw [calls_eq]
    exact (orderly.fits lock).move (handover lock)
  · rw [calls_eq] at uses
    by_cases same : other = call
    · rw [same, Function.update_self] at uses
      exact locked id lock uses there
    · rw [Function.update_of_ne same] at uses
      exact kept id lock there (orderly.locked other id lock uses (shrinks id there))
  · rw [calls_eq] at drops
    by_cases same : other = call
    · rw [same, Function.update_self] at drops
      exact dropped id drops
    · rw [Function.update_of_ne same] at drops
      exact shrinks.eq_none (orderly.dropped other id drops)
  · rw [calls_eq]
    by_cases same : other = call
    · rw [same, Function.update_self]
      exact current
    · rw [Function.update_of_ne same]
      exact others other same

theorem unlocked_of_none (idle : place.uses = none) (id lock : Nat)
    (uses : place.uses = some (id, lock)) (_there : (state.registry.resolve id).isSome) :
    state.locks.lookup id = some lock := by
  rw [idle] at uses
  cases uses

theorem current_of_none (silent : place.pending = none) : Current registry place := by
  intro id expected source pending
  rw [silent] at pending
  cases pending

theorem Orderly.move (orderly : Orderly state) (held : place.held = (state.calls call).held)
    (locked : ∀ id lock, place.uses = some (id, lock) →
      (state.registry.resolve id).isSome → state.locks.lookup id = some lock)
    (dropped : ∀ id, ¬place.Drops id) (current : Current state.registry place) :
    Orderly (state.move call place) := by
  refine orderly.moves rfl (fun lock => ?_) (fun _ there => there)
    (fun _ _ _ found => found) locked (fun id drops => absurd drops (dropped id))
    current fun other _ => orderly.current other
  rw [held]
  exact Mutex.Handover.keep _

/-- A call goes on without locks. -/
theorem Orderly.idle {old : Place} (orderly : Orderly state) (place_eq : state.calls call = old)
    (held : place.held = old.held) (unused : place.uses = none) (dropped : ∀ id, ¬place.Drops id)
    (silent : place.pending = none) :
    Orderly (state.move call place) :=
  orderly.move (by rw [held, place_eq]) (unlocked_of_none unused) dropped (current_of_none silent)

theorem Orderly.finish {lock : Nat}
    (orderly : Orderly state) (held : (state.calls call).held = some lock)
    (shrinks : Shrinks state.registry registry)
    (others : ∀ other, other ≠ call → Current registry (state.calls other))
    (result : Except ProxyError Unit) :
    Orderly ({ state with registry }.finish call lock result) := by
  refine orderly.moves rfl (fun other => ?_) shrinks (fun _ _ _ found => found)
    (unlocked_of_none rfl) (fun _ drops => drops.elim) (current_of_none rfl) others
  rw [held]
  by_cases same : other = lock
  · simp [same, State.finish, Mutex.Handover, Place.held]
  · have different : lock ≠ other := fun equal => same equal.symm
    simp [same, different, State.finish, Mutex.Handover, Place.held]

theorem Orderly.stop {lock : Nat} (orderly : Orderly state)
    (held : (state.calls call).held = some lock) (result : Except ProxyError Unit) :
    Orderly (state.finish call lock result) :=
  orderly.finish held (fun _ there => there) (fun other _ => orderly.current other) result

/-- A call removes locks of ids that are gone, and returns. -/
theorem Orderly.drops {locks : AList fun _ : Nat => Nat} (orderly : Orderly state)
    (held : (state.calls call).held = none)
    (kept : ∀ id, (state.registry.resolve id).isSome → locks.lookup id = state.locks.lookup id) :
    Orderly ({ state with locks }.move call (.returned (.ok ()))) := by
  refine orderly.moves rfl (fun lock => ?_) (fun _ there => there)
    (fun other lock there found => (kept other there).trans found) (unlocked_of_none rfl)
    (fun _ drops => drops.elim) (current_of_none rfl) fun other _ => orderly.current other
  rw [held]
  exact Mutex.Handover.keep _

theorem Place.held_of_pending (pending : place.pending = some (id, expected)) :
    ∃ lock, place.uses = some (id, lock) ∧ place.held = some lock := by
  cases place with
  | asking _ _ lock =>
    cases pending
    exact ⟨lock, rfl, rfl⟩
  | storing _ _ lock _ =>
    cases pending
    exact ⟨lock, rfl, rfl⟩
  | _ => cases pending

theorem Orderly.pending_unique {other : Nat} {otherExpected : Text}
    (orderly : Orderly state) (there : (state.registry.resolve id).isSome)
    (pending : (state.calls call).pending = some (id, expected))
    (otherPending : (state.calls other).pending = some (id, otherExpected)) :
    other = call := by
  obtain ⟨lock, uses, held⟩ := Place.held_of_pending pending
  obtain ⟨otherLock, otherUses, otherHeld⟩ := Place.held_of_pending otherPending
  have found := orderly.locked call id lock uses there
  rw [orderly.locked other id otherLock otherUses there] at found
  cases found
  exact (orderly.fits lock).eq_of_holds (decide_eq_true held) (decide_eq_true otherHeld)

theorem resolve_of_refresh (refreshed : registry.refresh parse id url = .ok after) :
    (registry.resolve id).isSome ∧
      ∀ other, other ≠ id → after.resolve other = registry.resolve other := by
  obtain ⟨valid, _, refreshed⟩ := exists_of_except_ok refreshed
  cases found : registry.entries.lookup id with
  | none =>
    rw [found] at refreshed
    cases refreshed
  | some source =>
    rw [found] at refreshed
    cases refreshed
    refine ⟨by rw [SourceRegistry.resolve, found]; rfl, fun other different => ?_⟩
    exact AList.lookup_insert_ne different

theorem installs_of_refresh (refreshed : registry.refresh parse id url = .ok after) :
    ∃ source, registry.resolve id = some source ∧ after.resolve id = some { source with url } := by
  obtain ⟨valid, validated, refreshed⟩ := exists_of_except_ok refreshed
  have same : valid = url := SourceRegistry.validateSourceUrl_eq validated
  cases found : registry.entries.lookup id with
  | none =>
    rw [found] at refreshed
    cases refreshed
  | some source =>
    rw [found] at refreshed
    cases refreshed
    refine ⟨source, found, ?_⟩
    rw [SourceRegistry.resolve, AList.lookup_insert, same]

theorem shrinks_of_refresh (refreshed : registry.refresh parse id url = .ok after) :
    Shrinks registry after := by
  obtain ⟨there, same⟩ := resolve_of_refresh refreshed
  intro other found
  by_cases equal : other = id
  · rw [equal]
    exact there
  · rwa [same other equal] at found

theorem Orderly.others_of_refresh (orderly : Orderly state)
    (pending : (state.calls call).pending = some (id, expected))
    (refreshed : state.registry.refresh parse id url = .ok after) :
    ∀ other, other ≠ call → Current after (state.calls other) := by
  obtain ⟨there, same⟩ := resolve_of_refresh refreshed
  intro other different otherId otherExpected source otherPending resolved
  by_cases equal : otherId = id
  · rw [equal] at otherPending
    exact absurd (orderly.pending_unique there pending otherPending) different
  · rw [same otherId equal] at resolved
    exact orderly.current other otherId otherExpected source otherPending resolved

theorem advance_orderly {after : State}
    (orderly : Orderly before) (moves : before.advance parse call = some after) :
    Orderly after := by
  unfold State.advance at moves
  split at moves
  · rename_i id expected place_eq
    split at moves
    all_goals
      cases moves
      exact orderly.idle place_eq rfl rfl (fun _ drops => drops) rfl
  · rename_i id expected place_eq
    split at moves
    · rename_i lock found
      cases moves
      refine orderly.move (by rw [place_eq]; rfl) ?_ (fun _ drops => drops) (current_of_none rfl)
      rintro _ _ ⟨⟩ _
      exact found
    · rename_i absent
      cases moves
      refine orderly.moves rfl (fun lock => ?_) (fun _ there => there)
        (fun other lock _ found => ?_) ?_ (fun _ drops => drops.elim)
        (current_of_none rfl) fun other _ => orderly.current other
      · rw [place_eq]
        exact Mutex.Handover.keep _
      · have different : other ≠ id := by
          rintro rfl
          rw [absent] at found
          cases found
        exact (AList.lookup_insert_ne different).trans found
      · rintro _ _ ⟨⟩ _
        exact AList.lookup_insert _
  · rename_i id expected lock place_eq
    split at moves
    · cases moves
    · rename_i free
      cases moves
      refine orderly.moves rfl (fun other => ?_) (fun _ there => there)
        (fun _ _ _ found => found) ?_ (fun _ drops => drops.elim)
        (current_of_none rfl) fun other _ => orderly.current other
      · rw [place_eq]
        by_cases same : other = lock
        · simp [same, free, State.move, Mutex.Handover, Place.held]
        · have different : lock ≠ other := fun equal => same equal.symm
          simp [same, different, State.move, Mutex.Handover, Place.held]
      · rintro _ _ ⟨⟩ there
        exact orderly.locked call id lock (by rw [place_eq]; rfl) there
  · rename_i id expected lock place_eq
    have held : (before.calls call).held = some lock := by rw [place_eq]; rfl
    split at moves
    · cases moves
      exact orderly.stop held _
    · rename_i same
      cases moves
      refine orderly.move held.symm ?_ (fun _ drops => drops) ?_
      · rintro _ _ ⟨⟩ there
        exact orderly.locked call id lock (by rw [place_eq]; rfl) there
      · rintro _ _ source ⟨⟩ resolved
        rw [resolved] at same
        simpa using same
  · rename_i lock place_eq
    split at moves
    · cases moves
      exact orderly.stop (by rw [place_eq]; rfl) _
    · cases moves
  · rename_i id expected lock url place_eq
    have held : (before.calls call).held = some lock := by rw [place_eq]; rfl
    split at moves
    · rename_i registry refreshed
      cases moves
      exact orderly.finish held (shrinks_of_refresh refreshed)
        (orderly.others_of_refresh (by rw [place_eq]; rfl) refreshed) _
    · cases moves
      exact orderly.stop held _
  · rename_i id place_eq
    cases moves
    have gone : before.registry.resolve id = none :=
      orderly.dropped call id (by rw [place_eq]; rfl)
    refine orderly.drops (by rw [place_eq]; rfl) fun other there => AList.lookup_erase_ne ?_
    rintro rfl
    rw [gone] at there
    cases there
  · rename_i place_eq
    cases moves
    refine orderly.drops (by rw [place_eq]; rfl) fun other there => ?_
    rw [orderly.dropped call other (by rw [place_eq]; trivial)] at there
    cases there
  · cases moves
  · cases moves

/-- Sources are removed, and the call goes on to remove their locks. -/
theorem Orderly.removes (orderly : Orderly state) (held : (state.calls call).held = none)
    (drops : place.held = none ∧ place.uses = none ∧ place.pending = none)
    (remains : ∀ id source, registry.resolve id = some source →
      state.registry.resolve id = some source)
    (dropped : ∀ id, place.Drops id → registry.resolve id = none) :
    Orderly ({ state with registry }.move call place) := by
  obtain ⟨holdsNone, usesNone, pendingNone⟩ := drops
  refine orderly.moves rfl (fun lock => ?_) (fun id there => ?_)
    (fun _ _ _ found => found) ?_ dropped ?_ fun other _ => ?_
  · rw [held, holdsNone]
    exact Mutex.Handover.keep _
  · obtain ⟨source, found⟩ := Option.isSome_iff_exists.mp there
    rw [remains id source found]
    rfl
  · intro id lock uses
    rw [usesNone] at uses
    cases uses
  · intro id expected source pending
    rw [pendingNone] at pending
    cases pending
  · intro id expected source pending found
    exact orderly.current other id expected source pending (remains id source found)

theorem step_orderly {action : Action} {after : State}
    (orderly : Orderly before) (undisturbed : Undisturbed action before)
    (moves : step parse action before = some after) :
    Orderly after := by
  cases action with
  | advance call => exact advance_orderly orderly moves
  | refreshIfCurrent call id expected =>
    simp only [State.step] at moves
    split at moves
    · rename_i unstarted
      cases moves
      exact orderly.idle unstarted rfl rfl (fun _ drops => drops) rfl
    · cases moves
  | answer call outcome =>
    simp only [State.step] at moves
    split at moves
    · rename_i id expected lock _ place_eq _
      have held : (before.calls call).held = some lock := by rw [place_eq]; rfl
      split at moves
      · cases moves
        refine orderly.move held.symm ?_ (fun _ drops => drops) ?_
        · rintro _ _ ⟨⟩ there
          exact orderly.locked call id lock (by rw [place_eq]; rfl) there
        · rintro _ _ source ⟨⟩ resolved
          exact orderly.current call id expected source (by rw [place_eq]; rfl) resolved
      · cases moves
        exact orderly.stop held _
    · cases moves
  | refresh id url =>
    simp only [State.step] at moves
    split at moves
    · rename_i registry refreshed
      cases moves
      obtain ⟨_, same⟩ := resolve_of_refresh refreshed
      refine ⟨orderly.fits, fun call other lock uses there =>
        orderly.locked call other lock uses (shrinks_of_refresh refreshed other there), ?_, ?_⟩
      · intro call other drops
        exact (shrinks_of_refresh refreshed).eq_none (orderly.dropped call other drops)
      · intro call other expected source pending resolved
        have different : other ≠ id := by
          rintro rfl
          exact undisturbed call expected pending
        rw [same other different] at resolved
        exact orderly.current call other expected source pending resolved
    · cases moves
      exact orderly
  | remove call id =>
    simp only [State.step] at moves
    split at moves
    · rename_i unstarted
      split at moves
      · cases moves
        exact orderly.idle unstarted rfl rfl (fun _ drops => drops) rfl
      · cases moves
        refine orderly.removes (by rw [unstarted]; rfl) ⟨rfl, rfl, rfl⟩
          (fun other source found => ?_) ?_
        · by_cases same : other = id
          · rw [same, SourceRegistry.resolve, AList.lookup_erase] at found
            cases found
          · rwa [SourceRegistry.resolve, AList.lookup_erase_ne same] at found
        · rintro _ ⟨⟩
          exact AList.lookup_erase _ _
    · cases moves
  | clear call =>
    simp only [State.step] at moves
    split at moves
    · rename_i unstarted
      cases moves
      refine orderly.removes (by rw [unstarted]; rfl) ⟨rfl, rfl, rfl⟩
        (fun _ _ found => ?_) fun _ _ => rfl
      cases found
    · cases moves

/-! ## The URL that is replaced -/

/-- If explicit refreshes come only when no call has compared the URL and not yet
stored, a call replaces the URL that it expects. -/
theorem store_replaces_expected {parse : Text → Option ParsedUrl} {registry : SourceRegistry}
    {state after : State} {call id lock : Nat} {expected url : Text}
    (reached : Reaches (step parse) Undisturbed (start registry) state)
    (place_eq : state.calls call = .storing id expected lock url)
    (moves : step parse (.advance call) state = some after)
    (stored : after.calls call = .returned (.ok ())) :
    ∃ source, state.registry.resolve id = some source ∧ source.url = expected ∧
      after.registry.resolve id = some { source with url } := by
  have orderly : Orderly state :=
    reached.invariant Orderly (start_orderly registry) fun _ _ _ =>
      step_orderly
  change state.advance parse call = some after at moves
  rw [State.advance, place_eq] at moves
  dsimp only at moves
  cases refreshed : state.registry.refresh parse id url with
  | error reason =>
    rw [refreshed] at moves
    cases moves
    change Function.update state.calls call _ call = _ at stored
    rw [Function.update_self] at stored
    cases stored
  | ok newer =>
    rw [refreshed] at moves
    cases moves
    obtain ⟨source, resolved, installed⟩ := installs_of_refresh refreshed
    exact ⟨source, resolved, orderly.current call id expected source
      (by rw [place_eq]; rfl) resolved, installed⟩

/-- A registry with one source, and a provider with a new URL for it. -/
def signed : SourceRegistry where
  entries := (∅ : AList fun _ : Nat => RegisteredSource).insert 1
    { identity := "asset".toList, url := "https://h/a?1".toList }
  refreshProvider := some fun _ => .ok "https://h/a?2".toList

/-- A parser that accepts everything. -/
def parseAny (_ : Text) : Option ParsedUrl :=
  some { scheme := "https", host := some "h", path := "/a" }

/-- A call for the source, up to the answer of the provider. -/
def askProvider : List Action :=
  [.refreshIfCurrent 0 1 "https://h/a?1".toList, .advance 0, .advance 0, .advance 0, .advance 0]

/-- A second call for the source waits for the lock of the first, whose provider
fails, and asks in its turn. -/
def askInTurn : List Action :=
  [.refreshIfCurrent 0 1 "https://h/a?1".toList, .refreshIfCurrent 1 1 "https://h/a?1".toList,
    .advance 0, .advance 1, .advance 0, .advance 1, .advance 0, .advance 0,
    .answer 0 (.error (.network "timed out")), .advance 1, .advance 1,
    .answer 1 (.ok "https://h/a?2".toList)]

/-- The URL that the provider gave to the second call replaces the one that was
compared. -/
theorem store_replaces_expected_signed :
    ∃ state after source, Reaches (step parseAny) Undisturbed (start signed) state ∧
      state.calls 1 = .storing 1 "https://h/a?1".toList 0 "https://h/a?2".toList ∧
      step parseAny (.advance 1) state = some after ∧
      state.registry.resolve 1 = some source ∧
      source.url = "https://h/a?1".toList ∧
      after.registry.resolve 1 = some { source with url := "https://h/a?2".toList } := by
  have runs : runActions (step parseAny) askInTurn (start signed) = some _ := rfl
  have admits : AdmitsAll (step parseAny) Undisturbed askInTurn (start signed) :=
    ⟨trivial, trivial, trivial, trivial, trivial, trivial, trivial, trivial, trivial, trivial,
      trivial, trivial, trivial⟩
  obtain ⟨state, after, reached, place_eq, moves, stored⟩ : ∃ state after,
      Reaches (step parseAny) Undisturbed (start signed) state ∧
      state.calls 1 = .storing 1 "https://h/a?1".toList 0 "https://h/a?2".toList ∧
      step parseAny (.advance 1) state = some after ∧
      after.calls 1 = .returned (.ok ()) :=
    ⟨_, _, Reaches.refl.runActions admits runs, rfl, rfl, rfl⟩
  obtain ⟨source, replaced⟩ :=
    store_replaces_expected reached place_eq moves stored
  exact ⟨state, after, source, reached, place_eq, moves, replaced⟩

/-- A URL that was set during the call of the provider is replaced. -/
theorem explicit_refresh_lost :
    ∃ state after, Reaches (step parseAny) (fun _ _ => True) (start signed) state ∧
      state.calls 0 = .storing 1 "https://h/a?1".toList 0 "https://h/a?2".toList ∧
      (state.registry.resolve 1).map RegisteredSource.url = some "https://h/a?3".toList ∧
      step parseAny (.advance 0) state = some after ∧
      (after.registry.resolve 1).map RegisteredSource.url = some "https://h/a?2".toList := by
  have runs : runActions (step parseAny) (askProvider ++ [.refresh 1 "https://h/a?3".toList,
        .answer 0 (.ok "https://h/a?2".toList)]) (start signed) = some _ := rfl
  exact ⟨_, _, Reaches.refl.runActions (admitsAll_true _ _) runs, rfl, rfl, rfl, rfl⟩

end SourceRefresh
end VideoProxy
