import VideoProxy.Lib.SharedLock
import VideoProxy.Lib.Transition
import VideoProxy.Lib.Watch

/-!
# Requests for the same range

`SingleFlight` lets one of several requests for the same range go upstream.  The
first one to join leads, and the others follow: they wait until the leader drops
its guard, and look into the cache then.

Joining is one step, since it happens under the lock of the table.  Dropping a
guard takes two: the entry is removed under the lock, and the end is announced
after that.  A guard is alive until its entry is removed.
-/

namespace VideoProxy
namespace SingleFlight

/-- `Key`: the key of a cache entry with the range that is asked for. -/
abbrev Triple := String × Nat × Nat

/-- `Follower`: the receiver for the channel of a leader, with the version it has
seen. -/
structure Follower where
  triple : Triple
  leader : Nat
  seen : Nat
  deriving DecidableEq

/-- `LeaderGuard`, with the number of senders of its channel that are left, the one
in the table included. -/
structure Guard where
  triple : Triple
  senders : Nat
  deriving DecidableEq

/-- Where a call is. -/
inductive Place
  | unstarted
  | leading (triple : Triple)
  | removed (triple : Triple)
  | finished (triple : Triple)
  | following (follower : Follower)
  | waiting (follower : Follower)
  | returned (done : Bool)
  | cancelled
  deriving DecidableEq

namespace Place

/-- The guard that a call has or had. -/
def guard : Place → Option Guard
  | .leading triple => some ⟨triple, 2⟩
  | .removed triple => some ⟨triple, 1⟩
  | .finished triple => some ⟨triple, 0⟩
  | _ => none

/-- The receiver that a call has. -/
def follower : Place → Option Follower
  | .following follower | .waiting follower => some follower
  | _ => none

/-- The call receives from the channel of a leader. -/
def listensTo (leader : Nat) (place : Place) : Bool :=
  place.follower.any fun follower => follower.leader = leader

end Place

/-- The table of ranges in flight and the channels, each named by the call that
has made it. -/
structure State where
  inFlight : Triple → Option Nat
  channels : Nat → Watch Bool
  calls : Nat → Place

/-- What can happen next. -/
inductive Action
  | join (call : Nat) (triple : Triple)
  | remove (call : Nat)
  | announce (call : Nat)
  | wait (call : Nat)
  | wake (call : Nat)
  | timeOut (call : Nat)
  | cancel (call : Nat)

namespace State

/-- `SingleFlight::new`, before any call. -/
def start : State where
  inFlight _ := none
  channels _ := { value := false, version := 0, senders := 0, receivers := 0 }
  calls _ := .unstarted

/-- A call goes on. -/
def move (state : State) (call : Nat) (place : Place) : State :=
  { state with calls := Function.update state.calls call place }

/-- A channel changes. -/
def onChannel (state : State) (index : Nat) (change : Watch Bool → Watch Bool) : State :=
  { state with
    channels :=
      Function.update state.channels index (change (state.channels index)) }

/-- `SingleFlight::join`. -/
def join (call : Nat) (triple : Triple) (state : State) : State :=
  match state.inFlight triple with
  | some leader =>
    (state.onChannel leader Watch.subscribe).move call
      (.following ⟨triple, leader, (state.channels leader).version⟩)
  | none =>
    { state with
      inFlight := Function.update state.inFlight triple (some call)
      channels := Function.update state.channels call
        (Watch.channel false).dropReceiver.cloneSender }.move call (.leading triple)

/-- The entry is taken out of the table, and its sender with it. -/
def removeEntry (triple : Triple) (state : State) : State :=
  match state.inFlight triple with
  | some leader =>
    { state with inFlight := Function.update state.inFlight triple none }
      |>.onChannel leader Watch.dropSender
  | none => state

/-- One step of a call. -/
def step (action : Action) (state : State) : Option State :=
  match action with
  | .join call triple =>
    match state.calls call with
    | .unstarted => some (state.join call triple)
    | _ => none
  | .remove call =>
    match state.calls call with
    | .leading triple =>
      some ((state.removeEntry triple).move call (.removed triple))
    | _ => none
  | .announce call =>
    match state.calls call with
    | .removed triple =>
      some ((state.onChannel call fun channel =>
        (channel.send true).dropSender).move call (.finished triple))
    | _ => none
  | .wait call =>
    match state.calls call with
    | .following follower =>
      if (state.channels follower.leader).value then
        some ((state.onChannel follower.leader Watch.dropReceiver).move call (.returned true))
      else some (state.move call (.waiting follower))
    | _ => none
  | .wake call =>
    match state.calls call with
    | .waiting follower =>
      if (state.channels follower.leader).Notifies follower.seen then
        some ((state.onChannel follower.leader Watch.dropReceiver).move call (.returned true))
      else none
    | _ => none
  | .timeOut call =>
    match state.calls call with
    | .waiting follower =>
      -- The channel is asked before the clock.
      if (state.channels follower.leader).Notifies follower.seen then none
      else
        some ((state.onChannel follower.leader Watch.dropReceiver).move call (.returned false))
    | _ => none
  | .cancel call =>
    match state.calls call with
    | .following follower =>
      some ((state.onChannel follower.leader Watch.dropReceiver).move call .cancelled)
    | .waiting follower =>
      some ((state.onChannel follower.leader Watch.dropReceiver).move call .cancelled)
    | _ => none

end State

open State

/-! ## Table and channels -/

/-- The table has the guards that are alive, the receivers of each channel are
counted, nothing was sent before a guard has removed its entry, and all followers
have got it when the guard is dropped. -/
structure Sound (state : State) : Prop where
  table : ∀ triple leader, state.inFlight triple = some leader ↔
    (state.calls leader).guard = some ⟨triple, 2⟩
  receivers : ∀ leader, Counts (Place.listensTo leader)
    (state.channels leader).receivers state.calls
  silent : ∀ leader guard, (state.calls leader).guard = some guard → 0 < guard.senders →
    (state.channels leader).value = false ∧ (state.channels leader).version = 0 ∧
      (state.channels leader).senders = guard.senders
  followers : ∀ call follower, (state.calls call).follower = some follower → follower.seen = 0 ∧
      ∃ senders, (state.calls follower.leader).guard = some ⟨follower.triple, senders⟩ ∧
      (senders = 0 → (state.channels follower.leader).value = true ∧
        (state.channels follower.leader).version = 1)

section Sound

variable {before after : State} {call : Nat} {old place : Place}

theorem start_sound : Sound start := by
  refine ⟨fun triple leader => ?_, fun leader => Counts.of_none fun _ => rfl,
    fun leader guard held => ?_, fun call follower listens => ?_⟩
  · simp [start, Place.guard]
  · cases held
  · cases listens

section Moving

variable (sound : Sound before) (place_eq : before.calls call = old)
  (calls_eq : after.calls = Function.update before.calls call place)
include sound place_eq calls_eq

theorem Sound.receivers_moves
    (adjusts : ∀ leader, (after.channels leader).receivers =
      (before.channels leader).receivers + (place.listensTo leader).toNat -
        (old.listensTo leader).toNat)
    (leader : Nat) :
    Counts (Place.listensTo leader) (after.channels leader).receivers after.calls := by
  subst place_eq
  rw [calls_eq, adjusts leader]
  exact (sound.receivers leader).move call place

/-- A call that has no guard goes on without one. -/
theorem Sound.moves
    (table_eq : after.inFlight = before.inFlight) (unguarded : old.guard = none)
    (stillUnguarded : place.guard = none)
    (signals : ∀ leader, (before.channels leader).SameSignal (after.channels leader))
    (adjusts : ∀ leader, (after.channels leader).receivers =
      (before.channels leader).receivers + (place.listensTo leader).toNat -
        (old.listensTo leader).toNat)
    (subscribed : ∀ follower, place.follower = some follower →
      old.follower = some follower ∨ follower.seen = 0 ∧
        (before.calls follower.leader).guard = some ⟨follower.triple, 2⟩) :
    Sound after := by
  have guards (leader : Nat) :
      (after.calls leader).guard = (before.calls leader).guard := by
    rw [calls_eq]
    by_cases same : leader = call
    · rw [same, Function.update_self, place_eq, unguarded, stillUnguarded]
    · rw [Function.update_of_ne same]
  refine ⟨fun triple leader => ?_, sound.receivers_moves place_eq calls_eq adjusts,
    fun leader guard held left => ?_, fun other follower listens => ?_⟩
  · rw [table_eq, guards leader]
    exact sound.table triple leader
  · obtain ⟨value, version, senders⟩ := signals leader
    rw [value, version, senders]
    exact sound.silent leader guard (guards leader ▸ held) left
  · obtain ⟨value, version, senders⟩ := signals follower.leader
    rw [guards follower.leader, value, version]
    rw [calls_eq] at listens
    by_cases same : other = call
    · subst same
      rw [Function.update_self] at listens
      rcases subscribed follower listens with kept | ⟨seen, held⟩
      · rw [← place_eq] at kept
        exact sound.followers other follower kept
      · exact ⟨seen, 2, held, nofun⟩
    · rw [Function.update_of_ne same] at listens
      exact sound.followers other follower listens

/-- The guard of a call changes, and only its channel. -/
theorem Sound.changes_guard {channel : Watch Bool}
    (channels_eq : after.channels = Function.update before.channels call channel)
    (deaf : old.follower = none) (stillDeaf : place.follower = none)
    (table : ∀ triple leader, after.inFlight triple = some leader ↔
      (after.calls leader).guard = some ⟨triple, 2⟩)
    (receivers_eq : channel.receivers = (before.channels call).receivers)
    (silent : ∀ guard, place.guard = some guard → 0 < guard.senders →
      channel.value = false ∧ channel.version = 0 ∧ channel.senders = guard.senders)
    (followers : ∀ other follower,
      (before.calls other).follower = some follower → follower.leader = call →
      ∃ senders, place.guard = some ⟨follower.triple, senders⟩ ∧
        (senders = 0 → channel.value = true ∧ channel.version = 1)) :
    Sound after := by
  have moved : after.calls call = place := by
    rw [calls_eq, Function.update_self]
  have changed : after.channels call = channel := by
    rw [channels_eq, Function.update_self]
  have stays (leader : Nat) (ne : leader ≠ call) :
      after.calls leader = before.calls leader ∧
        after.channels leader = before.channels leader := by
    rw [calls_eq, channels_eq, Function.update_of_ne ne, Function.update_of_ne ne]
    exact ⟨rfl, rfl⟩
  refine ⟨table, sound.receivers_moves place_eq calls_eq fun leader => ?_,
    fun leader guard held left => ?_, fun other follower listens => ?_⟩
  · rw [Place.listensTo, Place.listensTo, deaf, stillDeaf]
    by_cases same : leader = call
    · rw [same, changed]
      exact receivers_eq
    · rw [(stays leader same).2]
      rfl
  · by_cases same : leader = call
    · subst same
      rw [moved] at held
      rw [changed]
      exact silent guard held left
    · rw [(stays leader same).1] at held
      rw [(stays leader same).2]
      exact sound.silent leader guard held left
  · have ne : other ≠ call := by
      rintro rfl
      rw [moved, stillDeaf] at listens
      cases listens
    rw [(stays other ne).1] at listens
    obtain ⟨seen, known⟩ := sound.followers other follower listens
    refine ⟨seen, ?_⟩
    by_cases same : follower.leader = call
    · rw [same, moved, changed]
      exact followers other follower listens same
    · rw [(stays follower.leader same).1, (stays follower.leader same).2]
      exact known

end Moving

theorem Sound.not_listensTo (sound : Sound before) (unguarded : (before.calls call).guard = none)
    (other : Nat) :
    (before.calls other).listensTo call = false := by
  unfold Place.listensTo
  cases listens : (before.calls other).follower with
  | none => rfl
  | some follower =>
    obtain ⟨_, senders, held, _⟩ := sound.followers other follower listens
    refine decide_eq_false fun same => ?_
    rw [same, unguarded] at held
    cases held

variable {follower : Follower} {triple : Triple}

theorem Sound.receivers_pos (sound : Sound before)
    (listens : (before.calls call).follower = some follower) :
    0 < (before.channels follower.leader).receivers := by
  have counted : (before.calls call).listensTo follower.leader = true := by
    rw [Place.listensTo, listens]
    simp
  exact (sound.receivers follower.leader).pos counted

/-- The table after a call has become the leader. -/
theorem Sound.table_lead (sound : Sound before)
    (unguarded : (before.calls call).guard = none) (missing : before.inFlight triple = none)
    (other : Triple) (leader : Nat) :
    Function.update before.inFlight triple (some call) other = some leader ↔
      (Function.update before.calls call (.leading triple) leader).guard = some ⟨other, 2⟩ := by
  have listed := sound.table other leader
  by_cases same : leader = call
  · subst same
    rw [unguarded] at listed
    rw [Function.update_self]
    by_cases equal : other = triple
    · simp [equal, Place.guard]
    · have different : triple ≠ other := fun reversed => equal reversed.symm
      rw [Function.update_of_ne equal]
      simpa [Place.guard, different] using listed
  · rw [Function.update_of_ne same, ← listed]
    by_cases equal : other = triple
    · have different : call ≠ leader := fun reversed => same reversed.symm
      simp [equal, missing, different]
    · rw [Function.update_of_ne equal]

/-- The table after a guard has removed its entry. -/
theorem Sound.table_remove (sound : Sound before)
    (held : (before.calls call).guard = some ⟨triple, 2⟩) (other : Triple) (leader : Nat) :
    Function.update before.inFlight triple none other = some leader ↔
      (Function.update before.calls call (.removed triple) leader).guard = some ⟨other, 2⟩ := by
  have listed := sound.table other leader
  by_cases same : leader = call
  · subst same
    rw [Function.update_self]
    by_cases equal : other = triple
    · simp [equal, Place.guard]
    · have different : triple ≠ other := fun reversed => equal reversed.symm
      rw [held] at listed
      rw [Function.update_of_ne equal]
      simpa [Place.guard, different] using listed
  · rw [Function.update_of_ne same, ← listed]
    by_cases equal : other = triple
    · have different : call ≠ leader := fun reversed => same reversed.symm
      simp [equal, (sound.table triple call).mpr held, different]
    · rw [Function.update_of_ne equal]

theorem follow_sound {leader : Nat} (sound : Sound before)
    (unstarted : before.calls call = .unstarted) (found : before.inFlight triple = some leader) :
    Sound (before.join call triple) := by
  have held := (sound.table triple leader).mp found
  obtain ⟨_, version, _⟩ := sound.silent leader _ held Nat.two_pos
  simp only [State.join, found]
  refine sound.moves unstarted rfl rfl rfl rfl
    (Watch.subscribe_sameSignal _).update (fun other => ?_) fun follower joined => ?_
  · change (Function.update before.channels leader _ other).receivers = _
    by_cases same : other = leader
    · subst same
      simp [Place.listensTo, Place.follower, Watch.subscribe]
    · have different : leader ≠ other := fun equal => same equal.symm
      simp [same, different, Place.listensTo, Place.follower]
  · cases joined
    exact .inr ⟨version, held⟩

theorem lead_sound (sound : Sound before)
    (unstarted : before.calls call = .unstarted) (missing : before.inFlight triple = none) :
    Sound (before.join call triple) := by
  have unguarded : (before.calls call).guard = none := by
    rw [unstarted]
    rfl
  have unheard : (before.channels call).receivers = 0 :=
    (sound.receivers call).eq_zero (sound.not_listensTo unguarded)
  simp only [State.join, missing]
  refine sound.changes_guard unstarted rfl rfl rfl rfl (fun other leader => ?_)
    unheard.symm (fun guard held left => ?_) fun other follower listens same => ?_
  · exact sound.table_lead unguarded missing other leader
  · cases held
    exact ⟨rfl, rfl, rfl⟩
  · have silent := sound.not_listensTo unguarded other
    rw [Place.listensTo, listens, ← same] at silent
    simp at silent

theorem remove_sound (sound : Sound before) (leading : before.calls call = .leading triple) :
    Sound ((before.removeEntry triple).move call (.removed triple)) := by
  have held : (before.calls call).guard = some ⟨triple, 2⟩ := by
    rw [leading]
    rfl
  have found := (sound.table triple call).mpr held
  obtain ⟨value, version, senders⟩ := sound.silent call _ held Nat.two_pos
  simp only [State.removeEntry, found]
  refine sound.changes_guard leading rfl rfl rfl rfl (fun other leader => ?_) rfl
    (fun guard removed left => ?_) fun other follower listens same => ?_
  · exact sound.table_remove held other leader
  · cases removed
    exact ⟨value, version, congrArg (· - 1) senders⟩
  · obtain ⟨_, senders, known, _⟩ := sound.followers other follower listens
    rw [same, held] at known
    cases known
    exact ⟨1, rfl, nofun⟩

/-- A guard announces its end to all that follow. -/
theorem announce_sound (sound : Sound before) (removed : before.calls call = .removed triple) :
    Sound ((before.onChannel call fun channel =>
      (channel.send true).dropSender).move call (.finished triple)) := by
  have held : (before.calls call).guard = some ⟨triple, 1⟩ := by
    rw [removed]
    rfl
  obtain ⟨value, version, senders⟩ := sound.silent call _ held Nat.one_pos
  refine sound.changes_guard removed rfl rfl rfl rfl (fun other leader => ?_)
    (Watch.send_receivers _ _) (fun guard finished left => ?_)
    fun other follower listens same => ?_
  · change before.inFlight other = some leader ↔
      (Function.update before.calls call _ leader).guard = _
    rw [sound.table other leader]
    by_cases equal : leader = call
    · rw [equal, Function.update_self, held]
      simp [Place.guard]
    · rw [Function.update_of_ne equal]
  · cases finished
    cases left
  · obtain ⟨_, senders, known, _⟩ := sound.followers other follower listens
    rw [same, held] at known
    cases known
    have received := sound.receivers_pos listens
    rw [same] at received
    refine ⟨0, rfl, fun _ => ?_⟩
    simp only [Watch.send_of_pos received]
    exact ⟨rfl, congrArg (· + 1) version⟩

theorem leave_sound (sound : Sound before) (listens : (before.calls call).follower = some follower)
    (unguarded : (before.calls call).guard = none) (left : place.guard = none)
    (deaf : place.follower = none) :
    Sound ((before.onChannel follower.leader Watch.dropReceiver).move call place) := by
  refine sound.moves rfl rfl rfl unguarded left
    (Watch.dropReceiver_sameSignal _).update (fun other => ?_)
    fun next joined => ?_
  · change (Function.update before.channels follower.leader _ other).receivers = _
    rw [Place.listensTo, Place.listensTo, listens, deaf]
    by_cases same : other = follower.leader
    · subst same
      simp [Watch.dropReceiver]
    · have different : follower.leader ≠ other := fun equal => same equal.symm
      simp [same, different]
  · rw [deaf] at joined
    cases joined

theorem step_sound {action : Action} (sound : Sound before)
    (moves : step action before = some after) :
    Sound after := by
  cases action with
  | join call triple =>
    simp only [step] at moves
    split at moves
    · rename_i unstarted
      cases moves
      cases found : before.inFlight triple with
      | some leader => exact follow_sound sound unstarted found
      | none => exact lead_sound sound unstarted found
    · cases moves
  | remove call =>
    simp only [step] at moves
    split at moves
    · rename_i leading
      cases moves
      exact remove_sound sound leading
    · cases moves
  | announce call =>
    simp only [step] at moves
    split at moves
    · rename_i removed
      cases moves
      exact announce_sound sound removed
    · cases moves
  | wait call =>
    simp only [step] at moves
    split at moves
    · rename_i following
      split at moves
      · cases moves
        exact leave_sound sound (by rw [following]; rfl) (by rw [following]; rfl) rfl rfl
      · cases moves
        refine sound.moves following rfl rfl rfl rfl (fun _ => .refl _)
          (fun _ => (Nat.add_sub_cancel _ _).symm) fun _ joined => .inl joined
    · cases moves
  | wake call =>
    simp only [step] at moves
    split at moves
    · rename_i waiting
      split at moves
      · cases moves
        exact leave_sound sound (by rw [waiting]; rfl) (by rw [waiting]; rfl) rfl rfl
      · cases moves
    · cases moves
  | timeOut call =>
    simp only [step] at moves
    split at moves
    · rename_i waiting
      split at moves
      · cases moves
      · cases moves
        exact leave_sound sound (by rw [waiting]; rfl) (by rw [waiting]; rfl) rfl rfl
    · cases moves
  | cancel call =>
    simp only [step] at moves
    split at moves
    · rename_i following
      cases moves
      exact leave_sound sound (by rw [following]; rfl) (by rw [following]; rfl) rfl rfl
    · rename_i waiting
      cases moves
      exact leave_sound sound (by rw [waiting]; rfl) (by rw [waiting]; rfl) rfl rfl
    · cases moves

theorem reached_sound {state : State} (reached : Reaches step (fun _ _ => True) start state) :
    Sound state :=
  reached.invariant Sound start_sound fun _ _ _ sound _ moves =>
    step_sound sound moves

/-! ## Leaders and followers -/

theorem guard_eq_leading_iff : place.guard = some ⟨triple, 2⟩ ↔ place = .leading triple := by
  cases place <;> simp [Place.guard]

theorem Sound.inFlight_eq_some_iff (sound : Sound before) (triple : Triple) (leader : Nat) :
    before.inFlight triple = some leader ↔ before.calls leader = .leading triple :=
  (sound.table triple leader).trans guard_eq_leading_iff

/-- The leader of a follower had a guard for the same range. -/
theorem Sound.leader_of_follower (sound : Sound before)
    (listens : (before.calls call).follower = some follower) :
    before.calls follower.leader = .leading follower.triple ∨
      before.calls follower.leader = .removed follower.triple ∨
      before.calls follower.leader = .finished follower.triple := by
  obtain ⟨_, senders, held, _⟩ := sound.followers call follower listens
  cases leads : before.calls follower.leader with
  | leading triple =>
    rw [leads] at held
    cases held
    exact .inl rfl
  | removed triple =>
    rw [leads] at held
    cases held
    exact .inr (.inl rfl)
  | finished triple =>
    rw [leads] at held
    cases held
    exact .inr (.inr rfl)
  | unstarted | following _ | waiting _ | returned _ | cancelled =>
    rw [leads] at held
    cases held

theorem Sound.notifies (sound : Sound before)
    (listens : (before.calls call).follower = some follower)
    (finished : before.calls follower.leader = .finished follower.triple) :
    (before.channels follower.leader).value = true ∧
      (before.channels follower.leader).Notifies follower.seen := by
  obtain ⟨seen, senders, held, told⟩ := sound.followers call follower listens
  rw [finished] at held
  cases held
  obtain ⟨value, version⟩ := told rfl
  refine ⟨value, .inl ?_⟩
  rw [version, seen]
  exact Nat.one_ne_zero

end Sound

/-- At most one guard for a range is alive, and the table has the ranges with one;
a guard removes its own entry; once it is dropped, its followers return from their
wait as soon as they are asked, and do not run into the time limit. -/
theorem leads_alone_and_tells_followers
    {state : State}
    (reached : Reaches step (fun _ _ => True) start state) :
    (∀ triple first second, state.calls first = .leading triple →
      state.calls second = .leading triple → first = second) ∧
    (∀ triple, (state.inFlight triple).isSome ↔ ∃ leader, state.calls leader = .leading triple) ∧
    (∀ leader triple after, state.calls leader = .leading triple →
      step (.remove leader) state = some after →
      state.inFlight triple = some leader ∧
        after.inFlight = Function.update state.inFlight triple none) ∧
    ∀ call follower, (state.calls call).follower = some follower →
      (state.calls follower.leader = .leading follower.triple ∨
        state.calls follower.leader = .removed follower.triple ∨
        state.calls follower.leader = .finished follower.triple) ∧
      (state.calls follower.leader = .finished follower.triple →
        (state.channels follower.leader).value = true ∧
        (state.calls call = .following follower → ∃ after, step (.wait call) state = some after ∧
            after.calls call = .returned true) ∧
        (state.calls call = .waiting follower → step (.timeOut call) state = none ∧
          ∃ after, step (.wake call) state = some after ∧ after.calls call = .returned true)) := by
  have sound := reached_sound reached
  refine ⟨fun triple first second leads alsoLeads => ?_, fun triple => ?_,
    fun leader triple after leads moves => ?_, fun call follower listens =>
      ⟨sound.leader_of_follower listens, fun finished => ?_⟩⟩
  · have listed := (sound.inFlight_eq_some_iff triple first).mpr leads
    rw [(sound.inFlight_eq_some_iff triple second).mpr alsoLeads] at listed
    exact (Option.some.inj listed).symm
  · rw [Option.isSome_iff_exists]
    exact exists_congr (sound.inFlight_eq_some_iff triple)
  · have listed := (sound.inFlight_eq_some_iff triple leader).mpr leads
    simp only [step, leads, State.removeEntry, listed] at moves
    cases moves
    exact ⟨listed, rfl⟩
  · obtain ⟨value, notifies⟩ := sound.notifies listens finished
    have returned : ((state.onChannel follower.leader Watch.dropReceiver).move call
        (.returned true)).calls call = .returned true := by
      simp [State.move]
    refine ⟨value, fun following => ⟨_, ?_, returned⟩, fun waiting => ⟨?_, _, ?_, returned⟩⟩
    · simp only [step, following, if_pos value]
    · simp only [step, waiting, if_pos notifies]
    · simp only [step, waiting, if_pos notifies]

/-- A later request leads while the end of the first leader is not announced yet;
the followers of the first are told nevertheless. -/
theorem leads_alone_and_tells_followers_late :
    ∃ state triple, Reaches step (fun _ _ => True) start state ∧
      state.calls 0 = .finished triple ∧ state.calls 3 = .leading triple ∧
      (state.inFlight triple).isSome ∧
      (∃ after, step (.wake 1) state = some after ∧ after.calls 1 = .returned true) ∧
      ∃ after, step (.wait 2) state = some after ∧ after.calls 2 = .returned true := by
  have runs : runActions step [.join 0 ("k", 0, 99), .join 1 ("k", 0, 99),
      .join 2 ("k", 0, 99), .wait 1, .remove 0, .join 3 ("k", 0, 99),
      .announce 0] start = some _ := rfl
  obtain ⟨state, reached, finished, leads, waiting, following⟩ : ∃ state,
      Reaches step (fun _ _ => True) start state ∧
      state.calls 0 = .finished ("k", 0, 99) ∧
      state.calls 3 = .leading ("k", 0, 99) ∧
      state.calls 1 = .waiting ⟨("k", 0, 99), 0, 0⟩ ∧
      state.calls 2 = .following ⟨("k", 0, 99), 0, 0⟩ :=
    ⟨_, Reaches.refl.runActions (admitsAll_true _ _) runs, rfl, rfl, rfl, rfl⟩
  obtain ⟨_, table, _, followers⟩ := leads_alone_and_tells_followers reached
  refine ⟨state, _, reached, finished, leads, (table _).mpr ⟨3, leads⟩, ?_, ?_⟩
  · have told := followers 1 ⟨("k", 0, 99), 0, 0⟩ (by rw [waiting]; rfl)
    exact ((told.2 finished).2.2 waiting).2
  · have told := followers 2 ⟨("k", 0, 99), 0, 0⟩ (by rw [following]; rfl)
    exact (told.2 finished).2.1 following

end SingleFlight
end VideoProxy
