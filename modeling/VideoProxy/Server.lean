import Mathlib.Logic.Function.Basic
import VideoProxy.Lib.Transition
import VideoProxy.Utils.Error

/-!
# The life of a server

`ProxyServer::start` and `ProxyServer::stop` share a state word.  A call of
`start` gets past a check of the word, binds its socket, looks at the word again
and sets it to running, accepts connections until it is told to stop, and sets the
word to stopped when they are drained.

Each access to the word is a step of its own.  A permit of `Notify` ends one
accept loop.
-/

namespace VideoProxy

/-- `ProxyServerStatus`: the values of the state word. -/
inductive ProxyServerStatus
  | created
  | starting
  | running
  | stopping
  | stopped
  | failed
  deriving DecidableEq

namespace Server

/-- Where a call of `start` is: each place is named by what it does next. -/
inductive Place
  | unstarted
  | binding
  | locating
  | loading
  | publishing
  | accepting
  | draining
  | refused
  | returned (result : Except ProxyError Unit)
  | dropped

namespace Place

/-- The call got past the check of the state word. -/
def passed : Place → Bool
  | .unstarted | .refused => false
  | _ => true

/-- The call has not set the word since. -/
def early : Place → Bool
  | .binding | .locating | .loading | .publishing => true
  | _ => false

theorem passed_of_early {place : Place} (early : place.early = true) : place.passed = true := by
  cases place with
  | binding | locating | loading | publishing => rfl
  | unstarted | accepting | draining | refused | returned _ | dropped =>
    cases early

end Place

/-- The server with the calls of `start`.  Calls of `stop` that have changed the
word and not notified yet are counted, and the calls that have accepted a
connection are listed. -/
structure State where
  word : ProxyServerStatus
  boundPort : Nat
  permit : Bool
  stops : Nat
  calls : Nat → Place
  stopCalled : Bool
  served : List Nat

/-- What can happen next.  The socket may do what it likes each time. -/
inductive Action
  | start (call : Nat)
  | bind (call : Nat) (fault : Option String)
  | locate (call : Nat) (result : Except String Nat)
  | load (call : Nat)
  | publish (call : Nat)
  | accept (call : Nat) (fault : Option String)
  | drain (call : Nat)
  | finish (call : Nat)
  | drop (call : Nat)
  | stop
  | notify

namespace State

/-- `ProxyServer::build`. -/
def build : State where
  word := .created
  boundPort := 0
  permit := false
  stops := 0
  calls _ := .unstarted
  stopCalled := false
  served := []

/-- `ProxyServer::status`. -/
def status (state : State) : ProxyServerStatus := state.word

/-- A call goes on. -/
def move (state : State) (call : Nat) (place : Place) : State :=
  { state with calls := Function.update state.calls call place }

/-- The update of the word in `stop`. -/
def stopped : ProxyServerStatus → ProxyServerStatus
  | .created | .starting | .running => .stopping
  | word => word

/-- One step, for a server that listens on a given port. -/
def step (port : Nat) (action : Action) (state : State) : Option State :=
  match action with
  | .start call =>
    match state.calls call with
    | .unstarted =>
      match state.word with
      | .created => some ({ state with word := .starting }.move call .binding)
      | .stopping => some (state.move call .binding)
      | _ => some (state.move call .refused)
    | _ => none
  | .bind call fault =>
    match state.calls call with
    | .binding =>
      match fault with
      | none => some (state.move call .locating)
      | some reason =>
        some ({ state with word := .failed }.move call
          (.returned (.error (.io ("无法绑定 127.0.0.1:" ++ toString port ++ ": " ++ reason)))))
    | _ => none
  | .locate call result =>
    match state.calls call with
    | .locating =>
      match result with
      | .ok boundPort => some ({ state with boundPort }.move call .loading)
      | .error reason =>
        some (state.move call (.returned (.error (.io ("无法读取监听地址: " ++ reason)))))
    | _ => none
  | .load call =>
    match state.calls call with
    | .loading =>
      if state.word ≠ .stopping then some (state.move call .publishing)
      else some (state.move call .accepting)
    | _ => none
  | .publish call =>
    match state.calls call with
    | .publishing =>
      some ({ state with word := .running }.move call .accepting)
    | _ => none
  | .accept call fault =>
    match state.calls call with
    | .accepting =>
      match fault with
      | none => some { state with served := call :: state.served }
      | some reason =>
        some (state.move call (.returned (.error (.io ("接受连接失败: " ++ reason)))))
    | _ => none
  | .drain call =>
    match state.calls call with
    | .accepting =>
      if state.permit then
        some ({ state with permit := false }.move call .draining)
      else none
    | _ => none
  | .finish call =>
    match state.calls call with
    | .draining =>
      some ({ state with word := .stopped }.move call (.returned (.ok ())))
    | _ => none
  | .drop call =>
    match state.calls call with
    | .binding => some (state.move call .dropped)
    | .accepting => some (state.move call .dropped)
    | .draining => some (state.move call .dropped)
    | _ => none
  | .stop =>
    some { state with
      word := stopped state.word
      stops := state.stops + 1
      stopCalled := true }
  | .notify =>
    if state.stops = 0 then none
    else some { state with stops := state.stops - 1, permit := true }

end State

open State

/-- A call of `start` that finds the server stopping is the first one, and `stop`
does not come between the look at the word and the store of a call. -/
def Undisturbed : Action → State → Prop
  | .start _, state =>
    state.word = .stopping → ∀ call, (state.calls call).passed = false
  | .stop, state => ∀ call, state.calls call ≠ .publishing
  | _, _ => True

/-! ## One run -/

/-- At most one call got past the check, only that call has served connections,
and the word is what it or a call of `stop` has made of it. -/
structure Lifecycle (state : State) : Prop where
  once : ∀ first second, (state.calls first).passed = true →
    (state.calls second).passed = true → first = second
  fresh : state.word = .created → ∀ call, (state.calls call).passed = false
  early : ∀ call, (state.calls call).early = true → state.word = .starting ∨ state.word = .stopping
  halted : state.stopCalled = true →
    state.word ≠ .created ∧ state.word ≠ .starting ∧ state.word ≠ .running
  unpublished : state.stopCalled = true → ∀ call, state.calls call ≠ .publishing
  served : ∀ call ∈ state.served, (state.calls call).passed = true

section Lifecycle

variable {port call : Nat} {before after : State} {old place : Place}

theorem build_lifecycle : Lifecycle State.build := by
  refine ⟨fun first second passed => ?_, fun _ call => rfl,
    fun call early => ?_, fun stopCalled => ?_, fun stopCalled => ?_, nofun⟩
  · cases passed
  · cases early
  · cases stopCalled
  · cases stopCalled

/-- A call gets past the check when no other has. -/
theorem Lifecycle.enters (lifecycle : Lifecycle before)
    (nobody : ∀ other, (before.calls other).passed = false)
    (calls_eq : after.calls = Function.update before.calls call .binding)
    (stop_eq : after.stopCalled = before.stopCalled) (served_eq : after.served = before.served)
    (word : after.word = .starting ∧ before.word = .created ∨ after.word = .stopping) :
    Lifecycle after := by
  have entered {other : Nat} (passed : (after.calls other).passed = true) :
      other = call := by
    by_contra ne
    rw [calls_eq, Function.update_of_ne ne, nobody other] at passed
    cases passed
  refine ⟨fun first second firstPassed secondPassed =>
      (entered firstPassed).trans (entered secondPassed).symm,
    fun created => ?_, fun other early => ?_, fun stopCalled => ?_,
    fun stopCalled other => ?_, fun other member => ?_⟩
  · rcases word with ⟨starting, _⟩ | stopping
    · rw [starting] at created
      cases created
    · rw [stopping] at created
      cases created
  · exact word.imp_left And.left
  · rw [stop_eq] at stopCalled
    rcases word with ⟨_, created⟩ | stopping
    · exact absurd created (lifecycle.halted stopCalled).1
    · rw [stopping]
      exact ⟨nofun, nofun, nofun⟩
  · rw [stop_eq] at stopCalled
    rw [calls_eq]
    by_cases same : other = call
    · rw [same, Function.update_self]
      nofun
    · rw [Function.update_of_ne same]
      exact lifecycle.unpublished stopCalled other
  · rw [served_eq] at member
    have passed := lifecycle.served other member
    rw [nobody other] at passed
    cases passed

section Moving

variable (lifecycle : Lifecycle before) (place_eq : before.calls call = old)
  (calls_eq : after.calls = Function.update before.calls call place)
  (stop_eq : after.stopCalled = before.stopCalled) (served_eq : after.served = before.served)
include lifecycle place_eq calls_eq stop_eq served_eq

/-- A call goes on, and may set the word if it got past the check. -/
theorem Lifecycle.moves
    (passed_eq : place.passed = old.passed)
    (published : place = .publishing → before.stopCalled = false)
    (word : after.word = before.word ∧ (place.early = true → old.early = true) ∨
      old.passed = true ∧ place.early = false ∧ after.word ≠ .created ∧ after.word ≠ .starting ∧
        (after.word = .running → before.stopCalled = false)) :
    Lifecycle after := by
  subst place_eq
  have moved : after.calls call = place := by
    rw [calls_eq, Function.update_self]
  have stays {other : Nat} (ne : other ≠ call) :
      after.calls other = before.calls other := by
    rw [calls_eq, Function.update_of_ne ne]
  have passed (other : Nat) : (after.calls other).passed = (before.calls other).passed := by
    by_cases same : other = call
    · rw [same, moved]
      exact passed_eq
    · rw [stays same]
  refine ⟨fun first second => ?_, fun created other => ?_, fun other early => ?_,
    fun stopCalled => ?_, fun stopCalled other => ?_, fun other member => ?_⟩
  · rw [passed first, passed second]
    exact lifecycle.once first second
  · rcases word with ⟨same, _⟩ | ⟨_, _, notCreated, _⟩
    · rw [same] at created
      rw [passed other]
      exact lifecycle.fresh created other
    · exact absurd created notCreated
  · rcases word with ⟨same, earlyOf⟩ | ⟨passed, late, _⟩
    · rw [same]
      by_cases mover : other = call
      · rw [mover, moved] at early
        exact lifecycle.early call (earlyOf early)
      · rw [stays mover] at early
        exact lifecycle.early other early
    · -- Another call would have passed the check as well.
      have mover : other = call := by
        by_contra ne
        rw [stays ne] at early
        exact ne (lifecycle.once other call (Place.passed_of_early early) passed)
      rw [mover, moved, late] at early
      cases early
  · rw [stop_eq] at stopCalled
    rcases word with ⟨same, _⟩ | ⟨_, _, notCreated, notStarting, running⟩
    · rw [same]
      exact lifecycle.halted stopCalled
    · refine ⟨notCreated, notStarting, fun isRunning => ?_⟩
      rw [running isRunning] at stopCalled
      cases stopCalled
  · rw [stop_eq] at stopCalled
    by_cases mover : other = call
    · rw [mover, moved]
      intro publishing
      rw [published publishing] at stopCalled
      cases stopCalled
    · rw [stays mover]
      exact lifecycle.unpublished stopCalled other
  · rw [served_eq] at member
    rw [passed other]
    exact lifecycle.served other member

theorem Lifecycle.goes
    (word_eq : after.word = before.word) (passed_eq : place.passed = old.passed)
    (early_of : place.early = true → old.early = true) (published : place ≠ .publishing) :
    Lifecycle after :=
  lifecycle.moves place_eq calls_eq stop_eq served_eq passed_eq
    (fun publishing => absurd publishing published) (.inl ⟨word_eq, early_of⟩)

end Moving

theorem start_lifecycle (lifecycle : Lifecycle before) (first : before.word = .stopping →
      ∀ call, (before.calls call).passed = false)
    (moves : step port (.start call) before = some after) :
    Lifecycle after := by
  simp only [step] at moves
  split at moves
  · rename_i unstarted
    split at moves
    · rename_i created
      cases moves
      exact lifecycle.enters (lifecycle.fresh created) rfl rfl rfl (.inl ⟨rfl, created⟩)
    · rename_i stopping
      cases moves
      exact lifecycle.enters (first stopping) rfl rfl rfl (.inr stopping)
    · cases moves
      exact lifecycle.goes unstarted rfl rfl rfl rfl rfl id nofun
  · cases moves

theorem stop_lifecycle (lifecycle : Lifecycle before)
    (unpublished : ∀ call, before.calls call ≠ .publishing)
    (moves : step port .stop before = some after) :
    Lifecycle after := by
  cases moves
  obtain ⟨once, fresh, early, halted, _, served⟩ := lifecycle
  refine ⟨once, fun created => ?_, fun call isEarly => .inr ?_, fun _ => ?_,
    fun _ => unpublished, served⟩
  · change stopped before.word = .created at created
    cases word_eq : before.word <;> rw [word_eq] at created <;> cases created
  · change stopped before.word = .stopping
    rcases early call isEarly with starting | stopping
    · rw [starting]
      rfl
    · rw [stopping]
      rfl
  · change stopped before.word ≠ .created ∧ stopped before.word ≠ .starting ∧
      stopped before.word ≠ .running
    cases before.word <;> decide

theorem step_lifecycle {action : Action} (lifecycle : Lifecycle before)
    (undisturbed : Undisturbed action before) (moves : step port action before = some after) :
    Lifecycle after := by
  cases action with
  | start call => exact start_lifecycle lifecycle undisturbed moves
  | stop => exact stop_lifecycle lifecycle undisturbed moves
  | bind call fault =>
    simp only [step] at moves
    split at moves
    · rename_i binding
      split at moves
      · cases moves
        exact lifecycle.goes binding rfl rfl rfl rfl rfl (fun _ => rfl) nofun
      · cases moves
        exact lifecycle.moves binding rfl rfl rfl rfl nofun
          (.inr ⟨rfl, rfl, nofun, nofun, nofun⟩)
    · cases moves
  | locate call result =>
    simp only [step] at moves
    split at moves
    · rename_i locating
      split at moves
      · cases moves
        exact lifecycle.goes locating rfl rfl rfl rfl rfl (fun _ => rfl) nofun
      · cases moves
        exact lifecycle.goes locating rfl rfl rfl rfl rfl (fun _ => rfl) nofun
    · cases moves
  | load call =>
    simp only [step] at moves
    split at moves
    · rename_i loading
      split at moves
      · rename_i notStopping
        cases moves
        refine lifecycle.moves loading rfl rfl rfl rfl (fun _ => ?_)
          (.inl ⟨rfl, fun _ => rfl⟩)
        have isEarly : (before.calls call).early = true := by
          rw [loading]
          rfl
        have starting := (lifecycle.early call isEarly).resolve_right notStopping
        rw [← Bool.not_eq_true]
        intro stopCalled
        exact (lifecycle.halted stopCalled).2.1 starting
      · cases moves
        exact lifecycle.goes loading rfl rfl rfl rfl rfl nofun nofun
    · cases moves
  | publish call =>
    simp only [step] at moves
    split at moves
    · rename_i publishing
      cases moves
      refine lifecycle.moves publishing rfl rfl rfl rfl nofun
        (.inr ⟨rfl, rfl, nofun, nofun, fun _ => ?_⟩)
      rw [← Bool.not_eq_true]
      intro stopCalled
      exact lifecycle.unpublished stopCalled call publishing
    · cases moves
  | accept call fault =>
    simp only [step] at moves
    split at moves
    · rename_i accepting
      split at moves
      · cases moves
        refine ⟨lifecycle.once, lifecycle.fresh, lifecycle.early, lifecycle.halted,
          lifecycle.unpublished, List.forall_mem_cons.mpr ⟨?_, lifecycle.served⟩⟩
        rw [accepting]
        rfl
      · cases moves
        exact lifecycle.goes accepting rfl rfl rfl rfl rfl nofun nofun
    · cases moves
  | drain call =>
    simp only [step] at moves
    split at moves
    · rename_i accepting
      split at moves
      · cases moves
        exact lifecycle.goes accepting rfl rfl rfl rfl rfl nofun nofun
      · cases moves
    · cases moves
  | finish call =>
    simp only [step] at moves
    split at moves
    · rename_i draining
      cases moves
      exact lifecycle.moves draining rfl rfl rfl rfl nofun
        (.inr ⟨rfl, rfl, nofun, nofun, nofun⟩)
    · cases moves
  | drop call =>
    simp only [step] at moves
    split at moves
    · rename_i binding
      cases moves
      exact lifecycle.goes binding rfl rfl rfl rfl rfl nofun nofun
    · rename_i accepting
      cases moves
      exact lifecycle.goes accepting rfl rfl rfl rfl rfl nofun nofun
    · rename_i draining
      cases moves
      exact lifecycle.goes draining rfl rfl rfl rfl rfl nofun nofun
    · cases moves
  | notify =>
    simp only [step] at moves
    split at moves
    · cases moves
    · cases moves
      exact ⟨lifecycle.once, lifecycle.fresh, lifecycle.early, lifecycle.halted,
        lifecycle.unpublished, lifecycle.served⟩

end Lifecycle

/-- At most one call of `start` got past the check, and after a call of `stop` the
server does not say that it runs. -/
def RunsOnce (state : State) : Prop :=
  (∀ first second, (state.calls first).passed = true →
    (state.calls second).passed = true → first = second) ∧
  (state.stopCalled = true → state.status ≠ .running)

theorem start_twice {port call other : Nat} {state after : State}
    (stopping : state.word = .stopping) (passed : (state.calls other).passed = true)
    (moves : step port (.start call) state = some after) :
    ¬RunsOnce after := by
  rintro ⟨once, _⟩
  simp only [step] at moves
  split at moves
  · rename_i unstarted
    rw [stopping] at moves
    cases moves
    have ne : other ≠ call := by
      rintro rfl
      rw [unstarted] at passed
      cases passed
    refine ne (once other call ?_ ?_)
    · simpa [State.move, ne] using passed
    · simp [State.move, Place.passed]
  · cases moves

theorem running_after_stop {port call : Nat} {state after : State}
    (publishing : state.calls call = .publishing) (moves : step port .stop state = some after) :
    ∃ next, step port (.publish call) after = some next ∧ ¬RunsOnce next := by
  cases moves
  refine ⟨_, by simp only [step, publishing]; rfl, ?_⟩
  rintro ⟨_, halted⟩
  exact halted rfl rfl

/-- At most one call of `start` gets past the check and serves connections, as long
as no call finds the server stopping after another one and `stop` does not come
between the look of a call at the word and its store.  Each step that is not like
this lets a second call past the check or leads to a server that says it runs after
it was stopped. -/
theorem runs_once_of_undisturbed {port : Nat} {state : State}
    (reached : Reaches (step port) Undisturbed State.build state) :
    RunsOnce state ∧ (∀ call ∈ state.served, (state.calls call).passed = true) ∧
      ∀ action after, step port action state = some after → ¬Undisturbed action state →
        ¬RunsOnce after ∨ ∃ call next, step port (.publish call) after = some next ∧
            ¬RunsOnce next := by
  have lifecycle : Lifecycle state :=
    reached.invariant Lifecycle build_lifecycle fun _ _ _ held undisturbed moves =>
      step_lifecycle held undisturbed moves
  refine ⟨⟨lifecycle.once, fun stopCalled => (lifecycle.halted stopCalled).2.2⟩,
    lifecycle.served, fun action after moves disturbed => ?_⟩
  cases action with
  | start call =>
    simp only [Undisturbed, Classical.not_imp, not_forall, Bool.not_eq_false] at disturbed
    obtain ⟨stopping, other, passed⟩ := disturbed
    exact .inl (start_twice stopping passed moves)
  | stop =>
    simp only [Undisturbed, ne_eq, not_forall, not_not] at disturbed
    obtain ⟨call, publishing⟩ := disturbed
    exact .inr ⟨call, running_after_stop publishing moves⟩
  | bind _ _ | locate _ _ | load _ | publish _ | accept _ _ | drain _ | finish _
  | drop _ | notify => exact absurd trivial disturbed

/-- A server is started, serves a connection and is stopped. -/
def wholeRun : List Action :=
  [.start 0, .bind 0 none, .locate 0 (.ok 8080), .load 0, .publish 0,
    .accept 0 none, .stop, .notify, .drain 0, .finish 0]

theorem runs_once_of_undisturbed_whole :
    ∃ state, Reaches (step 8080) Undisturbed State.build state ∧
      state.status = .stopped ∧ state.served = [0] ∧ RunsOnce state := by
  have runs : runActions (step 8080) wholeRun State.build = some _ := rfl
  have admits : AdmitsAll (step 8080) Undisturbed wholeRun State.build := by
    refine ⟨nofun, trivial, trivial, trivial, trivial, trivial, fun call => ?_,
      trivial, trivial, trivial, trivial⟩
    by_cases same : call = 0
    · subst same
      nofun
    · simp [State.move, State.build, same]
  obtain ⟨state, reached, stopped, served⟩ : ∃ state,
      Reaches (step 8080) Undisturbed State.build state ∧
      state.status = .stopped ∧ state.served = [0] :=
    ⟨_, Reaches.refl.runActions admits runs, rfl, rfl⟩
  exact ⟨state, reached, stopped, served, (runs_once_of_undisturbed reached).1⟩

/-- A second call of `start` serves connections while the first is drained, and a
server says that it runs after it was stopped. -/
theorem second_start_serves :
    (∃ state, Reaches (step 0) (fun _ _ => True) State.build state ∧
      (state.calls 0).passed = true ∧ (state.calls 1).passed = true ∧
      state.served = [1, 0]) ∧
    ∃ state, Reaches (step 0) (fun _ _ => True) State.build state ∧
      state.stopCalled = true ∧ state.status = .running := by
  have twice : runActions (step 0)
      [.start 0, .bind 0 none, .locate 0 (.ok 40000), .load 0, .publish 0,
        .accept 0 none, .stop, .start 1, .notify, .drain 0, .bind 1 none,
        .locate 1 (.ok 40001), .load 1, .accept 1 none] State.build = some _ := rfl
  have late : runActions (step 0)
      [.start 0, .bind 0 none, .locate 0 (.ok 40000), .load 0, .stop, .publish 0]
      State.build = some _ := rfl
  exact ⟨⟨_, Reaches.refl.runActions (admitsAll_true _ _) twice, rfl, rfl, rfl⟩,
    ⟨_, Reaches.refl.runActions (admitsAll_true _ _) late, rfl, rfl⟩⟩

end Server
end VideoProxy
