import Mathlib.Order.Defs.Unbundled

/-!
# Computations that can fail or be cut short

A faulty computation acts on a state and ends in one of three ways: with a
value, with an error that the caller may handle, or because the process that ran
it stopped.  In each case the state it leaves behind is kept, so that a property
of the state can be followed through failures and interruptions.

A computation *keeps* a relation when the relation holds between the state it
starts from and the state it leaves, however it ends.  It *ensures* a
postcondition from a precondition when the postcondition holds of the way it
ends and of the state it leaves.
-/

namespace VideoProxy

/-- The three ways in which a computation ends. -/
inductive Exit (ε α : Type)
  | ok (value : α)
  | error (reason : ε)
  | stopped
  deriving DecidableEq

/-- The result of a computation that succeeded. -/
def Exit.value? : Exit ε α → Option α
  | .ok value => some value
  | _ => none

/-- The error of a computation that failed. -/
def Exit.error? : Exit ε α → Option ε
  | .error reason => some reason
  | _ => none

/-- State-passing computations that can fail or be stopped. -/
def Faulty (σ ε α : Type) : Type :=
  σ → Exit ε α × σ

namespace Faulty

/-- Continue with the value of a computation that ended normally. -/
def andThen (first : Faulty σ ε α) (next : α → Faulty σ ε β) : Faulty σ ε β :=
  fun state =>
    match first state with
    | (.ok value, state) => next value state
    | (.error reason, state) => (.error reason, state)
    | (.stopped, state) => (.stopped, state)

instance : Monad (Faulty σ ε) where
  pure value := fun state => (.ok value, state)
  bind := andThen

instance : LawfulMonad (Faulty σ ε) := by
  refine LawfulMonad.mk' _ ?_ ?_ ?_
  · intro α computation
    funext state
    change andThen _ _ state = _
    unfold andThen
    rcases computation state with ⟨exit | _ | _, _⟩ <;> rfl
  · intros
    rfl
  · intro α β γ first second third
    funext state
    change andThen (andThen _ _) _ state = andThen _ (fun _ => andThen _ _) state
    unfold andThen
    rcases first state with ⟨exit | _ | _, _⟩ <;> rfl

/-- Fail with an error. -/
def fail (reason : ε) : Faulty σ ε α :=
  fun state => (.error reason, state)

/-- The process stops here. -/
def stop : Faulty σ ε α :=
  fun state => (.stopped, state)

/-- Read a part of the state. -/
def gets (view : σ → α) : Faulty σ ε α :=
  fun state => (.ok (view state), state)

/-- Change the state. -/
def update (change : σ → σ) : Faulty σ ε Unit :=
  fun state => (.ok (), change state)

/-- Fail with the error of a pure result, or continue with its value. -/
def ofExcept : Except ε α → Faulty σ ε α
  | .ok value => pure value
  | .error reason => fail reason

/-- Hand an error to the caller as a value. -/
def attempt (computation : Faulty σ ε α) : Faulty σ ε (Except ε α) :=
  fun state =>
    match computation state with
    | (.ok value, state) => (.ok (.ok value), state)
    | (.error reason, state) => (.ok (.error reason), state)
    | (.stopped, state) => (.stopped, state)

/-- Run a computation for its effect and ignore its error. -/
def ignore (computation : Faulty σ ε α) : Faulty σ ε Unit := do
  let _ ← attempt computation
  pure ()

@[simp] theorem pure_apply (value : α) (state : σ) :
    (pure value : Faulty σ ε α) state = (.ok value, state) := rfl

@[simp] theorem gets_apply (view : σ → α) (state : σ) :
    (gets view : Faulty σ ε α) state = (.ok (view state), state) := rfl

@[simp] theorem update_apply (change : σ → σ) (state : σ) :
    (update change : Faulty σ ε Unit) state = (.ok (), change state) := rfl

@[simp] theorem ofExcept_ok (value : α) : (ofExcept (.ok value) : Faulty σ ε α) = pure value := rfl

theorem bind_apply (first : Faulty σ ε α) (next : α → Faulty σ ε β) (state : σ) :
    (first >>= next) state =
      match first state with
      | (.ok value, state) => next value state
      | (.error reason, state) => (.error reason, state)
      | (.stopped, state) => (.stopped, state) := rfl

variable {after before : σ} {first computation : Faulty σ ε α} {value : α}

/-- A computation that ended normally hands on its value. -/
theorem bind_of_ok (ended : first before = (.ok value, after)) (next : α → Faulty σ ε β) :
    (first >>= next) before = next value after := by
  rw [bind_apply, ended]

/-- An error ends the sequence. -/
theorem bind_of_error {reason : ε}
    (ended : first before = (.error reason, after)) (next : α → Faulty σ ε β) :
    (first >>= next) before = (.error reason, after) := by
  rw [bind_apply, ended]

/-- Only how the first computation ends matters to the next. -/
theorem bind_of_eq {other : Faulty σ ε α} {state : σ} (same : first state = other state)
    (next : α → Faulty σ ε β) :
    (first >>= next) state = (other >>= next) state := by
  rw [bind_apply, bind_apply, same]

/-- The steps of a sequence that succeeds succeed. -/
theorem exists_of_bind_ok {next : α → Faulty σ ε β} {state : σ} {value : β}
    (ended : ((first >>= next) state).1 = .ok value) :
    ∃ middle after, first state = (.ok middle, after) ∧ (next middle after).1 = .ok value := by
  rw [bind_apply] at ended
  cases first_eq : first state with
  | mk exit after =>
    rw [first_eq] at ended
    cases exit with
    | ok middle => exact ⟨middle, after, rfl, ended⟩
    | error reason => cases ended
    | stopped => cases ended

theorem ofExcept_eq_ok {result : Except ε α}
    (ended : (ofExcept result : Faulty σ ε α) before = (.ok value, after)) :
    result = .ok value ∧ after = before := by
  cases result with
  | ok other =>
    cases ended
    exact ⟨rfl, rfl⟩
  | error reason => cases ended

/-- A value that is seen was returned. -/
theorem exists_of_value? {view : α → β} {seen : β}
    (observed : (computation before).1.value?.map view = some seen) :
    ∃ value after, computation before = (.ok value, after) ∧ view value = seen := by
  obtain ⟨value, isValue, view_eq⟩ := Option.map_eq_some_iff.mp observed
  rcases ended : computation before with ⟨exit, after⟩
  rw [ended] at isValue
  cases exit with
  | ok other =>
    cases isValue
    exact ⟨value, after, rfl, view_eq⟩
  | error reason => cases isValue
  | stopped => cases isValue

/-- A sequence that succeeds, taken apart with its states. -/
theorem exists_of_bind_eq_ok {next : α → Faulty σ ε β}
    {value : β} (ended : (first >>= next) before = (.ok value, after)) :
    ∃ result middle, first before = (.ok result, middle) ∧
      next result middle = (.ok value, after) := by
  obtain ⟨result, middle, first_eq, _⟩ :=
    exists_of_bind_ok (congrArg Prod.fst ended)
  rw [bind_of_ok first_eq] at ended
  exact ⟨result, middle, first_eq, ended⟩

/-- To replace the result does not change the state. -/
theorem bind_pure_state (first : Faulty σ ε α) (value : β) (state : σ) :
    ((first >>= fun _ => pure value) state).2 = (first state).2 := by
  rw [bind_apply]
  generalize first state = ended
  rcases ended with ⟨exit, after⟩
  cases exit <;> rfl

theorem attempt_of_ok (ended : computation before = (.ok value, after)) :
    attempt computation before = (.ok (.ok value), after) := by
  rw [attempt, ended]

/-- An attempt has a value only where the computation has. -/
theorem eq_of_attempt_ok (attempted : attempt computation before = (.ok (.ok value), after)) :
    computation before = (.ok value, after) := by
  unfold attempt at attempted
  generalize computation before = ended at attempted ⊢
  rcases ended with ⟨exit, reached⟩
  cases exit with
  | ok other =>
    cases attempted
    rfl
  | error reason => cases attempted
  | stopped => cases attempted

/-! ## Relations kept by a computation -/

/-- However the computation ends, the relation holds between its first and its
last state. -/
def Keeps (relation : σ → σ → Prop) (computation : Faulty σ ε α) : Prop :=
  ∀ state, relation state (computation state).2

section Keeps

variable {relation : σ → σ → Prop} [Std.Refl relation] [IsTrans σ relation]

omit [IsTrans σ relation] in
theorem keeps_pure (value : α) : Keeps relation (pure value : Faulty σ ε α) :=
  fun state => refl_of relation state

omit [IsTrans σ relation] in
theorem keeps_fail (reason : ε) : Keeps relation (fail reason : Faulty σ ε α) :=
  fun state => refl_of relation state

omit [IsTrans σ relation] in
theorem keeps_gets (view : σ → α) : Keeps relation (gets view : Faulty σ ε α) :=
  fun state => refl_of relation state

omit [IsTrans σ relation] in
theorem keeps_ofExcept (result : Except ε α) : Keeps relation (ofExcept result : Faulty σ ε α) := by
  cases result with
  | ok value => exact keeps_pure value
  | error reason => exact keeps_fail reason

omit [Std.Refl relation] [IsTrans σ relation] in
theorem keeps_update {change : σ → σ} (related : ∀ state, relation state (change state)) :
    Keeps relation (update change : Faulty σ ε Unit) :=
  related

omit [Std.Refl relation] in
/-- A transitive relation is kept along a sequence. -/
theorem keeps_bind {next : α → Faulty σ ε β}
    (keepsFirst : Keeps relation first) (keepsNext : ∀ value, Keeps relation (next value)) :
    Keeps relation (first >>= next) := by
  intro state
  have related := keepsFirst state
  rw [bind_apply]
  generalize first state = ended at related
  rcases ended with ⟨exit, middle⟩
  cases exit with
  | ok value => exact trans_of relation related (keepsNext value middle)
  | error reason => exact related
  | stopped => exact related

omit [Std.Refl relation] [IsTrans σ relation] in
/-- To catch an error does not change the state. -/
theorem keeps_attempt (keeps : Keeps relation computation) :
    Keeps relation (attempt computation) := by
  intro state
  have related := keeps state
  unfold attempt
  generalize computation state = ended at related
  rcases ended with ⟨exit, after⟩
  cases exit <;> exact related

/-- To ignore an error does not change the state. -/
theorem keeps_ignore (keeps : Keeps relation computation) :
    Keeps relation (ignore computation) :=
  keeps_bind (keeps_attempt keeps) fun _ => keeps_pure ()

end Keeps

/-! ## Postconditions -/

/-- From a state that satisfies the precondition the computation ends in a way,
and leaves a state, that satisfy the postcondition. -/
def Ensures (precondition : σ → Prop) (computation : Faulty σ ε α)
    (postcondition : Exit ε α → σ → Prop) : Prop :=
  ∀ state, precondition state → postcondition (computation state).1 (computation state).2

section Ensures

variable {precondition : σ → Prop}

variable {postcondition : Exit ε α → σ → Prop} {computation : Faulty σ ε α}

theorem ensures_pure
    (holds : ∀ state, precondition state → postcondition (.ok value) state) :
    Ensures precondition (pure value : Faulty σ ε α) postcondition :=
  holds

theorem ensures_fail {reason : ε}
    (holds : ∀ state, precondition state → postcondition (.error reason) state) :
    Ensures precondition (fail reason : Faulty σ ε α) postcondition :=
  holds

theorem ensures_update {change : σ → σ} {postcondition : Exit ε Unit → σ → Prop}
    (holds : ∀ state, precondition state → postcondition (.ok ()) (change state)) :
    Ensures precondition (update change : Faulty σ ε Unit) postcondition :=
  holds

/-- The rule of sequencing, with each way in which the first part can end. -/
theorem ensures_bind {next : α → Faulty σ ε β} {middle : Exit ε α → σ → Prop}
    {postcondition : Exit ε β → σ → Prop} (ensuresFirst : Ensures precondition first middle)
    (ensuresNext : ∀ value, Ensures (middle (.ok value)) (next value) postcondition)
    (onError : ∀ reason state, middle (.error reason) state → postcondition (.error reason) state)
    (onStop : ∀ state, middle .stopped state → postcondition .stopped state) :
    Ensures precondition (first >>= next) postcondition := by
  intro state starts
  have reached := ensuresFirst state starts
  rw [bind_apply]
  generalize first state = ended at reached
  rcases ended with ⟨exit, after⟩
  cases exit with
  | ok value => exact ensuresNext value after reached
  | error reason => exact onError reason after reached
  | stopped => exact onStop after reached

/-- A computation that goes on after an error as well as after a value. -/
theorem ensures_attempt_bind {next : Except ε α → Faulty σ ε β}
    {middle : Exit ε α → σ → Prop} {postcondition : Exit ε β → σ → Prop}
    (ensures : Ensures precondition first middle)
    (onOk : ∀ value, Ensures (middle (.ok value)) (next (.ok value)) postcondition)
    (onError : ∀ reason, Ensures (middle (.error reason)) (next (.error reason)) postcondition)
    (onStop : ∀ state, middle .stopped state → postcondition .stopped state) :
    Ensures precondition (attempt first >>= next) postcondition := by
  intro state starts
  have reached := ensures state starts
  rw [bind_apply, attempt]
  generalize first state = ended at reached
  rcases ended with ⟨exit, after⟩
  cases exit with
  | ok value => exact onOk value after reached
  | error reason => exact onError reason after reached
  | stopped => exact onStop after reached

/-- The rule for errors that become values. -/
theorem ensures_attempt {attempted : Exit ε (Except ε α) → σ → Prop}
    (ensures : Ensures precondition computation postcondition)
    (onOk : ∀ value state, postcondition (.ok value) state → attempted (.ok (.ok value)) state)
    (onError : ∀ reason state, postcondition (.error reason) state →
      attempted (.ok (.error reason)) state)
    (onStop : ∀ state, postcondition .stopped state → attempted .stopped state) :
    Ensures precondition (attempt computation) attempted := by
  rw [← bind_pure (attempt computation)]
  exact ensures_attempt_bind ensures onOk onError onStop

/-- An invariant is kept along a sequence. -/
theorem ensures_bind_invariant {invariant : σ → Prop}
    {next : α → Faulty σ ε β} (ensuresFirst : Ensures invariant first fun _ => invariant)
    (ensuresNext : ∀ value, Ensures invariant (next value) fun _ => invariant) :
    Ensures invariant (first >>= next) fun _ => invariant :=
  ensures_bind ensuresFirst ensuresNext (fun _ _ => id) (fun _ => id)

/-- What a kept relation carries over is an invariant. -/
theorem Keeps.ensures {relation : σ → σ → Prop}
    (keeps : Keeps relation computation) {invariant : σ → Prop}
    (carries : ∀ before after, relation before after → invariant before → invariant after) :
    Ensures invariant computation fun _ => invariant :=
  fun state holds => carries state _ (keeps state) holds

/-- The rule of consequence. -/
theorem Ensures.weaken {stronger : σ → Prop} {weaker : Exit ε α → σ → Prop}
    (ensures : Ensures precondition computation postcondition)
    (starts : ∀ state, stronger state → precondition state)
    (ends : ∀ exit state, postcondition exit state → weaker exit state) :
    Ensures stronger computation weaker :=
  fun state holds => ends _ _ (ensures state (starts state holds))

end Ensures

/-! ## Invariants and returned values -/

/-- However the computation ends, it keeps the invariant; and a value that it
returns has the property. -/
def Yields (invariant : σ → Prop) (computation : Faulty σ ε α) (property : α → Prop) : Prop :=
  Ensures invariant computation fun exit state =>
    invariant state ∧ ∀ value, exit = .ok value → property value

section Yields

variable {invariant : σ → Prop}

variable {property : α → Prop} {computation : Faulty σ ε α}

theorem yields_pure (holds : property value) :
    Yields invariant (pure value : Faulty σ ε α) property :=
  fun _ kept => ⟨kept, fun _ ended => by
    cases ended
    exact holds⟩

theorem yields_fail (reason : ε) (property : α → Prop) :
    Yields invariant (fail reason : Faulty σ ε α) property :=
  fun _ kept => ⟨kept, fun _ ended => by cases ended⟩

/-- The value of a pure result is that result. -/
theorem yields_ofExcept (result : Except ε α) :
    Yields invariant (ofExcept result : Faulty σ ε α) fun value => result = .ok value := by
  cases result with
  | ok value => exact yields_pure rfl
  | error reason => exact yields_fail reason _

theorem yields_true (computation : Faulty σ ε α) :
    Yields (fun _ => True) computation fun _ => True :=
  fun _ _ => ⟨trivial, fun _ _ => trivial⟩

theorem yields_gets (view : σ → α) : Yields invariant (gets view : Faulty σ ε α) fun _ => True :=
  fun _ kept => ⟨kept, fun _ _ => trivial⟩

theorem yields_update {change : σ → σ}
    (keeps : ∀ state, invariant state → invariant (change state)) :
    Yields invariant (update change : Faulty σ ε Unit) fun _ => True :=
  fun state kept => ⟨keeps state kept, fun _ _ => trivial⟩

/-- The rule of sequencing for returned values. -/
theorem yields_bind {next : α → Faulty σ ε β} {middle : α → Prop}
    {property : β → Prop} (yieldsFirst : Yields invariant first middle)
    (yieldsNext : ∀ value, middle value → Yields invariant (next value) property) :
    Yields invariant (first >>= next) property :=
  ensures_bind yieldsFirst (fun value state held =>
      yieldsNext value (held.2 value rfl) state held.1)
    (fun _ _ held => ⟨held.1, fun _ ended => by cases ended⟩)
    (fun _ held => ⟨held.1, fun _ ended => by cases ended⟩)

theorem yields_some (yields : Yields invariant computation property) :
    Yields invariant (computation >>= fun value => pure (some value))
      fun answer => ∃ value, answer = some value ∧ property value :=
  yields_bind yields fun value holds => yields_pure ⟨value, rfl, holds⟩

/-- An attempt keeps the invariant. -/
theorem yields_attempt (yields : Yields invariant computation property) :
    Yields invariant (attempt computation) fun _ => True :=
  ensures_attempt yields (fun _ _ held => ⟨held.1, fun _ _ => trivial⟩)
    (fun _ _ held => ⟨held.1, fun _ _ => trivial⟩)
    (fun _ held => ⟨held.1, fun _ _ => trivial⟩)

/-- An attempt that has a value has one with the property. -/
theorem yields_attempt_ok (yields : Yields invariant computation property) :
    Yields invariant (attempt computation) fun attempted =>
      ∀ value, attempted = .ok value → property value := by
  refine ensures_attempt yields (fun value _ held => ?_) (fun reason _ held => ?_)
    (fun _ held => ⟨held.1, fun _ ended => by cases ended⟩)
  · refine ⟨held.1, fun attempted ended other same => ?_⟩
    cases ended
    cases same
    exact held.2 value rfl
  · refine ⟨held.1, fun attempted ended other same => ?_⟩
    cases ended
    cases same

theorem yields_ignore (yields : Yields invariant computation property) :
    Yields invariant (ignore computation) fun _ => True :=
  yields_bind (yields_attempt yields) fun _ _ => yields_pure trivial

/-- The rule of consequence for returned values. -/
theorem Yields.weaken {stronger weaker : α → Prop} (yields : Yields invariant computation stronger)
    (implies : ∀ value, stronger value → weaker value) :
    Yields invariant computation weaker :=
  fun state kept => ⟨(yields state kept).1, fun value ended =>
    implies value ((yields state kept).2 value ended)⟩

end Yields

end Faulty
end VideoProxy
