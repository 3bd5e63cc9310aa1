import Mathlib.Data.Option.Basic

/-!
# Runs of a transition function

A transition function takes an action in a state to the next state, or refuses
the action.  A state is reached from a start when some run leads to it in which
every action was admitted in the state it was taken in.  A property of the start
that every admitted step keeps holds in every state reached.
-/

namespace VideoProxy

/-- States that admitted actions lead to from a start. -/
inductive Reaches (step : α → σ → Option σ) (admitted : α → σ → Prop) (start : σ) : σ → Prop
  | refl : Reaches step admitted start start
  | tail {before after : σ} {action : α}
      (reached : Reaches step admitted start before)
      (permitted : admitted action before)
      (moves : step action before = some after) :
      Reaches step admitted start after

/-- Take a list of actions, one after the other. -/
def runActions (step : α → σ → Option σ) : List α → σ → Option σ
  | [], state => some state
  | action :: actions, state =>
    (step action state).bind (runActions step actions)

/-- Every action of the list is admitted where it is taken. -/
def AdmitsAll (step : α → σ → Option σ) (admitted : α → σ → Prop) : List α → σ → Prop
  | [], _ => True
  | action :: actions, state =>
    admitted action state ∧
      match step action state with
      | some next => AdmitsAll step admitted actions next
      | none => True

section Runs

variable {step : α → σ → Option σ} {admitted : α → σ → Prop}

variable {start state : σ} {actions : List α}

/-- What holds at the start and after each admitted step holds in every state reached.
-/
theorem Reaches.invariant (reached : Reaches step admitted start state)
    (property : σ → Prop) (starts : property start)
    (keeps : ∀ action before after, property before →
      admitted action before → step action before = some after →
      property after) :
    property state := by
  induction reached with
  | refl => exact starts
  | tail reached permitted moves inductionHypothesis =>
    exact keeps _ _ _ inductionHypothesis permitted moves

theorem Reaches.trans {middle : σ} (reached : Reaches step admitted start middle)
    (continues : Reaches step admitted middle state) :
    Reaches step admitted start state := by
  induction continues with
  | refl => exact reached
  | tail _ permitted moves inductionHypothesis =>
    exact inductionHypothesis.tail permitted moves

/-- A list of admitted actions is run. -/
theorem Reaches.runActions {before after : σ}
    (reached : Reaches step admitted start before) (admits : AdmitsAll step admitted actions before)
    (runs : runActions step actions before = some after) :
    Reaches step admitted start after := by
  induction actions generalizing before with
  | nil =>
    cases runs
    exact reached
  | cons action actions inductionHypothesis =>
    obtain ⟨next, moves, rest⟩ := Option.bind_eq_some_iff.mp runs
    have admitsRest := admits.2
    rw [moves] at admitsRest
    exact inductionHypothesis (reached.tail admits.1 moves) admitsRest rest

instance AdmitsAll.decidable [∀ action state, Decidable (admitted action state)] :
    ∀ actions state, Decidable (AdmitsAll step admitted actions state)
  | [], _ => .isTrue trivial
  | action :: actions, state =>
    @instDecidableAnd _ _ inferInstance <|
      match step action state with
      | some next => AdmitsAll.decidable actions next
      | none => .isTrue trivial

theorem AdmitsAll.and {other : α → σ → Prop} (admits : AdmitsAll step admitted actions state)
    (admitsOther : AdmitsAll step other actions state) :
    AdmitsAll step (fun action state => admitted action state ∧ other action state)
      actions state := by
  induction actions generalizing state with
  | nil => trivial
  | cons action actions inductionHypothesis =>
    obtain ⟨first, rest⟩ := admits
    obtain ⟨firstOther, restOther⟩ := admitsOther
    refine ⟨⟨first, firstOther⟩, ?_⟩
    split
    case h_1 next moves =>
      rw [moves] at rest restOther
      exact inductionHypothesis rest restOther
    case h_2 => trivial

theorem AdmitsAll.weaken {other : α → σ → Prop}
    (implies : ∀ action state, admitted action state → other action state)
    (admits : AdmitsAll step admitted actions state) :
    AdmitsAll step other actions state := by
  induction actions generalizing state with
  | nil => trivial
  | cons action actions inductionHypothesis =>
    obtain ⟨first, rest⟩ := admits
    refine ⟨implies action state first, ?_⟩
    split
    case h_1 next moves =>
      rw [moves] at rest
      exact inductionHypothesis rest
    case h_2 => trivial

theorem admitsAll_of_forall
    (always : ∀ action ∈ actions, ∀ state, admitted action state) (state : σ) :
    AdmitsAll step admitted actions state := by
  induction actions generalizing state with
  | nil => trivial
  | cons action actions inductionHypothesis =>
    refine ⟨always action List.mem_cons_self state, ?_⟩
    split
    · exact inductionHypothesis (fun other mem => always other (List.mem_cons_of_mem _ mem)) _
    · trivial

theorem admitsAll_true (actions : List α) (state : σ) :
    AdmitsAll step (fun _ _ => True) actions state :=
  admitsAll_of_forall (fun _ _ _ => trivial) state

/-- A run that evaluates reaches its state. -/
theorem exists_reaches_of_runActions {observe : σ → β} {observed : β}
    (admits : AdmitsAll step admitted actions start)
    (runs : (runActions step actions start).map observe = some observed) :
    ∃ state, Reaches step admitted start state ∧ observe state = observed := by
  obtain ⟨state, ends, seen⟩ := Option.map_eq_some_iff.mp runs
  exact ⟨state, Reaches.refl.runActions admits ends, seen⟩

/-- A measure that each step raises by its cost is the same at the end of a run
exactly if no step of the run costs anything. -/
theorem admitsAll_iff_of_cost {measure : σ → Nat} {cost : α → σ → Nat}
    (adds : ∀ action before after, step action before = some after →
      measure after = measure before + cost action before)
    {after : σ} (runs : runActions step actions state = some after) :
    measure state ≤ measure after ∧
      (AdmitsAll step (fun action state => cost action state = 0) actions state ↔
        measure after = measure state) := by
  induction actions generalizing state with
  | nil =>
    cases runs
    exact ⟨Nat.le_refl _, iff_of_true trivial rfl⟩
  | cons action actions inductionHypothesis =>
    obtain ⟨next, moves, rest⟩ := Option.bind_eq_some_iff.mp runs
    obtain ⟨raised, free⟩ := inductionHypothesis rest
    have first := adds action state next moves
    refine ⟨by omega, ?_⟩
    rw [AdmitsAll, moves]
    change _ ∧ AdmitsAll step (fun action state => cost action state = 0) actions next ↔ _
    rw [free]
    omega

end Runs

end VideoProxy
