import Mathlib.Logic.Function.Basic

/-!
# Locks and the tasks that hold them

Each task is at a place, and at some places it holds a lock.  The record of the
lock fits the places when it names exactly the task that is at such a place; in
particular there is never more than one.  A task that moves from one place to
another keeps the record fitting if it takes the lock only when it is free and
gives it back when it leaves.
-/

namespace VideoProxy
namespace Mutex

variable {ι π : Type*} {holds : π → Bool} {lock next : Option ι}
  {places : ι → π} {task other : ι} {place : π}

/-- The lock names exactly the task that is at a place with the lock. -/
def Fits (holds : π → Bool) (lock : Option ι) (places : ι → π) : Prop :=
  ∀ task, holds (places task) = true ↔ lock = some task

/-- What a task may do to a lock when it moves between places with or without
it. -/
def Handover (task : ι) (lock next : Option ι) : Bool → Bool → Prop
  | false, false => next = lock
  | false, true => lock = none ∧ next = some task
  | true, false => next = none
  | true, true => next = lock

theorem Handover.keep (holding : Bool) : Handover task lock lock holding holding := by
  cases holding <;> rfl

theorem Handover.release (holding : Bool) :
    Handover task lock (if holding then none else lock) holding false := by
  cases holding <;> rfl

/-- Two holders of a lock are one. -/
theorem Fits.eq_of_holds (fits : Fits holds lock places) (first : holds (places task) = true)
    (second : holds (places other) = true) :
    other = task := by
  have named := (fits task).mp first
  rw [fits other, named, Option.some.injEq] at second
  exact second.symm

theorem Fits.not_holds_of_ne (fits : Fits holds lock places) (first : holds (places task) = true)
    (ne : other ≠ task) :
    holds (places other) = false := by
  rw [← Bool.not_eq_true]
  intro second
  exact ne (fits.eq_of_holds first second)

theorem Fits.not_holds_of_free (fits : Fits holds lock places) (free : lock = none) (task : ι) :
    holds (places task) = false := by
  rw [← Bool.not_eq_true, fits task, free]
  simp

/-- A task that goes on hands the lock over as it says. -/
theorem Fits.move [DecidableEq ι] (fits : Fits holds lock places)
    (handover : Handover task lock next
      (holds (places task)) (holds place)) :
    Fits holds next (Function.update places task place) := by
  intro other
  have current := fits task
  by_cases same : other = task
  · subst other
    rw [Function.update_self]
    cases held : holds (places task) <;> cases keeps : holds place <;> simp_all [Handover]
  · have elsewhere := fits other
    rw [Function.update_of_ne same]
    have different : task ≠ other := fun equal => same equal.symm
    cases held : holds (places task) <;> cases keeps : holds place <;> simp_all [Handover]

end Mutex
end VideoProxy
