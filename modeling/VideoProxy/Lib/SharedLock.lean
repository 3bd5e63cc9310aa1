import Mathlib.Data.Finset.Card
import Mathlib.Logic.Function.Basic

/-!
# Counting tasks, and locks with readers and a writer

Each task is at a place.  A counter fits the places when it counts the tasks at
certain places.  A lock with readers and a writer counts both: it is held by any
number of readers or by one writer, and a task that moves between places takes
it, keeps it or gives it back as the places say.
-/

namespace VideoProxy

variable {ι π : Type*}

/-- The number of tasks at the places that are counted. -/
def Counts (counted : π → Bool) (count : Nat) (places : ι → π) : Prop :=
  ∃ tasks : Finset ι, (∀ task, task ∈ tasks ↔ counted (places task) = true) ∧ tasks.card = count

namespace Counts

variable {counted : π → Bool} {count : Nat} {places : ι → π}

theorem of_none (none : ∀ task, counted (places task) = false) : Counts counted 0 places := by
  refine ⟨∅, fun task => ?_, rfl⟩
  rw [none task]
  simp

theorem eq_false (counts : Counts counted 0 places) (task : ι) : counted (places task) = false := by
  obtain ⟨tasks, members, card_eq⟩ := counts
  rw [Finset.card_eq_zero.mp card_eq] at members
  rw [← Bool.not_eq_true, ← members task]
  exact Finset.notMem_empty task

theorem eq_zero (counts : Counts counted count places)
    (none : ∀ task, counted (places task) = false) :
    count = 0 := by
  obtain ⟨tasks, members, card_eq⟩ := counts
  rw [← card_eq, Finset.card_eq_zero]
  apply Finset.eq_empty_of_forall_notMem
  intro task member
  have counted_eq := (members task).mp member
  rw [none task] at counted_eq
  cases counted_eq

theorem pos (counts : Counts counted count places) {task : ι}
    (here : counted (places task) = true) :
    0 < count := by
  obtain ⟨tasks, members, card_eq⟩ := counts
  rw [← card_eq]
  exact Finset.card_pos.mpr ⟨task, (members task).mpr here⟩

theorem eq_of_one (counts : Counts counted count places) (one : count ≤ 1) {first second : ι}
    (firstHere : counted (places first) = true) (secondHere : counted (places second) = true) :
    first = second := by
  obtain ⟨tasks, members, card_eq⟩ := counts
  exact Finset.card_le_one.mp (card_eq.trans_le one) first ((members first).mpr firstHere)
    second ((members second).mpr secondHere)

/-- A task that moves changes the count by where it comes from and where it
goes. -/
theorem move [DecidableEq ι] (counts : Counts counted count places) (task : ι) (place : π) :
    Counts counted (count + (counted place).toNat - (counted (places task)).toNat)
      (Function.update places task place) := by
  obtain ⟨tasks, members, rfl⟩ := counts
  have elsewhere {other : ι} (ne : other ≠ task) :
      counted (Function.update places task place other) = counted (places other) := by
    rw [Function.update_of_ne ne]
  cases arrives : counted place with
  | true =>
    refine ⟨insert task tasks, fun other => ?_, ?_⟩
    · by_cases same : other = task
      · subst same
        simp [arrives]
      · rw [elsewhere same, ← members other, Finset.mem_insert]
        simp [same]
    · cases leaves : counted (places task) with
      | true =>
        rw [Finset.insert_eq_of_mem ((members task).mpr leaves)]
        rfl
      | false =>
        rw [Finset.card_insert_of_notMem]
        · rfl
        · rw [members task, leaves]
          simp
  | false =>
    refine ⟨tasks.erase task, fun other => ?_, ?_⟩
    · by_cases same : other = task
      · subst same
        simp [arrives]
      · rw [elsewhere same, ← members other, Finset.mem_erase]
        simp [same]
    · cases leaves : counted (places task) with
      | true => exact Finset.card_erase_of_mem ((members task).mpr leaves)
      | false =>
        rw [Finset.erase_eq_of_notMem]
        · rfl
        · rw [members task, leaves]
          simp

end Counts

/-- How a task holds a lock. -/
inductive Grip
  | free
  | shared
  | exclusive
  deriving DecidableEq

/-- A lock that is held by readers or by a writer. -/
structure RwLock where
  writing : Bool
  readers : Nat
  deriving DecidableEq

namespace RwLock

/-- The lock that nobody holds. -/
def unlocked : RwLock := ⟨false, 0⟩

/-- A task goes from one grip to another, if the lock allows it. -/
def move (lock : RwLock) : Grip → Grip → Option RwLock
  | .free, .free => some lock
  | .free, .shared =>
    if lock.writing then none
    else some { lock with readers := lock.readers + 1 }
  | .free, .exclusive =>
    if lock.writing ∨ lock.readers ≠ 0 then none
    else some { lock with writing := true }
  | .shared, .free => some { lock with readers := lock.readers - 1 }
  | .shared, .shared => some lock
  | .shared, .exclusive => none
  | .exclusive, .free => some { lock with writing := false }
  | .exclusive, .shared => none
  | .exclusive, .exclusive => some lock

/-- The lock counts the tasks that hold it. -/
structure Fits (grip : π → Grip) (lock : RwLock) (places : ι → π) : Prop where
  readers : Counts (fun place => grip place = .shared) lock.readers places
  writers :
    Counts (fun place => grip place = .exclusive) lock.writing.toNat places
  apart : lock.writing = true → lock.readers = 0

variable {grip : π → Grip} {lock next : RwLock} {places : ι → π}
  {task other : ι} {place : π}

theorem fits_unlocked (free : ∀ task, grip (places task) = .free) : unlocked.Fits grip places := by
  refine ⟨Counts.of_none fun task => ?_, Counts.of_none fun task => ?_, ?_⟩
  · rw [free task]
    rfl
  · rw [free task]
    rfl
  · exact fun _ => rfl

/-- The other tasks do not hold a lock that a task holds for writing. -/
theorem Fits.free_of_exclusive (fits : lock.Fits grip places)
    (exclusive : grip (places task) = .exclusive) (ne : other ≠ task) :
    grip (places other) = .free := by
  have here : decide (grip (places task) = .exclusive) = true :=
    decide_eq_true exclusive
  have writing : lock.writing = true := by
    have positive := fits.writers.pos here
    cases held : lock.writing with
    | true => rfl
    | false =>
      rw [held] at positive
      cases positive
  cases held : grip (places other) with
  | free => rfl
  | shared =>
    have readers := fits.readers
    rw [fits.apart writing] at readers
    exact absurd held (of_decide_eq_false (readers.eq_false other))
  | exclusive =>
    exact absurd (fits.writers.eq_of_one (Bool.toNat_le _) (decide_eq_true held) here) ne

theorem Fits.not_exclusive (fits : lock.Fits grip places) (reads : grip (places task) = .shared) :
    grip (places other) ≠ .exclusive := by
  intro exclusive
  by_cases same : task = other
  · subst same
    rw [reads] at exclusive
    cases exclusive
  · have free := fits.free_of_exclusive exclusive same
    rw [reads] at free
    cases free

/-- A task that moves takes the lock along as the places say. -/
theorem Fits.move [DecidableEq ι] (fits : lock.Fits grip places)
    (moves : lock.move (grip (places task)) (grip place) = some next) :
    next.Fits grip (Function.update places task place) := by
  have readers := fits.readers.move task place
  have writers := fits.writers.move task place
  have apart := fits.apart
  cases from_eq : grip (places task) <;> cases to_eq : grip place <;>
    simp only [from_eq, to_eq, RwLock.move, reduceCtorEq, decide_true,
      decide_false, Bool.toNat_true, Bool.toNat_false, Nat.add_zero,
      Nat.sub_zero, Nat.add_sub_cancel] at moves readers writers
  case free.free | shared.shared | exclusive.exclusive =>
    cases moves
    exact ⟨readers, writers, apart⟩
  case free.shared =>
    split at moves
    · cases moves
    · rename_i idle
      cases moves
      exact ⟨readers, writers, fun busy => absurd busy idle⟩
  case free.exclusive =>
    split at moves
    · cases moves
    · rename_i idle
      rw [not_or, Bool.not_eq_true, not_not] at idle
      cases moves
      rw [idle.1] at writers
      exact ⟨readers, writers, fun _ => idle.2⟩
  case shared.free =>
    cases moves
    refine ⟨readers, writers, fun busy => ?_⟩
    have none := apart busy
    change lock.readers - 1 = 0
    omega
  case exclusive.free =>
    cases moves
    refine ⟨readers, ?_, fun busy => absurd busy Bool.false_ne_true⟩
    have writing := Bool.toNat_le lock.writing
    have none : lock.writing.toNat - 1 = 0 := by omega
    rw [none] at writers
    exact writers

end RwLock
end VideoProxy
