import Mathlib.Logic.Function.Basic

/-!
# Watch channels

A watch channel keeps the last value that was sent and the number of values that
were sent before.  A receiver remembers the number it has seen.  Sending fails
without a trace if nobody receives, so a receiver that comes later does not find
the value.
-/

namespace VideoProxy

/-- A channel with the number of its senders and receivers. -/
structure Watch (α : Type*) where
  value : α
  version : Nat
  senders : Nat
  receivers : Nat
  deriving DecidableEq

namespace Watch

variable {α : Type*}

/-- A new channel with one sender and one receiver. -/
def channel (value : α) : Watch α where
  value := value
  version := 0
  senders := 1
  receivers := 1

/-- One more sender. -/
def cloneSender (watch : Watch α) : Watch α :=
  { watch with senders := watch.senders + 1 }

/-- A sender is dropped. -/
def dropSender (watch : Watch α) : Watch α :=
  { watch with senders := watch.senders - 1 }

/-- One more receiver; it has seen the version of now. -/
def subscribe (watch : Watch α) : Watch α :=
  { watch with receivers := watch.receivers + 1 }

/-- A receiver is dropped. -/
def dropReceiver (watch : Watch α) : Watch α :=
  { watch with receivers := watch.receivers - 1 }

/-- A value is sent, if somebody receives. -/
def send (value : α) (watch : Watch α) : Watch α :=
  if watch.receivers = 0 then watch
  else { watch with value, version := watch.version + 1 }

/-- A receiver that has seen a version does not have to wait: there is a newer
one, or all senders are gone. -/
def Notifies (watch : Watch α) (seen : Nat) : Prop :=
  watch.version ≠ seen ∨ watch.senders = 0

instance (watch : Watch α) (seen : Nat) : Decidable (watch.Notifies seen) :=
  inferInstanceAs (Decidable (_ ∨ _))

/-- Only the number of receivers differs. -/
structure SameSignal (before after : Watch α) : Prop where
  value : after.value = before.value
  version : after.version = before.version
  senders : after.senders = before.senders

theorem SameSignal.refl (watch : Watch α) : SameSignal watch watch :=
  ⟨rfl, rfl, rfl⟩

theorem subscribe_sameSignal (watch : Watch α) : SameSignal watch watch.subscribe :=
  ⟨rfl, rfl, rfl⟩

theorem dropReceiver_sameSignal (watch : Watch α) : SameSignal watch watch.dropReceiver :=
  ⟨rfl, rfl, rfl⟩

theorem send_of_pos {watch : Watch α} (received : 0 < watch.receivers) (value : α) :
    watch.send value = { watch with value, version := watch.version + 1 } :=
  if_neg (Nat.ne_of_gt received)

@[simp] theorem send_receivers (value : α) (watch : Watch α) :
    (watch.send value).receivers = watch.receivers := by
  unfold send
  split <;> rfl

theorem SameSignal.update {ι : Type*} [DecidableEq ι] {channels : ι → Watch α} {index : ι}
    {watch : Watch α} (same : SameSignal (channels index) watch) (other : ι) :
    SameSignal (channels other) (Function.update channels index watch other) := by
  by_cases equal : other = index
  · subst equal
    rw [Function.update_self]
    exact same
  · rw [Function.update_of_ne equal]
    exact .refl _

end Watch
end VideoProxy
