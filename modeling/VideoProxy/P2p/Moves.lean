import VideoProxy.P2p.Lifecycle

/-!
# The steps of calls on the registry

Each step of a call is listed with what it has checked and what it does to the
shared state.  Whatever is to be shown about calls is shown for these steps.
-/

namespace VideoProxy
namespace P2pLifecycle

/-- The steps of a call, with what each has checked. -/
inductive Moves (shared : Shared) : Place → Shared → Place → Prop
  | beginReader {purpose id} :
      Moves shared .unstarted shared (.entering purpose id)
  | beginRegister {diskDir} :
      Moves shared .unstarted shared (.registering diskDir)
  | beginRefused {reason} : Moves shared .unstarted shared (.refused reason)
  | beginRemove {id} : Moves shared .unstarted shared (.removing id)
  | enter {purpose id} :
      Moves shared (.entering purpose id) shared (.looking purpose id)
  | miss {purpose id} (missing : shared.entries.lookup id = none) :
      Moves shared (.looking purpose id) shared (.answered purpose id none (.error notFound))
  | find {purpose id handle}
      (found : shared.entries.lookup id = some handle) :
      Moves shared (.looking purpose id) shared (.checking purpose id handle)
  | reject {id handle}
      (flagged : (shared.registrations handle).invalid = true) :
      Moves shared (.checking .readRange id handle) shared
        (.answered .readRange id (some handle) (.error invalidSource))
  | pass {purpose id handle}
      (usable : purpose = .readRange → (shared.registrations handle).invalid = false) :
      Moves shared (.checking purpose id handle) shared (.leasing purpose id handle)
  | lease {purpose id handle} :
      Moves shared (.leasing purpose id handle)
        (shared.setActive handle ((shared.registrations handle).active + 1))
        (.leased purpose id handle)
  | overflow {purpose id handle} :
      Moves shared (.leasing purpose id handle) shared
        (.answered purpose id (some handle) (.error leaseOverflow))
  | unlock {purpose id handle} :
      Moves shared (.leased purpose id handle) shared (.working purpose id handle)
  | invoke {purpose id handle} :
      Moves shared (.working purpose id handle) shared (.calling purpose id handle)
  | resume {purpose id handle} :
      Moves shared (.calling purpose id handle) shared (.working purpose id handle)
  | finish {purpose id handle outcome} (plain : outcome ≠ .integrityError) :
      Moves shared (.working purpose id handle) shared (.closing purpose id handle outcome)
  | mismatch {id handle} :
      Moves shared (.working .verifyComplete id handle) shared (.condemning id handle)
  | condemn {id handle directory}
      (cached : (shared.registrations handle).diskDir = some directory) :
      Moves shared (.condemning id handle) (shared.invalidate handle) (.marking id handle directory)
  | condemnBare {id handle}
      (bare : (shared.registrations handle).diskDir = none) :
      Moves shared (.condemning id handle) (shared.invalidate handle)
        (.closing .verifyComplete id handle .integrityError)
  | mark {id handle directory} :
      Moves shared (.marking id handle directory) (shared.persistInvalidManifest directory)
        (.sweepEntering id handle directory)
  | sweep {id handle directory} :
      Moves shared (.sweepEntering id handle directory)
        shared (.sweeping id handle directory shared.listed)
  | sweepFlag {id handle directory other others}
      (same : (shared.registrations other).diskDir = some directory) :
      Moves shared (.sweeping id handle directory (other :: others))
        (shared.invalidate other) (.sweeping id handle directory others)
  | sweepSkip {id handle directory other others}
      (differs : (shared.registrations other).diskDir ≠ some directory) :
      Moves shared (.sweeping id handle directory (other :: others))
        shared (.sweeping id handle directory others)
  | swept {id handle directory} :
      Moves shared (.sweeping id handle directory [])
        shared (.closing .verifyComplete id handle .integrityError)
  | close {purpose id handle outcome} :
      Moves shared (.closing purpose id handle outcome)
        (shared.setActive handle ((shared.registrations handle).active - 1))
        (.answered purpose id (some handle) outcome)
  | enterRegister {diskDir} :
      Moves shared (.registering diskDir) shared (.probing diskDir)
  | refuse {diskDir reason} :
      Moves shared (.probing diskDir) shared (.refused reason)
  | refuseInvalidated {diskDir nextId}
      (following : followingId shared.nextId = some nextId) :
      Moves shared (.probing diskDir) (shared.claim nextId) (.refused previouslyInvalidated)
  | claim {diskDir nextId}
      (following : followingId shared.nextId = some nextId)
      (unmarked : diskDir.any shared.invalidated = false) :
      Moves shared (.probing diskDir) (shared.claim nextId) (.inserting diskDir shared.nextId)
  | insert {diskDir id} :
      Moves shared (.inserting diskDir id) (shared.insert id diskDir) (.registered id shared.issued)
  | enterRemove {id} : Moves shared (.removing id) shared (.erasing id)
  | notListed {id} (missing : shared.entries.lookup id = none) :
      Moves shared (.erasing id) shared (.absent id)
  | erase {id handle} (found : shared.entries.lookup id = some handle) :
      Moves shared (.erasing id) (shared.erase id) (.awaiting id handle)
  | idle {id handle directory}
      (unused : (shared.registrations handle).active = 0)
      (cached : (shared.registrations handle).diskDir = some directory) :
      Moves shared (.awaiting id handle) shared (.reviewEntering id handle directory)
  | idleBare {id handle}
      (unused : (shared.registrations handle).active = 0) :
      Moves shared (.awaiting id handle) shared (.removed id handle)
  | review {id handle directory} :
      Moves shared (.reviewEntering id handle directory) shared (.reviewing id handle directory)
  | keepDirectory {id handle directory} :
      Moves shared (.reviewing id handle directory) shared (.removed id handle)
  | delete {id handle directory}
      (unreferenced : shared.refersTo directory = false) :
      Moves shared (.reviewing id handle directory) shared (.deleting id handle directory)
  | deleted {id handle directory} :
      Moves shared (.deleting id handle directory)
        (shared.removeDirectory directory) (.removed id handle)
  | notDeleted {id handle directory} :
      Moves shared (.deleting id handle directory) shared (.removed id handle)

variable {shared after : Shared} {place reached : Place}

theorem advance_moves (moves : advance shared place = some (after, reached)) :
    Moves shared place after reached := by
  unfold advance at moves
  split at moves
  case h_1 =>
    cases moves
    exact .enter
  case h_2 =>
    split at moves
    · cases moves
      exact .find ‹_›
    · cases moves
      exact .miss ‹_›
  case h_3 purpose id handle =>
    split at moves
    · rename_i flagged
      obtain ⟨rfl, flagged⟩ := flagged
      cases moves
      exact .reject flagged
    · rename_i usable
      cases moves
      refine .pass fun isRead => ?_
      rw [← Bool.not_eq_true]
      exact fun flagged => usable ⟨isRead, flagged⟩
  case h_4 =>
    split at moves
    · rename_i active active_eq
      cases moves
      rw [← (checkedAdd_eq_some_iff.mp active_eq).1]
      exact .lease
    · cases moves
      exact .overflow
  case h_5 =>
    cases moves
    exact .unlock
  case h_6 =>
    cases moves
    exact .resume
  case h_7 =>
    split at moves
    · cases moves
      exact .condemn ‹_›
    · cases moves
      exact .condemnBare ‹_›
  case h_8 =>
    cases moves
    exact .mark
  case h_9 =>
    cases moves
    exact .sweep
  case h_10 =>
    split at moves
    · cases moves
      exact .sweepFlag ‹_›
    · cases moves
      exact .sweepSkip ‹_›
  case h_11 =>
    cases moves
    exact .swept
  case h_12 =>
    cases moves
    exact .close
  case h_13 =>
    cases moves
    exact .enterRegister
  case h_14 =>
    split at moves
    · cases moves
      exact .refuse
    · split at moves
      · cases moves
        exact .refuse
      · split at moves
        · cases moves
          exact .refuseInvalidated ‹_›
        · rename_i unmarked
          cases moves
          exact .claim ‹_› (Bool.not_eq_true _ ▸ unmarked)
  case h_15 =>
    cases moves
    exact .insert
  case h_16 =>
    cases moves
    exact .enterRemove
  case h_17 =>
    split at moves
    · cases moves
      exact .erase ‹_›
    · cases moves
      exact .notListed ‹_›
  case h_18 =>
    split at moves
    · split at moves
      · cases moves
        exact .idle ‹_› ‹_›
      · cases moves
        exact .idleBare ‹_›
    · cases moves
  case h_19 =>
    cases moves
    exact .review
  case h_20 =>
    split at moves
    · cases moves
      exact .keepDirectory
    · rename_i unreferenced
      cases moves
      exact .delete (Bool.not_eq_true _ ▸ unreferenced)
  case h_21 => cases moves

theorem beginning_moves {choice : Choice} (moves : (if place = .unstarted then
      choice.beginning.map fun beginning => (shared, beginning) else none) =
        some (after, reached)) :
    Moves shared place after reached := by
  split at moves
  · rename_i unstarted
    subst unstarted
    obtain ⟨beginning, starts, moved_eq⟩ := Option.map_eq_some_iff.mp moves
    cases moved_eq
    cases choice with
    | readRange id =>
      cases starts
      exact .beginReader
    | verifyComplete id =>
      cases starts
      exact .beginReader
    | register offer =>
      unfold Choice.beginning at starts
      simp only at starts
      split at starts
      · cases starts
        exact .beginRefused
      · cases starts
        exact .beginRegister
    | remove id =>
      cases starts
      exact .beginRemove
    | advance | invoke | finish _ | delete _ => cases starts
  · cases moves

/-- Every step of a call is one of those above. -/
theorem next_moves {choice : Choice} (moves : next shared place choice = some (after, reached)) :
    Moves shared place after reached := by
  cases choice with
  | readRange id | verifyComplete id | register offer | remove id =>
    exact beginning_moves moves
  | advance => exact advance_moves moves
  | invoke =>
    unfold next at moves
    simp only at moves
    split at moves
    · cases moves
      exact .invoke
    · cases moves
  | finish result =>
    unfold next at moves
    simp only at moves
    split at moves
    · rename_i purpose id handle
      cases moves
      cases result with
      | error reason => cases purpose <;> exact .finish (by simp)
      | ok same =>
        cases purpose <;> cases same
        case verifyComplete.false => exact .mismatch
        all_goals exact .finish (by simp)
    · cases moves
  | delete gone =>
    unfold next at moves
    simp only at moves
    split at moves
    · cases gone with
      | true =>
        cases moves
        exact .deleted
      | false =>
        cases moves
        exact .notDeleted
    · cases moves

end P2pLifecycle
end VideoProxy
