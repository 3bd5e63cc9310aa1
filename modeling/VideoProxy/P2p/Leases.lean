import VideoProxy.P2p.Moves

/-!
# Leases on registrations

A call takes its lease while it still holds the lock under which it found the
registration.  So once `remove` has taken the entry out, the leases on the
registration can only become fewer, and when there are none left there will never
be one again.  The same lock keeps new entries away while `remove` looks for
other users of the directory and deletes it.
-/

namespace VideoProxy
namespace P2pLifecycle

namespace Shared

variable {handle : Handle}

theorem mem_listed {shared : Shared} : handle ∈ shared.listed ↔ shared.Live handle := by
  unfold listed Live
  rw [List.mem_map]
  constructor
  · rintro ⟨⟨id, other⟩, member, rfl⟩
    exact ⟨id, AList.mem_lookup_iff.mpr member⟩
  · rintro ⟨id, found⟩
    exact ⟨⟨id, handle⟩, AList.mem_lookup_iff.mp found, rfl⟩

/-- A directory is referred to by a listed registration. -/
theorem refersTo_iff {shared : Shared} {directory : Directory} :
    shared.refersTo directory = true ↔ ∃ handle, shared.Live handle ∧
        (shared.registrations handle).diskDir = some directory := by
  unfold refersTo
  rw [List.any_eq_true]
  constructor
  · rintro ⟨⟨id, handle⟩, member, same⟩
    exact ⟨handle, ⟨id, AList.mem_lookup_iff.mpr member⟩, of_decide_eq_true same⟩
  · rintro ⟨handle, ⟨id, found⟩, same⟩
    exact ⟨⟨id, handle⟩, AList.mem_lookup_iff.mp found, decide_eq_true same⟩

/-- A handle that was given out for an id. -/
def Known (shared : Shared) (id : Nat) (handle : Handle) : Prop :=
  handle < shared.issued ∧ (shared.registrations handle).id = id

/-- A registration that nothing can reach any more. -/
structure Retired (shared : Shared) (id : Nat) (handle : Handle) : Prop where
  known : shared.Known id handle
  notLive : ¬shared.Live handle
  unused : (shared.registrations handle).active = 0

/-- What becomes of registrations in a step. -/
structure Evolves (shared after : Shared) : Prop where
  issued_le : shared.issued ≤ after.issued
  id_eq : ∀ handle < shared.issued,
    (after.registrations handle).id = (shared.registrations handle).id
  diskDir_eq : ∀ handle < shared.issued, (after.registrations handle).diskDir =
      (shared.registrations handle).diskDir
  invalid_eq : ∀ handle < shared.issued, (shared.registrations handle).invalid = true →
      (after.registrations handle).invalid = true
  live : ∀ handle, after.Live handle → shared.Live handle ∨ shared.issued ≤ handle
  active_le : ∀ handle < shared.issued, ¬shared.Live handle → (after.registrations handle).active ≤
      (shared.registrations handle).active

variable {shared after : Shared}

theorem Evolves.of_same (entries_eq : after.entries = shared.entries)
    (registrations_eq : after.registrations = shared.registrations)
    (issued_eq : after.issued = shared.issued) :
    shared.Evolves after := by
  refine ⟨issued_eq.ge, ?_, ?_, ?_, ?_, ?_⟩
  · intro handle _
    rw [registrations_eq]
  · intro handle _
    rw [registrations_eq]
  · intro handle _ flagged
    rw [registrations_eq]
    exact flagged
  · intro handle live
    unfold Live at live
    rw [entries_eq] at live
    exact .inl live
  · intro handle _ _
    rw [registrations_eq]

theorem Evolves.setActive {active : Nat} (bounded : shared.Live handle ∨
      active ≤ (shared.registrations handle).active) :
    shared.Evolves (shared.setActive handle active) := by
  refine ⟨le_rfl, by simp, by simp, by simp, fun _ => .inl, fun other _ notLive => ?_⟩
  rw [setActive_active]
  split
  · rename_i same
    subst same
    exact bounded.resolve_left notLive
  · exact le_rfl

theorem Evolves.invalidate (handle : Handle) : shared.Evolves (shared.invalidate handle) := by
  refine ⟨le_rfl, by simp, by simp, fun other _ flagged => ?_, fun _ => .inl, by simp⟩
  exact (shared.invalidate_invalid handle other).mpr (.inr flagged)

theorem Evolves.erase (id : Nat) : shared.Evolves (shared.erase id) := by
  refine ⟨le_rfl, fun _ _ => rfl, fun _ _ => rfl, fun _ _ flagged => flagged,
    ?_, fun _ _ _ => le_rfl⟩
  rintro handle ⟨other, found⟩
  by_cases same : other = id
  · subst same
    rw [Shared.erase, AList.lookup_erase] at found
    cases found
  · rw [Shared.erase, AList.lookup_erase_ne same] at found
    exact .inl ⟨other, found⟩

theorem Evolves.insert (id : Nat) (diskDir : Option Directory) :
    shared.Evolves (shared.insert id diskDir) := by
  have others {other : Handle} (older : other < shared.issued) :
      (shared.insert id diskDir).registrations other = shared.registrations other :=
    Function.update_of_ne older.ne _ _
  refine ⟨Nat.le_succ _, fun other older => ?_, fun other older => ?_,
    fun other older flagged => ?_, ?_, fun other older _ => ?_⟩
  · rw [others older]
  · rw [others older]
  · rw [others older]
    exact flagged
  · rintro handle ⟨other, found⟩
    by_cases same : other = id
    · subst same
      rw [Shared.insert, AList.lookup_insert] at found
      cases found
      exact .inr le_rfl
    · rw [Shared.insert, AList.lookup_insert_ne same] at found
      exact .inl ⟨other, found⟩
  · rw [others older]

/-- Entries are known registrations under their ids. -/
def Listing (shared : Shared) : Prop :=
  ∀ id handle, shared.entries.lookup id = some handle → shared.Known id handle

theorem Known.evolves {id : Nat} (known : shared.Known id handle) (evolves : shared.Evolves after) :
    after.Known id handle := by
  refine ⟨known.1.trans_le evolves.issued_le, ?_⟩
  rw [evolves.id_eq handle known.1]
  exact known.2

/-- What was taken from the table does not come back. -/
theorem not_live_of_evolves (older : handle < shared.issued)
    (notLive : ¬shared.Live handle) (evolves : shared.Evolves after) :
    ¬after.Live handle := by
  intro live
  rcases evolves.live handle live with before | newer
  · exact notLive before
  · exact absurd older newer.not_gt

theorem Retired.evolves {id : Nat} (retired : shared.Retired id handle)
    (evolves : shared.Evolves after) :
    after.Retired id handle := by
  refine ⟨retired.known.evolves evolves,
    not_live_of_evolves retired.known.1 retired.notLive evolves, ?_⟩
  have bound := evolves.active_le handle retired.known.1 retired.notLive
  rw [retired.unused] at bound
  exact Nat.le_zero.mp bound

theorem Listing.known_of_live (listing : shared.Listing) (live : shared.Live handle) :
    handle < shared.issued := by
  obtain ⟨id, found⟩ := live
  exact (listing id handle found).1

end Shared

open Shared

/-- What holds of the shared state where a call is. -/
def Place.Sound (shared : Shared) : Place → Prop
  | .checking _ id handle | .leasing _ id handle | .leased _ id handle =>
    shared.entries.lookup id = some handle
  | .working _ id handle | .calling _ id handle | .condemning id handle
  | .closing _ id handle _ | .answered _ id (some handle) _
  | .registered id handle => shared.Known id handle
  | .marking id handle directory | .sweepEntering id handle directory
  | .sweeping id handle directory _ =>
    shared.Known id handle ∧ (shared.registrations handle).diskDir = some directory
  | .answered _ _ none outcome => outcome = .error notFound
  | .awaiting id handle => shared.Known id handle ∧ ¬shared.Live handle
  | .reviewEntering id handle _ | .reviewing id handle _
  | .removed id handle => shared.Retired id handle
  | .deleting id handle directory =>
    shared.Retired id handle ∧ ∀ other, shared.Live other →
        (shared.registrations other).diskDir ≠ some directory
  | _ => True

section Steps

variable {shared after : Shared} {place reached : Place}

/-- Only a writer changes the table. -/
theorem Moves.entries_eq (moves : Moves shared place after reached)
    (notWriting : place.grip ≠ .exclusive) :
    after.entries = shared.entries := by
  cases moves
  case insert | erase => exact absurd rfl notWriting
  all_goals rfl

/-- Every move lets the registry evolve. -/
theorem Moves.evolves (moves : Moves shared place after reached) (sound : place.Sound shared) :
    shared.Evolves after := by
  cases moves
  case lease => exact .setActive (.inl ⟨_, sound⟩)
  case close => exact .setActive (.inr (Nat.sub_le _ _))
  case condemn | condemnBare | sweepFlag => exact .invalidate _
  case erase => exact .erase _
  case insert => exact .insert _ _
  all_goals exact .of_same rfl rfl rfl

/-- Every move keeps the table in order. -/
theorem Moves.listing (moves : Moves shared place after reached) (sound : place.Sound shared)
    (listing : shared.Listing) :
    after.Listing := by
  intro id handle found
  have evolves := moves.evolves sound
  by_cases writing : place.grip = .exclusive
  · cases moves
    case erase erased _ _ =>
      refine (listing id handle ?_).evolves evolves
      by_cases same : id = erased
      · subst same
        rw [Shared.erase, AList.lookup_erase] at found
        cases found
      · rw [Shared.erase, AList.lookup_erase_ne same] at found
        exact found
    case insert diskDir inserted =>
      by_cases same : id = inserted
      · subst same
        rw [Shared.insert, AList.lookup_insert] at found
        cases found
        exact ⟨Nat.lt_succ_self _, by simp [Shared.insert]⟩
      · rw [Shared.insert, AList.lookup_insert_ne same] at found
        exact (listing id handle found).evolves evolves
    case refuse | refuseInvalidated | claim | notListed =>
      exact (listing id handle found).evolves evolves
    all_goals cases writing
  · rw [moves.entries_eq writing] at found
    exact (listing id handle found).evolves evolves

/-- What holds where a call is stays true while others move; the others leave
the entries alone if the call holds the lock. -/
theorem Place.Sound.evolves (sound : place.Sound shared) (listing : shared.Listing)
    (evolves : shared.Evolves after)
    (locked : place.grip = .shared → after.entries = shared.entries) :
    place.Sound after := by
  cases place
  case checking | leasing | leased =>
    change after.entries.lookup _ = _
    rw [locked rfl]
    exact sound
  case working | calling | condemning | closing | registered =>
    exact Known.evolves sound evolves
  case answered purpose id handle outcome =>
    cases handle with
    | none => exact sound
    | some handle => exact Known.evolves sound evolves
  case marking | sweepEntering | sweeping =>
    refine ⟨sound.1.evolves evolves, ?_⟩
    rw [evolves.diskDir_eq _ sound.1.1]
    exact sound.2
  case awaiting =>
    exact ⟨sound.1.evolves evolves, not_live_of_evolves sound.1.1 sound.2 evolves⟩
  case reviewEntering | reviewing | removed =>
    exact Retired.evolves sound evolves
  case deleting =>
    refine ⟨sound.1.evolves evolves, fun other live => ?_⟩
    have liveBefore : shared.Live other := by
      unfold Live at live
      rw [locked rfl] at live
      exact live
    rw [evolves.diskDir_eq other (listing.known_of_live liveBefore)]
    exact sound.2 other liveBefore
  all_goals trivial

/-- Where a call arrives, what has to hold does. -/
theorem Moves.sound (moves : Moves shared place after reached) (sound : place.Sound shared)
    (listing : shared.Listing) :
    reached.Sound after := by
  have evolves := moves.evolves sound
  cases moves
  case find found => exact found
  case miss => rfl
  case pass => exact sound
  case lease => exact sound
  case reject | overflow | unlock => exact listing _ _ sound
  case invoke | resume | finish | mismatch => exact sound
  case condemn cached =>
    refine ⟨Known.evolves sound evolves, ?_⟩
    rw [evolves.diskDir_eq _ sound.1]
    exact cached
  case condemnBare => exact Known.evolves sound evolves
  case mark => exact sound
  case sweep | sweepSkip => exact sound
  case sweepFlag =>
    refine ⟨sound.1.evolves evolves, ?_⟩
    rw [evolves.diskDir_eq _ sound.1.1]
    exact sound.2
  case swept => exact sound.1
  case close => exact Known.evolves sound evolves
  case insert => exact ⟨Nat.lt_succ_self _, by simp [Shared.insert]⟩
  case erase id handle found =>
    refine ⟨listing _ _ found, ?_⟩
    rintro ⟨other, otherFound⟩
    by_cases same : other = id
    · subst same
      rw [Shared.erase, AList.lookup_erase] at otherFound
      cases otherFound
    · rw [Shared.erase, AList.lookup_erase_ne same] at otherFound
      exact same ((listing other handle otherFound).2.symm.trans (listing id handle found).2)
  case idle unused _ => exact ⟨sound.1, sound.2, unused⟩
  case idleBare unused => exact ⟨sound.1, sound.2, unused⟩
  case review | keepDirectory => exact sound
  case delete unreferenced =>
    refine ⟨sound, fun other live same => ?_⟩
    rw [refersTo_iff.mpr ⟨other, live, same⟩] at unreferenced
    cases unreferenced
  case deleted => exact Retired.evolves sound.1 evolves
  case notDeleted => exact sound.1
  all_goals trivial

/-- The leases of a registration are counted. -/
theorem Moves.active_eq (moves : Moves shared place after reached)
    (unissued : (shared.registrations shared.issued).active = 0) (handle : Handle) :
    (after.registrations handle).active = (shared.registrations handle).active +
          (decide (reached.lease = some handle)).toNat -
        (decide (place.lease = some handle)).toNat := by
  cases moves
  case lease purpose id leased | close purpose id leased outcome =>
    rw [setActive_active]
    by_cases same : handle = leased
    · subst same
      simp [Place.lease]
    · simp [Place.lease, same, Ne.symm same]
  case condemn | condemnBare | sweepFlag => simp [Place.lease]
  case insert =>
    by_cases same : handle = shared.issued
    · subst same
      simp [Shared.insert, Place.lease, unissued]
    · simp [Shared.insert, Place.lease, Function.update_of_ne same]
  all_goals simp [Place.lease, Shared.persistInvalidManifest,
    Shared.removeDirectory, Shared.claim, Shared.erase]

theorem Place.Sound.lease_lt (sound : place.Sound shared) (listing : shared.Listing)
    {handle : Handle} (leased : place.lease = some handle) :
    handle < shared.issued := by
  cases place <;> cases leased
  case leased => exact (listing _ _ sound).1
  case working | calling | condemning | closing => exact sound.1
  case marking | sweepEntering | sweeping => exact sound.1.1

end Steps

/-! ## Runs -/

/-- What holds in every state of a run. -/
structure Coherent (world : World) : Prop where
  lock : world.lock.Fits Place.grip world.calls
  leases : ∀ handle, Counts (fun place => place.lease = some handle)
      (world.shared.registrations handle).active world.calls
  listing : world.shared.Listing
  sound : ∀ call, (world.calls call).Sound world.shared

/-- A step of a call is a move with a change of its lock. -/
theorem step_act {call : CallId} {choice : Choice} {world after : World}
    (moves : step (.act call choice) world = some after) :
    ∃ shared place lock, Moves world.shared (world.calls call) shared place ∧
      world.lock.move (world.calls call).grip place.grip = some lock ∧
      after = ⟨shared, lock, Function.update world.calls call place⟩ := by
  obtain ⟨⟨shared, place⟩, nextStep, moved⟩ := Option.bind_eq_some_iff.mp moves
  obtain ⟨lock, taken, rfl⟩ := Option.map_eq_some_iff.mp moved
  exact ⟨shared, place, lock, next_moves nextStep, taken, rfl⟩

theorem fresh_coherent (invalidated : Directory → Bool) :
    Coherent (World.fresh invalidated) where
  lock := RwLock.fits_unlocked fun _ => rfl
  leases _ := Counts.of_none fun _ => rfl
  listing id handle found := by
    change (∅ : AList fun _ : Nat => Handle).lookup id = _ at found
    rw [AList.lookup_empty] at found
    cases found
  sound _ := trivial

namespace Coherent

variable {world after : World}

theorem unissued_unused (coherent : Coherent world) :
    (world.shared.registrations world.shared.issued).active = 0 := by
  refine (coherent.leases world.shared.issued).eq_zero fun call => ?_
  apply decide_eq_false
  intro leased
  exact absurd ((coherent.sound call).lease_lt coherent.listing leased) (Nat.lt_irrefl _)

theorem entries_eq (coherent : Coherent world) {call other : CallId} {shared : Shared}
    {place : Place} (moves : Moves world.shared (world.calls call) shared place)
    (locked : (world.calls other).grip = .shared) :
    shared.entries = world.shared.entries :=
  moves.entries_eq (coherent.lock.not_exclusive locked)

/-- The moves of a call keep the world coherent. -/
theorem move (coherent : Coherent world) {call : CallId} {shared : Shared} {place : Place}
    {lock : RwLock} (moves : Moves world.shared (world.calls call) shared place)
    (taken : world.lock.move (world.calls call).grip place.grip = some lock) :
    Coherent ⟨shared, lock, Function.update world.calls call place⟩ where
  lock := coherent.lock.move taken
  leases handle := by
    rw [moves.active_eq coherent.unissued_unused handle]
    exact (coherent.leases handle).move call place
  listing := moves.listing (coherent.sound call) coherent.listing
  sound other := by
    by_cases same : other = call
    · subst same
      change (Function.update world.calls other place other).Sound shared
      rw [Function.update_self]
      exact moves.sound (coherent.sound other) coherent.listing
    · change (Function.update world.calls call place other).Sound shared
      rw [Function.update_of_ne same]
      exact (coherent.sound other).evolves coherent.listing
        (moves.evolves (coherent.sound call)) (coherent.entries_eq moves)

theorem restarted_evolves (world : World) : world.shared.Evolves world.restarted.shared := by
  refine ⟨le_rfl, fun _ _ => rfl, fun _ _ => rfl, fun _ _ flagged => flagged,
    ?_, fun _ _ _ => Nat.zero_le _⟩
  rintro handle ⟨id, found⟩
  change (∅ : AList fun _ : Nat => Handle).lookup id = _ at found
  rw [AList.lookup_empty] at found
  cases found

theorem not_live_restarted (world : World) (handle : Handle) :
    ¬world.restarted.shared.Live handle := by
  rintro ⟨id, found⟩
  change (∅ : AList fun _ : Nat => Handle).lookup id = _ at found
  rw [AList.lookup_empty] at found
  cases found

theorem abandoned_cases (place : Place) :
    place.abandoned = .lost ∨ place.abandoned = place ∧
        (place = .unstarted ∨ place.hasReturned = true) := by
  unfold Place.abandoned
  split
  · rename_i stays
    exact .inr ⟨rfl, stays⟩
  · exact .inl rfl

theorem abandoned_free (place : Place) :
    place.abandoned.grip = .free ∧ place.abandoned.lease = none := by
  rcases abandoned_cases place with isLost | ⟨same, rfl | returned⟩
  · rw [isLost]
    exact ⟨rfl, rfl⟩
  · exact ⟨rfl, rfl⟩
  · rw [same]
    cases place <;> first | exact ⟨rfl, rfl⟩ | cases returned

/-- A restart keeps the world coherent. -/
theorem restarted (coherent : Coherent world) :
    Coherent world.restarted where
  lock := RwLock.fits_unlocked fun call =>
    (abandoned_free (world.calls call)).1
  leases handle := Counts.of_none fun call => by
    change decide ((world.calls call).abandoned.lease = some handle) = false
    rw [(abandoned_free (world.calls call)).2]
    rfl
  listing id handle found :=
    absurd ⟨id, found⟩ (not_live_restarted world handle)
  sound call := by
    change (world.calls call).abandoned.Sound world.restarted.shared
    rcases abandoned_cases (world.calls call) with isLost | ⟨same, kept⟩
    · rw [isLost]
      trivial
    · rw [same]
      refine (coherent.sound call).evolves coherent.listing
        (restarted_evolves world) fun locked => ?_
      have free := (abandoned_free (world.calls call)).1
      rw [same, locked] at free
      cases free

end Coherent

/-- Every step keeps the world coherent. -/
theorem step_coherent {action : Action} {world after : World} (coherent : Coherent world)
    (moves : step action world = some after) :
    Coherent after := by
  cases action with
  | act call choice =>
    obtain ⟨shared, place, lock, moved, taken, rfl⟩ := step_act moves
    exact coherent.move moved taken
  | restart =>
    cases moves
    exact coherent.restarted

/-- Every run keeps the world coherent. -/
theorem reaches_coherent {admitted : Action → World → Prop} {start world : World}
    (coherent : Coherent start) (reached : Reaches step admitted start world) :
    Coherent world :=
  reached.invariant Coherent coherent fun _ _ _ before _ moves => step_coherent before moves

end P2pLifecycle
end VideoProxy
