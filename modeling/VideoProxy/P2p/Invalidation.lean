import VideoProxy.P2p.Removal

/-!
# Invalidated identities

When `verify_complete` finds that the pieces do not make up the content, it flags
the registration, leaves a marker in the directory, and flags the other
registrations of the directory.  Only then does it return its error.  From then
on, reads of the registrations in the table and new registrations of the identity
are refused until the last of the registrations is removed.

This needs the marker to stay until `verify_complete` returns.  It is lost if the
registration that is verified and all others of its directory are removed in the
meantime: the last `remove` then deletes the directory.
-/

namespace VideoProxy
namespace P2pLifecycle

open Shared

/-- The call has marked the directory and not returned yet. -/
def Place.Marked (shared : Shared) (directory : Directory) : Place → Prop
  | .sweepEntering _ _ marked | .sweeping _ _ marked _ => marked = directory
  | .closing _ _ handle .integrityError =>
    (shared.registrations handle).diskDir = some directory
  | _ => False

/-- The call removes a registration of the directory from the table, or has done
so and not returned yet. -/
def Place.Removes (shared : Shared) (directory : Directory) : Place → Prop
  | .awaiting _ handle =>
    (shared.registrations handle).diskDir = some directory
  | .reviewEntering _ _ reviewed | .reviewing _ _ reviewed
  | .deleting _ _ reviewed => reviewed = directory
  | _ => False

/-- No directory is deleted between the time that a call marks it and the time
that the call returns. -/
def DeletesUnmarked (action : Action) (world : World) : Prop :=
  ∀ call id handle directory, action = .act call (.delete true) →
    world.calls call = .deleting id handle directory →
      ∀ other, ¬(world.calls other).Marked world.shared directory

/-- No entry is overwritten. -/
def insertsFresh (action : Action) (world : World) : Bool :=
  match action with
  | .restart => true
  | .act call _ =>
    match world.calls call with
    | .inserting _ id => (world.shared.entries.lookup id).isNone
    | _ => true

/-- The last registration of the directory is not removed. -/
def keepsLast (directory : Directory) (action : Action) (world : World) :
    Bool :=
  match action with
  | .restart => true
  | .act call _ =>
    match world.calls call with
    | .erasing id =>
      (world.shared.entries.lookup id).all fun handle =>
        (world.shared.registrations handle).diskDir ≠ some directory ||
          (world.shared.erase id).refersTo directory
    | _ => true

/-- The condition on the steps of a run. -/
def Undisturbed (action : Action) (world : World) : Prop :=
  insertsFresh action world = true ∧ DeletesUnmarked action world

/-! ## Steps -/

section Steps

variable {shared after : Shared} {place reached : Place}

/-- A new entry is the registration that the call was about to insert. -/
theorem Moves.live (moves : Moves shared place after reached) {handle : Handle}
    (live : after.Live handle) :
    shared.Live handle ∨ ∃ diskDir id, place = .inserting diskDir id ∧
        (after.registrations handle).diskDir = diskDir := by
  cases moves
  case insert diskDir id =>
    obtain ⟨other, found⟩ := live
    by_cases same : other = id
    · subst same
      rw [Shared.insert, AList.lookup_insert] at found
      cases found
      exact .inr ⟨diskDir, other, rfl, by simp [Shared.insert]⟩
    · rw [Shared.insert, AList.lookup_insert_ne same] at found
      exact .inl ⟨other, found⟩
  case erase id handle _ =>
    obtain ⟨other, found⟩ := live
    by_cases same : other = id
    · subst same
      rw [Shared.erase, AList.lookup_erase] at found
      cases found
    · rw [Shared.erase, AList.lookup_erase_ne same] at found
      exact .inl ⟨other, found⟩
  all_goals exact .inl live

/-- A marker goes only with its directory. -/
theorem Moves.invalidated (moves : Moves shared place after reached) {directory : Directory}
    (marked : shared.invalidated directory = true) :
    after.invalidated directory = true ∨ after.invalidated directory = false ∧
        ∃ id handle, place = .deleting id handle directory := by
  cases moves
  case mark other =>
    by_cases same : directory = other
    · subst same
      exact .inl (by simp [Shared.persistInvalidManifest])
    · left
      simpa [Shared.persistInvalidManifest, Function.update_of_ne same] using marked
  case deleted id handle other =>
    by_cases same : directory = other
    · subst same
      exact .inr ⟨by simp [Shared.removeDirectory], id, handle, rfl⟩
    · left
      simpa [Shared.removeDirectory, Function.update_of_ne same] using marked
  all_goals exact .inl marked

theorem Moves.inserting (moves : Moves shared place after reached) {directory : Directory}
    {id : Nat} (isInserting : reached = .inserting (some directory) id) :
    shared.invalidated directory = false := by
  cases moves <;> cases isInserting
  case claim unmarked => exact unmarked

theorem next_invalidated {choice : Choice}
    (moves : next shared place choice = some (after, reached)) {directory : Directory}
    (marked : shared.invalidated directory = true) :
    after.invalidated directory = true ∨ choice = .delete true ∧
        ∃ id handle, place = .deleting id handle directory := by
  rcases (next_moves moves).invalidated marked with
    kept | ⟨lost, id, handle, rfl⟩
  · exact .inl kept
  · refine .inr ⟨?_, id, handle, rfl⟩
    cases choice with
    | readRange _ | verifyComplete _ | register _ | remove _ | advance
    | invoke | finish _ => cases moves
    | delete gone =>
      cases gone with
      | true => rfl
      | false =>
        cases moves
        cases marked.symm.trans lost

end Steps

/-! ## Until the verification returns -/

/-- The identity cannot be used: it is marked, the registrations in the table
are flagged, and no call is about to add one. -/
structure Barred (world : World) (directory : Directory) : Prop where
  marked : world.shared.invalidated directory = true
  flagged : ∀ handle, world.shared.Live handle →
    (world.shared.registrations handle).diskDir = some directory →
      (world.shared.registrations handle).invalid = true
  closed : ∀ call id, world.calls call ≠ .inserting (some directory) id

/-- What the calls of `verify_complete` have achieved where they are. -/
structure Vigilant (world : World) : Prop where
  marked : ∀ call directory, (world.calls call).Marked world.shared directory →
      world.shared.invalidated directory = true
  sweeping : ∀ call id handle directory others,
    world.calls call = .sweeping id handle directory others → ∀ other, world.shared.Live other →
        (world.shared.registrations other).diskDir = some directory →
          (world.shared.registrations other).invalid = true ∨ other ∈ others
  barred : ∀ call purpose id handle directory,
    world.calls call = .closing purpose id handle .integrityError →
      (world.shared.registrations handle).diskDir = some directory → Barred world directory

section Vigilance

variable {world : World} {call : CallId} {shared : Shared} {place : Place}
  {lock : RwLock} {directory : Directory}

/-- An identity stays barred as long as its marker stays. -/
theorem Barred.move (barred : Barred world directory) (coherent : Coherent world)
    (moves : Moves world.shared (world.calls call) shared place)
    (kept : shared.invalidated directory = true) :
    Barred ⟨shared, lock, Function.update world.calls call place⟩ directory where
  marked := kept
  flagged handle live same := by
    have evolves := moves.evolves (coherent.sound call)
    rcases moves.live live with before | ⟨diskDir, id, isInserting, new⟩
    · have known := coherent.listing.known_of_live before
      apply evolves.invalid_eq handle known
      apply barred.flagged handle before
      rw [← evolves.diskDir_eq handle known]
      exact same
    · cases new.symm.trans same
      exact absurd isInserting (barred.closed call id)
  closed other id := by
    by_cases same : other = call
    · subst same
      change Function.update world.calls other place other ≠ _
      rw [Function.update_self]
      intro isInserting
      have unmarked := moves.inserting isInserting
      rw [barred.marked] at unmarked
      cases unmarked
    · change Function.update world.calls call place other ≠ _
      rw [Function.update_of_ne same]
      exact barred.closed other id

/-- The directories that a call has marked are those it had marked before and
the one it marks now. -/
theorem Moves.marked {before after : Shared} {current reached : Place}
    (moves : Moves before current after reached) (sound : current.Sound before)
    (marked : reached.Marked after directory) :
    current.Marked before directory ∨ after.invalidated directory = true := by
  cases moves
  case finish purpose id handle outcome plain =>
    cases outcome with
    | integrityError => exact absurd rfl plain
    | ok | error _ => cases marked
  case condemnBare bare =>
    change ((Shared.invalidate _ _).registrations _).diskDir = _ at marked
    rw [invalidate_diskDir, bare] at marked
    cases marked
  case mark =>
    cases marked
    exact .inr (by simp [Shared.persistInvalidManifest])
  case sweep | sweepFlag | sweepSkip => exact .inl marked
  case swept =>
    left
    change (before.registrations _).diskDir = _ at marked
    rw [sound.2] at marked
    cases marked
    rfl
  all_goals cases marked

theorem Place.Marked.of_evolves {before after : Shared} {current : Place}
    (sound : current.Sound before) (evolves : before.Evolves after)
    (marked : current.Marked after directory) :
    current.Marked before directory := by
  cases current
  case closing purpose id handle outcome =>
    cases outcome with
    | integrityError =>
      change (after.registrations handle).diskDir = _ at marked
      rw [evolves.diskDir_eq handle sound.1] at marked
      exact marked
    | ok | error _ => cases marked
  case sweepEntering | sweeping => exact marked
  all_goals cases marked

/-- The sweep leaves the registrations of the directory flagged. -/
theorem Moves.sweeping_flagged {before after : Shared} {current : Place} {id : Nat}
    {handle : Handle} {others : List Handle}
    (moves : Moves before current after (.sweeping id handle directory others))
    (swept : ∀ all, current = .sweeping id handle directory all → ∀ other, before.Live other →
        (before.registrations other).diskDir = some directory →
          (before.registrations other).invalid = true ∨ other ∈ all)
    {other : Handle}
    (live : after.Live other)
    (same : (after.registrations other).diskDir = some directory) :
    (after.registrations other).invalid = true ∨ other ∈ others := by
  generalize reached_eq :
    Place.sweeping id handle directory others = reached at moves
  cases moves <;> cases reached_eq
  case sweep => exact .inr (mem_listed.mpr live)
  case sweepFlag flagged _ =>
    rw [invalidate_diskDir] at same
    rcases swept _ rfl other live same with earlier | listed
    · exact .inl ((before.invalidate_invalid _ _).mpr (.inr earlier))
    · rcases List.mem_cons.mp listed with rfl | later
      · exact .inl ((before.invalidate_invalid _ _).mpr (.inl rfl))
      · exact .inr later
  case sweepSkip differs =>
    rcases swept _ rfl other live same with earlier | listed
    · exact .inl earlier
    · rcases List.mem_cons.mp listed with rfl | later
      · exact absurd same differs
      · exact .inr later

theorem Moves.closing {before after : Shared} {current : Place} {purpose : Purpose} {id : Nat}
    {handle : Handle}
    (moves : Moves before current after (.closing purpose id handle .integrityError))
    (cached : (after.registrations handle).diskDir = some directory) :
    after = before ∧ ∃ swept, current = .sweeping id handle swept [] := by
  generalize reached_eq :
    Place.closing purpose id handle .integrityError = reached at moves
  cases moves <;> cases reached_eq
  case finish plain => exact absurd rfl plain
  case condemnBare bare =>
    rw [invalidate_diskDir, bare] at cached
    cases cached
  case swept swept => exact ⟨rfl, swept, rfl⟩

namespace Vigilant

theorem fresh (invalidated : Directory → Bool) : Vigilant (World.fresh invalidated) := by
  refine ⟨fun _ _ marked => ?_, fun _ _ _ _ _ isSweeping => ?_, fun _ _ _ _ _ isClosing => ?_⟩
  · cases marked
  · cases isSweeping
  · cases isClosing

theorem abandoned_not_marked (place : Place) : ¬place.abandoned.Marked shared directory := by
  rcases Coherent.abandoned_cases place with isLost | ⟨same, rfl | returned⟩
  · rw [isLost]
    exact id
  · exact id
  · rw [same]
    cases place <;> first | exact id | cases returned

theorem restarted (world : World) : Vigilant world.restarted := by
  refine ⟨fun call directory marked => ?_, fun call id handle directory others isSweeping => ?_,
    fun call purpose id handle directory isClosing cached => ?_⟩
  · exact absurd marked (abandoned_not_marked (world.calls call))
  · refine absurd ?_ (abandoned_not_marked (world.calls call) : ¬Place.Marked
        world.restarted.shared directory _)
    change (world.restarted.calls call).Marked _ _
    rw [isSweeping]
    rfl
  · refine absurd ?_ (abandoned_not_marked (world.calls call) : ¬Place.Marked
        world.restarted.shared directory _)
    change (world.restarted.calls call).Marked _ _
    rw [isClosing]
    exact cached

/-- The markers of the calls that have not returned stay. -/
theorem move (vigilant : Vigilant world) (coherent : Coherent world)
    (moves : Moves world.shared (world.calls call) shared place)
    (kept : ∀ directory, world.shared.invalidated directory = true →
      (∃ other, (world.calls other).Marked world.shared directory) →
        shared.invalidated directory = true) :
    Vigilant ⟨shared, lock, Function.update world.calls call place⟩ := by
  have evolves := moves.evolves (coherent.sound call)
  have stays {other : CallId} {directory : Directory}
      (marked : (world.calls other).Marked world.shared directory) :
      shared.invalidated directory = true :=
    kept directory (vigilant.marked other directory marked) ⟨other, marked⟩
  refine ⟨fun other directory marked => ?_, fun other id handle directory others isSweeping => ?_,
    fun other purpose id handle directory isClosing cached => ?_⟩
  · change (Function.update world.calls call place other).Marked shared directory at marked
    change shared.invalidated directory = true
    by_cases same : other = call
    · subst same
      rw [Function.update_self] at marked
      rcases moves.marked (coherent.sound other) marked with earlier | now
      · exact stays earlier
      · exact now
    · rw [Function.update_of_ne same] at marked
      exact stays (marked.of_evolves (coherent.sound other) evolves)
  · change Function.update world.calls call place other = _ at isSweeping
    intro swept live cached
    by_cases same : other = call
    · subst same
      rw [Function.update_self] at isSweeping
      subst isSweeping
      exact moves.sweeping_flagged
        (fun all isAll => vigilant.sweeping other id handle directory all isAll)
        live cached
    · rw [Function.update_of_ne same] at isSweeping
      have entries_eq := coherent.entries_eq moves
        (show (world.calls other).grip = .shared by rw [isSweeping]; rfl)
      have liveBefore : world.shared.Live swept := by
        change ∃ id, shared.entries.lookup id = _ at live
        rw [entries_eq] at live
        exact live
      have known := coherent.listing.known_of_live liveBefore
      change (shared.registrations swept).diskDir = _ at cached
      rw [evolves.diskDir_eq swept known] at cached
      rcases vigilant.sweeping other id handle directory others isSweeping
        swept liveBefore cached with flagged | listed
      · exact .inl (evolves.invalid_eq swept known flagged)
      · exact .inr listed
  · change Function.update world.calls call place other = _ at isClosing
    change (shared.registrations handle).diskDir = _ at cached
    by_cases same : other = call
    · subst same
      rw [Function.update_self] at isClosing
      subst isClosing
      obtain ⟨rfl, swept, isSweeping⟩ := moves.closing cached
      have sound := coherent.sound other
      rw [isSweeping] at sound
      cases cached.symm.trans sound.2
      have marked : (world.calls other).Marked world.shared directory := by
        rw [isSweeping]
        rfl
      refine Barred.move ⟨vigilant.marked other directory marked, ?_, ?_⟩
        coherent moves (vigilant.marked other directory marked)
      · intro live isLive diskDir_eq
        rcases vigilant.sweeping other id handle directory [] isSweeping live
          isLive diskDir_eq with flagged | listed
        · exact flagged
        · cases listed
      · intro inserting newId isInserting
        have notWriting : (world.calls inserting).grip ≠ .exclusive :=
          coherent.lock.not_exclusive
            (show (world.calls other).grip = .shared by rw [isSweeping]; rfl)
        rw [isInserting] at notWriting
        exact notWriting rfl
    · rw [Function.update_of_ne same] at isClosing
      have sound := coherent.sound other
      rw [isClosing] at sound
      rw [evolves.diskDir_eq handle sound.1] at cached
      have marked : (world.calls other).Marked world.shared directory := by
        rw [isClosing]
        exact cached
      exact Barred.move (vigilant.barred other purpose id handle directory
        isClosing cached) coherent moves (stays marked)

end Vigilant

theorem step_vigilant {action : Action} {world after : World} (vigilant : Vigilant world)
    (coherent : Coherent world) (undisturbed : Undisturbed action world)
    (moves : step action world = some after) :
    Vigilant after := by
  cases action with
  | restart =>
    cases moves
    exact Vigilant.restarted world
  | act call choice =>
    obtain ⟨⟨shared, place⟩, nextStep, moved⟩ :=
      Option.bind_eq_some_iff.mp moves
    obtain ⟨lock, -, rfl⟩ := Option.map_eq_some_iff.mp moved
    refine vigilant.move coherent (next_moves nextStep) ?_
    rintro directory invalidated ⟨other, marked⟩
    rcases next_invalidated nextStep invalidated with
      kept | ⟨rfl, id, handle, isDeleting⟩
    · exact kept
    · exact absurd marked (undisturbed.2 call id handle directory rfl isDeleting other)

end Vigilance

/-! ## Until the last registration is removed -/

/-- The identity is barred, and nobody will delete its directory: it is in use,
or no call is removing a registration of it. -/
structure InForce (world : World) (directory : Directory) : Prop where
  barred : Barred world directory
  kept : world.shared.refersTo directory = true ∨
    ∀ call, ¬(world.calls call).Removes world.shared directory

section Period

variable {world : World} {call : CallId} {choice : Choice} {shared : Shared}
  {place : Place} {lock : RwLock} {directory : Directory}

theorem lookup_eq_none_of_insertsFresh (fresh : insertsFresh (.act call choice) world = true)
    {diskDir : Option Directory} {id : Nat}
    (isInserting : world.calls call = .inserting diskDir id) :
    world.shared.entries.lookup id = none := by
  unfold insertsFresh at fresh
  simp only [isInserting] at fresh
  exact Option.isNone_iff_eq_none.mp fresh

theorem refersTo_of_keepsLast (keeps : keepsLast directory (.act call choice) world = true)
    {id : Nat} {handle : Handle} (isErasing : world.calls call = .erasing id)
    (found : world.shared.entries.lookup id = some handle)
    (cached : (world.shared.registrations handle).diskDir = some directory) :
    (world.shared.erase id).refersTo directory = true := by
  unfold keepsLast at keeps
  simpa only [isErasing, found, Option.all_some, cached, ne_eq, not_true,
    decide_false, Bool.false_or] using keeps

/-- The directory stays in use. -/
theorem refersTo_move (coherent : Coherent world)
    (moves : Moves world.shared (world.calls call) shared place)
    (fresh : insertsFresh (.act call choice) world = true)
    (keeps : keepsLast directory (.act call choice) world = true)
    (refers : world.shared.refersTo directory = true) :
    shared.refersTo directory = true := by
  have evolves := moves.evolves (coherent.sound call)
  obtain ⟨handle, ⟨id, found⟩, cached⟩ := refersTo_iff.mp refers
  have known := (coherent.listing id handle found).1
  have stays (listed : shared.entries.lookup id = some handle) :
      shared.refersTo directory = true := by
    refine refersTo_iff.mpr ⟨handle, ⟨id, listed⟩, ?_⟩
    rw [evolves.diskDir_eq handle known]
    exact cached
  generalize at_eq : world.calls call = current at moves
  cases moves
  case insert diskDir inserted =>
    apply stays
    have ne : id ≠ inserted := by
      rintro rfl
      cases found.symm.trans (lookup_eq_none_of_insertsFresh fresh at_eq)
    rw [Shared.insert, AList.lookup_insert_ne ne]
    exact found
  case erase erased removed isListed =>
    by_cases same : id = erased
    · subst same
      exact refersTo_of_keepsLast keeps at_eq found cached
    · apply stays
      rw [Shared.erase, AList.lookup_erase_ne same]
      exact found
  all_goals exact stays found

theorem removes_move (moves : Moves world.shared (world.calls call) shared place)
    (keeps : keepsLast directory (.act call choice) world = true)
    (removes : place.Removes shared directory) :
    (world.calls call).Removes world.shared directory ∨ shared.refersTo directory = true := by
  generalize at_eq : world.calls call = current at moves
  cases moves
  case erase erased removed isListed =>
    exact .inr (refersTo_of_keepsLast keeps at_eq isListed removes)
  case idle cached =>
    cases removes
    exact .inl cached
  case review | delete => exact .inl removes
  all_goals cases removes

theorem Place.Removes.of_evolves {before after : Shared} {current : Place}
    (sound : current.Sound before) (evolves : before.Evolves after)
    (removes : current.Removes after directory) :
    current.Removes before directory := by
  cases current
  case awaiting id handle =>
    change (after.registrations handle).diskDir = _ at removes
    rw [evolves.diskDir_eq handle sound.1.1] at removes
    exact removes
  case reviewEntering | reviewing | deleting => exact removes
  all_goals cases removes

theorem InForce.move (inForce : InForce world directory) (coherent : Coherent world)
    (moves : Moves world.shared (world.calls call) shared place)
    (fresh : insertsFresh (.act call choice) world = true)
    (keeps : keepsLast directory (.act call choice) world = true) :
    InForce ⟨shared, lock, Function.update world.calls call place⟩ directory := by
  have evolves := moves.evolves (coherent.sound call)
  constructor
  · apply inForce.barred.move coherent moves
    rcases moves.invalidated inForce.barred.marked with
      marked | ⟨-, id, handle, isDeleting⟩
    · exact marked
    · rcases inForce.kept with refers | nobody
      · have sound := coherent.sound call
        rw [isDeleting] at sound
        obtain ⟨other, live, cached⟩ := refersTo_iff.mp refers
        exact absurd cached (sound.2 other live)
      · have notRemoving := nobody call
        rw [isDeleting] at notRemoving
        exact absurd rfl notRemoving
  · rcases inForce.kept with refers | nobody
    · exact .inl (refersTo_move coherent moves fresh keeps refers)
    · by_cases removes : place.Removes shared directory
      · exact .inl ((removes_move moves keeps removes).resolve_left (nobody call))
      · refine .inr fun other => ?_
        change ¬(Function.update world.calls call place other).Removes shared directory
        by_cases same : other = call
        · subst same
          rw [Function.update_self]
          exact removes
        · rw [Function.update_of_ne same]
          intro still
          exact nobody other (still.of_evolves (coherent.sound other) evolves)

theorem InForce.restarted (inForce : InForce world directory) :
    InForce world.restarted directory := by
  refine ⟨⟨inForce.barred.marked, fun handle live => ?_, fun call id => ?_⟩, .inr fun call => ?_⟩
  · exact absurd live (Coherent.not_live_restarted world handle)
  · change (world.calls call).abandoned ≠ _
    intro isInserting
    have free := (Coherent.abandoned_free (world.calls call)).1
    rw [isInserting] at free
    cases free
  · change ¬(world.calls call).abandoned.Removes _ _
    rcases Coherent.abandoned_cases (world.calls call) with
      isLost | ⟨same, isUnstarted | returned⟩
    · rw [isLost]
      exact id
    · rw [same, isUnstarted]
      exact id
    · rw [same]
      generalize world.calls call = current at returned
      cases current <;> first | exact id | cases returned

end Period

/-! ## What later calls get -/

/-- The registration that a call has made, or that it reads after the check of
the flag. -/
def Place.used : Place → Option Handle
  | .registered _ handle | .leasing .readRange _ handle
  | .leased .readRange _ handle | .working .readRange _ handle
  | .calling .readRange _ handle | .closing .readRange _ handle _ =>
    some handle
  | .answered .readRange _ handle outcome =>
    if outcome = .error invalidSource then none else handle
  | _ => none

section Use

variable {shared after : Shared} {place reached : Place} {handle : Handle}

theorem Place.Sound.used_lt (sound : place.Sound shared) (listing : shared.Listing)
    (used : place.used = some handle) :
    handle < shared.issued := by
  cases place
  case registered => cases used; exact sound.1
  case leasing purpose _ _ | leased purpose _ _ =>
    cases purpose <;> cases used
    exact (listing _ _ sound).1
  case working purpose _ _ | calling purpose _ _ | closing purpose _ _ _ =>
    cases purpose <;> cases used
    exact sound.1
  case answered purpose id found outcome =>
    cases purpose with
    | verifyComplete => cases used
    | readRange =>
      change (if outcome = _ then none else found) = _ at used
      split at used
      · cases used
      · subst used
        exact sound.1
  all_goals cases used

/-- To use a registration, a call makes it or finds that it is not flagged. -/
theorem Moves.used (moves : Moves shared place after reached) (used : reached.used = some handle) :
    place.used = some handle ∨ (handle = shared.issued ∧ ∃ id, place =
        .inserting (after.registrations handle).diskDir id) ∨
      ((shared.registrations handle).invalid = false ∧
        ∃ id, place = .checking .readRange id handle) := by
  cases moves
  case insert diskDir id =>
    cases used
    refine .inr (.inl ⟨rfl, id, ?_⟩)
    simp [Shared.insert]
  case pass purpose id found usable =>
    cases purpose <;> cases used
    exact .inr (.inr ⟨usable rfl, id, rfl⟩)
  case close purpose id found outcome =>
    cases purpose with
    | verifyComplete => cases used
    | readRange =>
      change (if outcome = _ then none else some found) = _ at used
      split at used
      · cases used
      · exact .inl used
  case lease purpose _ _ | overflow purpose _ _ | unlock purpose _ _
      | invoke purpose _ _ | resume purpose _ _ | finish purpose _ _ _ _ =>
    cases purpose <;> exact .inl used
  case reject => cases used
  case miss purpose id _ => cases purpose <;> cases used
  all_goals exact .inl used

theorem used_abandoned (used : place.abandoned.used = some handle) : place.used = some handle := by
  rcases Coherent.abandoned_cases place with isLost | ⟨same, -⟩
  · rw [isLost] at used
    cases used
  · rw [same] at used
    exact used

end Use

/-- Calls that begin while the identity is barred neither register it nor read
it. -/
theorem inForce_unused {start world : World} {directory : Directory} (coherent : Coherent start)
    (inForce : InForce start directory)
    (period : Reaches step (fun action state => Undisturbed action state ∧
      keepsLast directory action state = true) start world) :
    InForce world directory ∧ ∀ call, start.calls call = .unstarted →
        ∀ handle, (world.calls call).used = some handle →
          (world.shared.registrations handle).diskDir ≠ some directory := by
  suffices kept : Coherent world ∧ InForce world directory ∧ ∀ call, start.calls call = .unstarted →
        ∀ handle, (world.calls call).used = some handle →
          (world.shared.registrations handle).diskDir ≠ some directory from
    kept.2
  refine period.invariant (fun state => Coherent state ∧ InForce state directory ∧
      ∀ call, start.calls call = .unstarted → ∀ handle, (state.calls call).used = some handle →
          (state.shared.registrations handle).diskDir ≠ some directory)
    ⟨coherent, inForce, ?_⟩ ?_
  · intro call unstarted handle used
    rw [unstarted] at used
    cases used
  · rintro action before next ⟨coherent, inForce, unused⟩ ⟨undisturbed, keeps⟩ moves
    refine ⟨step_coherent coherent moves, ?_⟩
    cases action with
    | restart =>
      cases moves
      refine ⟨inForce.restarted, fun call unstarted handle used => ?_⟩
      exact unused call unstarted handle (used_abandoned used)
    | act call choice =>
      obtain ⟨shared, place, lock, moved, -, rfl⟩ := step_act moves
      have evolves := moved.evolves (coherent.sound call)
      refine ⟨inForce.move coherent moved undisturbed.1 keeps, ?_⟩
      intro other unstarted handle used
      change (shared.registrations handle).diskDir ≠ _
      change (Function.update before.calls call place other).used = _ at used
      -- A call that used the registration before still does.
      have earlier (was : (before.calls other).used = some handle) :
          (shared.registrations handle).diskDir ≠ some directory := by
        rw [evolves.diskDir_eq handle ((coherent.sound other).used_lt coherent.listing was)]
        exact unused other unstarted handle was
      by_cases same : other = call
      · subst same
        rw [Function.update_self] at used
        rcases moved.used used with
          was | ⟨-, id, isInserting⟩ | ⟨usable, id, isChecking⟩
        · exact earlier was
        · intro cached
          rw [cached] at isInserting
          exact inForce.barred.closed other id isInserting
        · have found := coherent.sound other
          rw [isChecking] at found
          have live : before.shared.Live handle := ⟨id, found⟩
          rw [evolves.diskDir_eq handle (coherent.listing.known_of_live live)]
          intro cached
          rw [inForce.barred.flagged handle live cached] at usable
          cases usable
      · rw [Function.update_of_ne same] at used
        exact earlier used

/-- The registrations that were flagged are never read again. -/
theorem flagged_unused {start middle world : World} {directory : Directory}
    (coherent : Coherent middle) (barred : Barred middle directory)
    (unused : ∀ call, start.calls call = .unstarted →
      ∀ handle, (middle.calls call).used = some handle →
        (middle.shared.registrations handle).diskDir ≠ some directory)
    {admitted : Action → World → Prop}
    (continues : Reaches step admitted middle world)
    {call : CallId}
    (unstarted : start.calls call = .unstarted)
    {handle : Handle}
    (older : handle < middle.shared.issued)
    (cached : (middle.shared.registrations handle).diskDir = some directory) :
    (world.calls call).used ≠ some handle := by
  suffices kept : Coherent world ∧ middle.shared.issued ≤ world.shared.issued ∧
      (world.shared.Live handle → (world.shared.registrations handle).invalid = true) ∧
      (world.calls call).used ≠ some handle from kept.2.2.2
  refine continues.invariant (fun state => Coherent state ∧
    middle.shared.issued ≤ state.shared.issued ∧
    (state.shared.Live handle → (state.shared.registrations handle).invalid = true) ∧
    (state.calls call).used ≠ some handle)
    ⟨coherent, le_rfl, fun live => barred.flagged handle live cached,
      fun used => unused call unstarted handle used cached⟩ ?_
  rintro action before next ⟨coherent, issued_le, flagged, notUsed⟩ - moves
  refine ⟨step_coherent coherent moves, ?_⟩
  cases action with
  | restart =>
    cases moves
    refine ⟨issued_le, fun live => ?_, fun used => ?_⟩
    · exact absurd live (Coherent.not_live_restarted before handle)
    · exact notUsed (used_abandoned used)
  | act mover choice =>
    obtain ⟨shared, place, lock, moved, -, rfl⟩ := step_act moves
    have evolves := moved.evolves (coherent.sound mover)
    have known := older.trans_le issued_le
    refine ⟨issued_le.trans evolves.issued_le, fun live => ?_, ?_⟩
    · rcases evolves.live handle live with liveBefore | newer
      · exact evolves.invalid_eq handle known (flagged liveBefore)
      · exact absurd known newer.not_gt
    · change (Function.update before.calls mover place call).used ≠ _
      by_cases same : call = mover
      · subst same
        rw [Function.update_self]
        intro used
        rcases moved.used used with
          was | ⟨newest, -⟩ | ⟨usable, id, isChecking⟩
        · exact notUsed was
        · exact absurd known newest.ge.not_gt
        · have found := coherent.sound call
          rw [isChecking] at found
          rw [flagged ⟨id, found⟩] at usable
          cases usable
      · rw [Function.update_of_ne same]
        exact notUsed

theorem reaches_vigilant {invalidated : Directory → Bool} {world : World}
    (reached : Reaches step Undisturbed (World.fresh invalidated) world) :
    Coherent world ∧ Vigilant world := by
  refine reached.invariant (fun state => Coherent state ∧ Vigilant state)
    ⟨fresh_coherent invalidated, Vigilant.fresh invalidated⟩ ?_
  rintro action before next ⟨coherent, vigilant⟩ undisturbed moves
  exact ⟨step_coherent coherent moves, step_vigilant vigilant coherent undisturbed moves⟩

/-- Once `verify_complete` has returned its integrity error, the identity cannot
be registered until the last of its registrations is removed, and the
registrations made until then cannot be read by calls that begin later, if no
directory is deleted between its marking and the return of the call that marks
it, and no id is given out while an entry has it. -/
theorem invalidation_lasts (invalidated : Directory → Bool)
    {before condemned during after : World}
    {verifier : CallId}
    {id : Nat}
    {handle : Handle}
    {directory : Directory}
    (reached : Reaches step Undisturbed (World.fresh invalidated) before)
    (verifies : before.calls verifier = .closing .verifyComplete id handle .integrityError)
    (identity : (before.shared.registrations handle).diskDir = some directory)
    (returns : step (.act verifier .advance) before = some condemned)
    (live : condemned.shared.refersTo directory = true)
    (period : Reaches step (fun action state => Undisturbed action state ∧
      keepsLast directory action state = true) condemned during)
    (continues : Reaches step Undisturbed during after)
    {call : CallId}
    (begun : condemned.calls call = .unstarted) :
    (∀ newId other, during.calls call = .registered newId other →
      (during.shared.registrations other).diskDir ≠ some directory) ∧
    ∀ other, other < during.shared.issued →
      (during.shared.registrations other).diskDir = some directory →
      ∀ readId outcome, after.calls call = .answered .readRange readId (some other) outcome →
          outcome = .error invalidSource := by
  obtain ⟨coherent, vigilant⟩ := reaches_vigilant reached
  have barred := vigilant.barred verifier _ id handle directory verifies identity
  obtain ⟨shared, place, lock, moved, -, rfl⟩ := step_act returns
  have condemnedCoherent := step_coherent coherent returns
  have inForce : InForce ⟨shared, lock, Function.update before.calls verifier place⟩ directory := by
    refine ⟨barred.move coherent moved ?_, .inl live⟩
    rcases moved.invalidated barred.marked with
      kept | ⟨-, deletedId, deleted, isDeleting⟩
    · exact kept
    · cases verifies.symm.trans isDeleting
  obtain ⟨stillInForce, unused⟩ :=
    inForce_unused condemnedCoherent inForce period
  constructor
  · intro newId other isRegistered
    apply unused call begun other
    rw [isRegistered]
    rfl
  · intro other older cached readId outcome isAnswered
    have notUsed := flagged_unused
      (reaches_coherent condemnedCoherent period) stillInForce.barred unused
      continues begun older cached
    rw [isAnswered] at notUsed
    by_contra differs
    exact notUsed (if_neg differs)

/-- A content with an identity for its pieces. -/
def sampleOffer : Offer := ⟨1, 1, some "d".toList⟩

/-- Two registrations of one identity; the first is being verified and fails. -/
def failedVerification : List Action :=
  [.act 0 (.register sampleOffer)] ++ advances 0 3 ++
    [.act 1 (.register sampleOffer)] ++ advances 1 3 ++
    [.act 2 (.verifyComplete 1)] ++ advances 2 5 ++
    [.act 2 (.finish (.ok false))] ++ advances 2 2

/-- The other one is flagged, and the verification is about to return. -/
def sweptVerification : List Action :=
  failedVerification ++ advances 2 4

/-- The identity is registered once more, and the other registration is read. -/
def refusedCalls : List Action :=
  [.act 3 (.register sampleOffer)] ++ advances 3 2 ++ [.act 4 (.readRange 2)] ++ advances 4 3

/-- What is checked of the steps of a run that deletes nothing. -/
def checked (directory : Directory) (action : Action) (world : World) : Prop :=
  insertsFresh action world = true ∧ keepsLast directory action world = true

instance (directory : Directory) (action : Action) (world : World) :
    Decidable (checked directory action world) :=
  inferInstanceAs (Decidable (_ ∧ _))

theorem deletesUnmarked_of_forall {actions : List Action}
    (noDelete : ∀ action ∈ actions, ∀ call, action ≠ .act call (.delete true)) (world : World) :
    AdmitsAll step DeletesUnmarked actions world :=
  admitsAll_of_forall (fun action mem _ call _ _ _ isDelete =>
    absurd isDelete (noDelete action mem call)) world

theorem invalidation_lasts_refused :
    ∃ before condemned during : World,
      Reaches step Undisturbed (World.fresh fun _ => false) before ∧
      before.calls 2 = .closing .verifyComplete 1 0 .integrityError ∧
      step (.act 2 .advance) before = some condemned ∧
      during.calls 3 = .refused previouslyInvalidated ∧
      ∃ outcome, during.calls 4 = .answered .readRange 2 (some 1) outcome ∧
          outcome = .error invalidSource := by
  have first : ((runActions step sweptVerification (World.fresh fun _ => false)).bind fun before =>
        (step (.act 2 .advance) before).map fun condemned =>
          (before.calls 2, (before.shared.registrations 0).diskDir,
            condemned.shared.refersTo "d".toList, condemned.calls 4)) =
      some (.closing .verifyComplete 1 0 .integrityError, some "d".toList, true, .unstarted) := by
    decide +kernel
  have second : (((runActions step sweptVerification
      (World.fresh fun _ => false)).bind (step (.act 2 .advance))).bind
        fun condemned => (runActions step refusedCalls condemned).map fun during =>
            (decide (AdmitsAll step (checked "d".toList) refusedCalls
              condemned), during.calls 3, during.calls 4,
              decide (1 < during.shared.issued ∧ (during.shared.registrations 1).diskDir =
                  some "d".toList))) =
      some (true, .refused previouslyInvalidated,
        .answered .readRange 2 (some 1) (.error invalidSource), true) := by
    decide +kernel
  obtain ⟨before, runs, first⟩ := Option.bind_eq_some_iff.mp first
  obtain ⟨condemned, returns, first⟩ := Option.map_eq_some_iff.mp first
  rw [runs, Option.bind_some, returns, Option.bind_some] at second
  obtain ⟨during, laterRuns, second⟩ := Option.map_eq_some_iff.mp second
  simp only [Prod.mk.injEq, decide_eq_true_eq] at first second
  obtain ⟨verifies, identity, live, begun⟩ := first
  obtain ⟨admits, refused, answered, older, cached⟩ := second
  have reached : Reaches step Undisturbed (World.fresh fun _ => false) before := by
    refine Reaches.refl.runActions (AdmitsAll.and (by decide +kernel)
      (deletesUnmarked_of_forall ?_ _)) runs
    simp [sweptVerification, failedVerification, advances]
  have period : Reaches step (fun action state => Undisturbed action state ∧
      keepsLast "d".toList action state = true) condemned during := by
    refine Reaches.refl.runActions (AdmitsAll.weaken ?_ (AdmitsAll.and admits
      (deletesUnmarked_of_forall ?_ condemned))) laterRuns
    · exact fun _ _ holds => ⟨⟨holds.1.1, holds.2⟩, holds.1.2⟩
    · simp [refusedCalls, advances]
  exact ⟨before, condemned, during, reached, verifies, returns, refused, _,
    answered, (invalidation_lasts (fun _ => false) reached verifies identity
      returns live period .refl begun).2 1 older cached 2 _ answered⟩

/-- Both registrations are removed before the verification returns, and the
directory goes with its marker; then the identity is registered again. -/
def lostMarker : List Action :=
  failedVerification ++ [.act 3 (.remove 1)] ++ advances 3 2 ++
    [.act 4 (.remove 2)] ++ advances 4 5 ++ [.act 4 (.delete true)] ++
    [.act 5 (.register sampleOffer)] ++ advances 5 3 ++
    advances 2 3

/-- The identity is registered once more, and read. -/
def acceptedCalls : List Action :=
  [.act 6 (.register sampleOffer)] ++ advances 6 3 ++ [.act 7 (.readRange 4)] ++ advances 7 5 ++
    [.act 7 (.finish (.ok true))] ++ advances 7 1

/-- With registrations that are removed at the wrong time, the identity can be
registered and read after `verify_complete` has returned its error, while a
registration of it is in the table. -/
theorem invalidation_lost :
    ∃ before condemned during : World,
      Reaches step (fun _ _ => True) (World.fresh fun _ => false) before ∧
      before.calls 2 = .closing .verifyComplete 1 0 .integrityError ∧
      (before.shared.registrations 0).diskDir = some "d".toList ∧
      step (.act 2 .advance) before = some condemned ∧
      condemned.shared.refersTo "d".toList = true ∧
      condemned.calls 6 = .unstarted ∧ condemned.calls 7 = .unstarted ∧
      Reaches step (fun action state =>
        keepsLast "d".toList action state = true) condemned during ∧
      during.calls 6 = .registered 4 3 ∧
      (during.shared.registrations 3).diskDir = some "d".toList ∧
      during.calls 7 = .answered .readRange 4 (some 3) .ok := by
  have first : ((runActions step lostMarker (World.fresh fun _ => false)).bind fun before =>
        (step (.act 2 .advance) before).map fun condemned =>
          (before.calls 2, (before.shared.registrations 0).diskDir,
            condemned.shared.refersTo "d".toList, condemned.calls 6,
            condemned.calls 7)) =
      some (.closing .verifyComplete 1 0 .integrityError, some "d".toList,
        true, .unstarted, .unstarted) := by
    decide +kernel
  have second : (((runActions step lostMarker
      (World.fresh fun _ => false)).bind (step (.act 2 .advance))).bind
        fun condemned => (runActions step acceptedCalls condemned).map fun during =>
            (decide (AdmitsAll step (fun action state =>
                keepsLast "d".toList action state = true) acceptedCalls
              condemned), during.calls 6, during.calls 7,
                (during.shared.registrations 3).diskDir)) =
      some (true, .registered 4 3, .answered .readRange 4 (some 3) .ok, some "d".toList) := by
    decide +kernel
  obtain ⟨before, runs, first⟩ := Option.bind_eq_some_iff.mp first
  obtain ⟨condemned, returns, first⟩ := Option.map_eq_some_iff.mp first
  rw [runs, Option.bind_some, returns, Option.bind_some] at second
  obtain ⟨during, laterRuns, second⟩ := Option.map_eq_some_iff.mp second
  simp only [Prod.mk.injEq, decide_eq_true_eq] at first second
  obtain ⟨verifies, identity, live, begun, alsoBegun⟩ := first
  obtain ⟨admits, registered, answered, cached⟩ := second
  exact ⟨before, condemned, during,
    Reaches.refl.runActions (admitsAll_true _ _) runs, verifies, identity,
    returns, live, begun, alsoBegun, Reaches.refl.runActions admits laterRuns,
    registered, cached, answered⟩

end P2pLifecycle
end VideoProxy
