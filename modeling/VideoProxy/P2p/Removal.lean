import VideoProxy.P2p.Leases

/-!
# Removing registrations

When `remove` returns, the host may free what the callback of the provider uses:
no callback of the registration is running and none will be started.  Ids are
never given out again within a process, so later calls do not find it either.
-/

namespace VideoProxy
namespace P2pLifecycle

open Shared

/-! ## Ids -/

/-- No two registrations have had the same id. -/
structure Numbered (world : World) : Prop where
  nextId_eq : world.shared.nextId = world.shared.taken + 1
  id_lt : ∀ handle < world.shared.issued,
    (world.shared.registrations handle).id < world.shared.nextId
  distinct : ∀ handle < world.shared.issued, ∀ other < world.shared.issued,
      (world.shared.registrations handle).id =
        (world.shared.registrations other).id → handle = other
  claimed : ∀ call diskDir id, world.calls call = .inserting diskDir id → id < world.shared.nextId ∧
      ∀ handle < world.shared.issued, (world.shared.registrations handle).id ≠ id

theorem fresh_numbered (invalidated : Directory → Bool) :
    Numbered (World.fresh invalidated) where
  nextId_eq := rfl
  id_lt handle older := absurd older (Nat.not_lt_zero handle)
  distinct handle older := absurd older (Nat.not_lt_zero handle)
  claimed call diskDir id isInserting := by cases isInserting

namespace Numbered

variable {world : World} {call : CallId} {shared : Shared} {place : Place}
  {lock : RwLock}

/-- Steps that give out no id and make no registration. -/
theorem of_same (numbered : Numbered world) (issued_eq : shared.issued = world.shared.issued)
    (ids_eq : ∀ handle, (shared.registrations handle).id = (world.shared.registrations handle).id)
    (nextId_eq : shared.nextId = world.shared.nextId) (taken_eq : shared.taken = world.shared.taken)
    (notInserting : ∀ diskDir id, place ≠ .inserting diskDir id) :
    Numbered ⟨shared, lock, Function.update world.calls call place⟩ where
  nextId_eq := by
    change shared.nextId = shared.taken + 1
    rw [nextId_eq, taken_eq]
    exact numbered.nextId_eq
  id_lt handle older := by
    change (shared.registrations handle).id < shared.nextId
    rw [ids_eq, nextId_eq]
    exact numbered.id_lt handle (issued_eq ▸ older)
  distinct handle older other otherOlder same := by
    change (shared.registrations handle).id = (shared.registrations other).id at same
    rw [ids_eq, ids_eq] at same
    exact numbered.distinct handle (issued_eq ▸ older) other (issued_eq ▸ otherOlder) same
  claimed other diskDir id isInserting := by
    change Function.update world.calls call place other = _ at isInserting
    by_cases same : other = call
    · subst same
      rw [Function.update_self] at isInserting
      exact absurd isInserting (notInserting diskDir id)
    · rw [Function.update_of_ne same] at isInserting
      obtain ⟨bound, unused⟩ := numbered.claimed other diskDir id isInserting
      refine ⟨nextId_eq ▸ bound, fun handle older => ?_⟩
      change (shared.registrations handle).id ≠ id
      rw [ids_eq]
      exact unused handle (issued_eq ▸ older)

/-- An id is given out. -/
theorem claim (numbered : Numbered world) {nextId : Nat}
    (following : followingId world.shared.nextId = some nextId)
    (few : world.shared.taken + 1 < 2 ^ 64 - 1)
    (own : ∀ diskDir id, place = .inserting diskDir id → id = world.shared.nextId) :
    Numbered ⟨world.shared.claim nextId, lock, Function.update world.calls call place⟩ := by
  have start := numbered.nextId_eq
  have next_eq : nextId = world.shared.nextId + 1 :=
    Option.some.inj (following.symm.trans (followingId_of_lt (by omega) (by omega)))
  refine ⟨?_, fun handle older => ?_, numbered.distinct, ?_⟩
  · change nextId = world.shared.taken + 1 + 1
    rw [next_eq, start]
  · have bound := numbered.id_lt handle older
    change (world.shared.registrations handle).id < nextId
    omega
  · intro other diskDir id isInserting
    change Function.update world.calls call place other = _ at isInserting
    by_cases same : other = call
    · subst same
      rw [Function.update_self] at isInserting
      have id_eq := own diskDir id isInserting
      refine ⟨?_, fun handle older => ?_⟩
      · change id < nextId
        omega
      · have bound := numbered.id_lt handle older
        change (world.shared.registrations handle).id ≠ id
        omega
    · rw [Function.update_of_ne same] at isInserting
      obtain ⟨bound, unused⟩ := numbered.claimed other diskDir id isInserting
      refine ⟨?_, unused⟩
      change id < nextId
      omega

/-- A registration is made; only its own call is about to make one. -/
theorem insert (numbered : Numbered world) {diskDir : Option Directory} {id : Nat}
    (isInserting : world.calls call = .inserting diskDir id)
    (alone : ∀ other ≠ call, (world.calls other).grip = .free) :
    Numbered ⟨world.shared.insert id diskDir, lock,
      Function.update world.calls call (.registered id world.shared.issued)⟩ := by
  obtain ⟨bound, unused⟩ := numbered.claimed call diskDir id isInserting
  have newest : ((world.shared.insert id diskDir).registrations world.shared.issued).id = id := by
    simp [Shared.insert]
  have older {handle : Handle} (isOlder : handle < world.shared.issued) :
      (world.shared.insert id diskDir).registrations handle = world.shared.registrations handle :=
    Function.update_of_ne isOlder.ne _ _
  refine ⟨numbered.nextId_eq, fun handle isKnown => ?_,
    fun handle isKnown other otherKnown same => ?_, ?_⟩
  · rcases Nat.lt_succ_iff_lt_or_eq.mp isKnown with isOlder | rfl
    · change ((world.shared.insert id diskDir).registrations handle).id < _
      rw [older isOlder]
      exact numbered.id_lt handle isOlder
    · change ((world.shared.insert id diskDir).registrations _).id < _
      rw [newest]
      exact bound
  · change ((world.shared.insert id diskDir).registrations handle).id =
      ((world.shared.insert id diskDir).registrations other).id at same
    rcases Nat.lt_succ_iff_lt_or_eq.mp isKnown with isOlder | rfl <;>
      rcases Nat.lt_succ_iff_lt_or_eq.mp otherKnown with otherOlder | rfl
    · rw [older isOlder, older otherOlder] at same
      exact numbered.distinct handle isOlder other otherOlder same
    · rw [older isOlder, newest] at same
      exact absurd same (unused handle isOlder)
    · rw [older otherOlder, newest] at same
      exact absurd same.symm (unused other otherOlder)
    · rfl
  · intro other otherDir otherId otherInserting
    change Function.update world.calls call _ other = _ at otherInserting
    by_cases same : other = call
    · subst same
      rw [Function.update_self] at otherInserting
      cases otherInserting
    · rw [Function.update_of_ne same] at otherInserting
      have free := alone other same
      rw [otherInserting] at free
      cases free

theorem move (numbered : Numbered world) (coherent : Coherent world)
    (moves : Moves world.shared (world.calls call) shared place) (few : shared.taken < 2 ^ 64 - 1) :
    Numbered ⟨shared, lock, Function.update world.calls call place⟩ := by
  generalize at_eq : world.calls call = current at moves
  cases moves
  case claim following unmarked =>
    exact numbered.claim following few (by rintro _ _ ⟨⟩; rfl)
  case refuseInvalidated following =>
    exact numbered.claim following few (by rintro _ _ ⟨⟩)
  case insert =>
    exact numbered.insert at_eq fun other ne =>
      coherent.lock.free_of_exclusive (by rw [at_eq]; rfl) ne
  case lease | close | condemn | condemnBare | sweepFlag =>
    exact numbered.of_same rfl (by simp) rfl rfl (by rintro _ _ ⟨⟩)
  all_goals
    exact numbered.of_same rfl (fun _ => rfl) rfl rfl (by rintro _ _ ⟨⟩)

end Numbered

theorem Moves.taken_le {shared after : Shared} {place reached : Place}
    (moves : Moves shared place after reached) :
    shared.taken ≤ after.taken := by
  cases moves
  case claim | refuseInvalidated => exact Nat.le_succ _
  all_goals exact le_rfl

/-! ## Calls on a removed registration -/

/-- The registration that a reader has found. -/
def Place.found : Place → Option Handle
  | .checking _ _ handle | .leasing _ _ handle | .leased _ _ handle
  | .working _ _ handle | .calling _ _ handle | .condemning _ handle
  | .marking _ handle _ | .sweepEntering _ handle _
  | .sweeping _ handle _ _ | .closing _ _ handle _ => some handle
  | .answered _ _ handle _ => handle
  | _ => none

theorem Moves.found {shared after : Shared} {place reached : Place}
    (moves : Moves shared place after reached) {handle : Handle}
    (found : reached.found = some handle) :
    place.found = some handle ∨ shared.Live handle := by
  cases moves
  case find isListed =>
    cases found
    exact .inr ⟨_, isListed⟩
  all_goals exact .inl found

/-- The process is not restarted. -/
def Running (action : Action) (_ : World) : Prop :=
  action ≠ .restart

instance : ∀ action world, Decidable (Running action world)
  | .act _ _, _ => .isTrue (by rintro ⟨⟩)
  | .restart, _ => .isFalse fun running => running rfl

/-- Calls that had not begun when a registration was out of reach never find
it. -/
theorem reaches_avoids {world after : World} (coherent : Coherent world) {id : Nat}
    {handle : Handle} (retired : world.shared.Retired id handle)
    (continues : Reaches step Running world after) :
    after.shared.Retired id handle ∧ ∀ call, world.calls call = .unstarted →
        (after.calls call).found ≠ some handle := by
  suffices kept : Coherent after ∧ after.shared.Retired id handle ∧
      ∀ call, world.calls call = .unstarted → (after.calls call).found ≠ some handle from kept.2
  refine continues.invariant (fun state => Coherent state ∧ state.shared.Retired id handle ∧
      ∀ call, world.calls call = .unstarted →
        (state.calls call).found ≠ some handle) ⟨coherent, retired, ?_⟩ ?_
  · intro call unstarted
    rw [unstarted]
    exact Option.some_ne_none handle ∘ Eq.symm
  · rintro action before next ⟨beforeCoherent, stillRetired, avoids⟩ running moves
    refine ⟨step_coherent beforeCoherent moves, ?_⟩
    cases action with
    | restart => exact absurd rfl running
    | act call choice =>
      obtain ⟨shared, place, lock, moved, -, rfl⟩ := step_act moves
      refine ⟨stillRetired.evolves (moved.evolves (beforeCoherent.sound call)), ?_⟩
      intro other unstarted found
      by_cases same : other = call
      · subst same
        change (Function.update before.calls other place other).found = _ at found
        rw [Function.update_self] at found
        rcases moved.found found with earlier | live
        · exact avoids other unstarted earlier
        · exact stillRetired.notLive live
      · change (Function.update before.calls call place other).found = _ at found
        rw [Function.update_of_ne same] at found
        exact avoids other unstarted found

theorem reaches_numbered {invalidated : Directory → Bool} {world : World}
    (reached : Reaches step Running (World.fresh invalidated) world)
    (few : world.shared.taken < 2 ^ 64 - 1) :
    Numbered world := by
  refine (reached.invariant (fun state => Coherent state ∧
    (state.shared.taken < 2 ^ 64 - 1 → Numbered state))
      ⟨fresh_coherent invalidated, fun _ => fresh_numbered invalidated⟩ ?_).2 few
  rintro action before next ⟨coherent, numbered⟩ running moves
  refine ⟨step_coherent coherent moves, fun few => ?_⟩
  cases action with
  | restart => exact absurd rfl running
  | act call choice =>
    obtain ⟨shared, place, lock, moved, -, rfl⟩ := step_act moves
    exact (numbered (moved.taken_le.trans_lt few)).move coherent moved few

/-- While a directory is deleted no live registration refers to it.  Once `remove`
has returned `true`, no callback of the registration is running then or later,
and calls on its id that begin later fail. -/
theorem remove_returns_safely (invalidated : Directory → Bool)
    {world : World}
    (reached : Reaches step Running (World.fresh invalidated) world) :
    (∀ call id handle directory, world.calls call = .deleting id handle directory →
        ∀ other, world.shared.Live other →
          (world.shared.registrations other).diskDir ≠ some directory) ∧
    ∀ remover id handle, world.calls remover = .removed id handle →
      ∀ after, Reaches step Running world after → after.shared.taken < 2 ^ 64 - 1 →
        (∀ call purpose other, after.calls call ≠ .calling purpose other handle) ∧
        ∀ call purpose found outcome, world.calls call = .unstarted →
          after.calls call = .answered purpose id found outcome → outcome = .error notFound := by
  have coherent := reaches_coherent (fresh_coherent invalidated) reached
  constructor
  · intro call id handle directory isDeleting
    have sound := coherent.sound call
    rw [isDeleting] at sound
    exact sound.2
  · intro remover id handle isRemoved after continues few
    have retired := coherent.sound remover
    rw [isRemoved] at retired
    obtain ⟨stillRetired, avoids⟩ :=
      reaches_avoids coherent retired continues
    have later := reaches_coherent coherent continues
    constructor
    · intro call purpose other isCalling
      have leases := later.leases handle
      rw [stillRetired.unused] at leases
      have notLeased := of_decide_eq_false (leases.eq_false call)
      rw [isCalling] at notLeased
      exact notLeased rfl
    · intro call purpose found outcome unstarted isAnswered
      have sound := later.sound call
      have avoided := avoids call unstarted
      rw [isAnswered] at sound avoided
      cases found with
      | none => exact sound
      | some other =>
        have numbered := reaches_numbered (reached.trans continues) few
        have same := numbered.distinct other sound.1 handle
          stillRetired.known.1 (sound.2.trans stillRetired.known.2.symm)
        subst same
        exact absurd rfl avoided

/-- A registration is made, and removed while its callback is running. -/
def removedWhileCalling : List Action :=
  [.act 0 (.register ⟨1, 1, some "d".toList⟩)] ++ advances 0 3 ++
    [.act 1 (.readRange 1)] ++ advances 1 5 ++ [.act 1 .invoke] ++
    [.act 2 (.remove 1)] ++ advances 2 2 ++
    advances 1 1 ++ [.act 1 (.finish (.ok true))] ++ advances 1 1 ++
    advances 2 3 ++ [.act 2 (.delete true)]

theorem remove_returns_safely_calling :
    ∃ world after, Reaches step Running (World.fresh fun _ => false) world ∧
      world.calls 2 = .removed 1 0 ∧
      Reaches step Running world after ∧
      after.calls 3 = .answered .readRange 1 none (.error notFound) ∧
      ∀ call purpose other, after.calls call ≠ .calling purpose other 0 := by
  let later : List Action := [.act 3 (.readRange 1)] ++ advances 3 2
  have ended : ((runActions step removedWhileCalling
      (World.fresh fun _ => false)).map fun world => world.calls 2) = some (.removed 1 0) := by
    decide +kernel
  have read : ((runActions step removedWhileCalling (World.fresh fun _ => false)).bind fun world =>
        (runActions step later world).map fun after =>
          (after.calls 3, after.shared.taken, world.calls 3)) =
        some (.answered .readRange 1 none (.error notFound), 1, .unstarted) := by
    decide +kernel
  obtain ⟨world, runs, isRemoved⟩ := Option.map_eq_some_iff.mp ended
  rw [runs, Option.bind_some] at read
  obtain ⟨after, laterRuns, observed⟩ := Option.map_eq_some_iff.mp read
  simp only [Prod.mk.injEq] at observed
  have reached : Reaches step Running (World.fresh fun _ => false) world :=
    Reaches.refl.runActions (by decide +kernel) runs
  have continues : Reaches step Running world after := by
    refine Reaches.refl.runActions (admitsAll_of_forall ?_ world) laterRuns
    simp [later, advances, Running]
  have safe := (remove_returns_safely (fun _ => false) reached).2 2 1 0
    isRemoved after continues (by rw [observed.2.1]; decide)
  exact ⟨world, after, reached, isRemoved, continues, observed.1, safe.1⟩

end P2pLifecycle
end VideoProxy
