import VideoProxy.P2pNetwork.PieceScheduler

/-!
# Download of pieces from several peers

`download_from_peers` runs a task for each peer.  The tasks share a
`PieceScheduler` behind a lock and the files of a `TorrentPieceStore`.  A task
claims a piece that its peer has, looks for it in the store, downloads and stores
it if it is not there, and tells the scheduler how that ended.

The peers of a batch and of the next ones may all run at the same time here, and a
task can be held up after each step.
-/

namespace VideoProxy
namespace P2pNetwork

/-! ## The tasks -/

/-- What `download_from_peers` is called with, and SHA-1. -/
structure PeersCall where
  metadata : TorrentMetadata
  maxPiecesPerPeer : Nat
  sha1 : List UInt8 → List UInt8

/-- `PieceCall` for a piece of the torrent. -/
def PeersCall.piece (call : PeersCall) (index : Nat) :
    Except ProxyError PieceCall := do
  let length ← torrentPieceLength call.metadata index
  match call.metadata.pieceSha1[index]? with
  | none => throw (.request "piece hash index out of range")
  | some hash => pure ⟨.ofNat index, length, hash, call.sha1⟩

namespace Pieces

/-- A piece that a task works on, with what it needs to go on after that. -/
structure Work where
  bitfield : List UInt8
  downloaded : Nat
  index : Nat

/-- Where the task for a peer is: each place is named by what it does next. -/
inductive Place
  | unstarted
  | observing (bitfield : List UInt8)
  | claiming (bitfield : List UInt8) (downloaded : Nat)
  | loading (work : Work)
  | downloading (work : Work) (call : PieceCall)
  | storing (work : Work) (call : PieceCall) (bytes : List UInt8)
  | committing (work : Work) (bytes : List UInt8)
  | settling (work : Work) (result : Except ProxyError Unit)
  | ended (result : Except ProxyError Nat)

/-- The piece that a task works on. -/
def Place.index? : Place → Option Nat
  | .loading work | .downloading work _ | .storing work _ _
  | .committing work _ | .settling work _ => some work.index
  | _ => none

/-- What the tasks share and where they are, with the pieces whose download has
failed so far. -/
structure State where
  scheduler : PieceScheduler
  store : TorrentPieceStore
  tasks : Nat → Place
  failed : List Nat

/-- What can happen next.  Peers and files may do what they like each time. -/
inductive Action
  | connect (task : Nat) (result : Except ProxyError (List UInt8))
  | observe (task : Nat)
  | claim (task : Nat)
  | load (task : Nat) (readFault : Option String) (removes : Bool)
  | receive (task : Nat) (delivered : Except ProxyError (List UInt8))
  | write (task : Nat) (fault : Option String) (left : Option (List UInt8))
  | rename (task : Nat) (fault : Option String) (left : Option (List UInt8))
  | settle (task : Nat)

namespace State

/-- The tasks start with a new scheduler. -/
def start (scheduler : PieceScheduler) (store : TorrentPieceStore) : State where
  scheduler := scheduler
  store := store
  tasks _ := .unstarted
  failed := []

/-- A task goes on. -/
def move (state : State) (task : Nat) (place : Place) : State :=
  { state with tasks := Function.update state.tasks task place }

/-- The head of the loop of a task, and the claim of the next piece. -/
def claim (call : PeersCall) (task : Nat) (bitfield : List UInt8) (downloaded : Nat)
    (state : State) : State :=
  if downloaded < call.maxPiecesPerPeer then
    match PieceScheduler.claimNext bitfield state.scheduler with
    | (.ok (some index), scheduler) =>
      { state with scheduler }.move task (.loading { bitfield, downloaded, index })
    | (.ok none, scheduler) =>
      { state with scheduler }.move task (.ended (.ok downloaded))
    | (.error reason, scheduler) =>
      { state with scheduler }.move task (.ended (.error reason))
    | (.stopped, _) => state
  else state.move task (.ended (.ok downloaded))

/-- The piece is looked for in the store. -/
def load (call : PeersCall) (task : Nat) (work : Work) (readFault : Option String) (removes : Bool)
    (state : State) : State :=
  match call.piece work.index with
  | .error reason => state.move task (.settling work (.error reason))
  | .ok piece =>
    match state.store.load piece readFault removes work.index with
    | (.error reason, store) =>
      { state with store }.move task (.settling work (.error reason))
    | (.ok (some _), store) =>
      { state with store }.move task (.settling work (.ok ()))
    | (.ok none, store) =>
      { state with store }.move task (.downloading work piece)

/-- The scheduler is told how the download of a piece has ended. -/
def settle (task : Nat) (work : Work) (result : Except ProxyError Unit) (state : State) : State :=
  match result with
  | .ok () =>
    match PieceScheduler.complete work.index state.scheduler with
    | (.ok (), scheduler) =>
      { state with scheduler }.move task (.claiming work.bitfield (work.downloaded + 1))
    | (.error reason, scheduler) =>
      { state with scheduler }.move task (.ended (.error reason))
    | (.stopped, _) => state
  | .error reason =>
    match PieceScheduler.fail work.index state.scheduler with
    | (.ok (), scheduler) =>
      { state with scheduler, failed := work.index :: state.failed }.move task
        (.ended (.error reason))
    | (.error reason, scheduler) =>
      { state with scheduler }.move task (.ended (.error reason))
    | (.stopped, _) => state

/-- One step of a task. -/
def step (call : PeersCall) (action : Action) (state : State) : Option State :=
  match action with
  | .connect task result =>
    match state.tasks task with
    | .unstarted =>
      match result with
      | .ok bitfield => some (state.move task (.observing bitfield))
      | .error reason => some (state.move task (.ended (.error reason)))
    | _ => none
  | .observe task =>
    match state.tasks task with
    | .observing bitfield =>
      match PieceScheduler.observeBitfield bitfield state.scheduler with
      | (.ok (), scheduler) =>
        some ({ state with scheduler }.move task (.claiming bitfield 0))
      | (.error reason, scheduler) =>
        some ({ state with scheduler }.move task (.ended (.error reason)))
      | (.stopped, _) => none
    | _ => none
  | .claim task =>
    match state.tasks task with
    | .claiming bitfield downloaded =>
      some (state.claim call task bitfield downloaded)
    | _ => none
  | .load task readFault removes =>
    match state.tasks task with
    | .loading work => some (state.load call task work readFault removes)
    | _ => none
  | .receive task delivered =>
    match state.tasks task with
    | .downloading work piece =>
      match delivered.bind piece.verifyPieceSha1 with
      | .ok bytes => some (state.move task (.storing work piece bytes))
      | .error reason =>
        some (state.move task (.settling work (.error reason)))
    | _ => none
  | .write task fault left =>
    match state.tasks task with
    | .storing work piece bytes =>
      match TorrentPieceStore.checkStore piece bytes with
      | .error reason =>
        some (state.move task (.settling work (.error reason)))
      | .ok bytes =>
        match fault with
        | none =>
          some ({ state with
            store := state.store.setTemp work.index (some bytes) }.move
              task (.committing work bytes))
        | some reason =>
          some ({ state with
            store := state.store.setTemp work.index left }.move task
              (.settling work (.error (.storage ("write torrent piece failed: " ++ reason)))))
    | _ => none
  | .rename task fault left =>
    match state.tasks task with
    | .committing work _ =>
      match fault with
      | none =>
        some ({ state with
          store := (state.store.setPiece work.index
            (state.store.temps work.index)).setTemp work.index none }.move
              task (.settling work (.ok ())))
      | some reason =>
        some ({ state with
          store := state.store.setTemp work.index left }.move task (.settling work (.error (.storage
              ("commit torrent piece failed: " ++ reason)))))
    | _ => none
  | .settle task =>
    match state.tasks task with
    | .settling work result => some (state.settle task work result)
    | _ => none

end State

open State

/-! ## Pieces in flight -/

/-- The bytes have the digest of the piece. -/
def Verified (call : PeersCall) (index : Nat) (bytes : List UInt8) : Prop :=
  call.metadata.pieceSha1[index]? = some (call.sha1 bytes)

/-- The store has the piece. -/
def Stored (call : PeersCall) (store : TorrentPieceStore) (index : Nat) : Prop :=
  ∃ bytes, store.pieces index = some bytes ∧ Verified call index bytes

/-- What a task relies on at a place. -/
def Justified (call : PeersCall) (store : TorrentPieceStore) : Place → Prop
  | .downloading work piece | .storing work piece _ =>
    call.piece work.index = .ok piece
  | .committing work bytes =>
    store.temps work.index = some bytes ∧ Verified call work.index bytes
  | .settling work (.ok ()) => Stored call store work.index
  | _ => True

/-- A piece is in flight exactly while one task works on it, the failures are
counted and stay below the limit, and pieces that are complete are in the
store. -/
structure Sound (call : PeersCall) (state : State) : Prop where
  flight : ∀ index, state.scheduler.stateOf index = some .inFlight ↔
    ∃ task, (state.tasks task).index? = some index
  alone : ∀ first second index, (state.tasks first).index? = some index →
    (state.tasks second).index? = some index → first = second
  failures : ∀ index, state.scheduler.failuresOf index = state.failed.count index
  below : ∀ index, state.scheduler.stateOf index = some .inFlight →
    state.scheduler.failuresOf index < state.scheduler.maxFailures
  limit : state.scheduler.maxFailures = 3
  places : ∀ task, Justified call state.store (state.tasks task)
  stored : ∀ index, state.scheduler.stateOf index = some .complete → Stored call state.store index

/-- A task goes on with the piece it has, if any, and touches only its files. -/
structure Goes (call : PeersCall) (before after : State) (task : Nat) (old place : Place) :
    Prop where
  place_eq : before.tasks task = old
  tasks_eq : after.tasks = Function.update before.tasks task place
  index_eq : place.index? = old.index?
  states : before.scheduler.SameStates after.scheduler
  failed_eq : after.failed = before.failed
  files : ∀ index, old.index? ≠ some index →
    after.store.pieces index = before.store.pieces index ∧
      after.store.temps index = before.store.temps index
  justified : Justified call after.store place

/-- A task takes up a piece that was missing. -/
structure Claims (before after : State) (task : Nat) (work : Work) : Prop where
  place_eq : before.tasks task = .claiming work.bitfield work.downloaded
  tasks_eq : after.tasks = Function.update before.tasks task (.loading work)
  has : hasPiece work.bitfield work.index
  missing : before.scheduler.stateOf work.index = some .missing
  below : before.scheduler.failuresOf work.index < before.scheduler.maxFailures
  becomes : PieceScheduler.Becomes work.index .inFlight
    (before.scheduler.failuresOf work.index) before.scheduler after.scheduler
  failed_eq : after.failed = before.failed
  store_eq : after.store = before.store

/-- A task gives up its piece, which is in flight no longer. -/
structure Settles (call : PeersCall) (before after : State) (task index : Nat) (place : Place)
    (state : PieceState) (failures : Nat) : Prop where
  has : (before.tasks task).index? = some index
  tasks_eq : after.tasks = Function.update before.tasks task place
  free : place.index? = none
  becomes : PieceScheduler.Becomes index state failures before.scheduler after.scheduler
  landed : state ≠ .inFlight
  stored : state = .complete → Stored call before.store index
  counted : failures = after.failed.count index
  others : ∀ other, other ≠ index → after.failed.count other = before.failed.count other
  store_eq : after.store = before.store
  justified : Justified call after.store place

/-- What a step can do. -/
inductive Effect (call : PeersCall) (before after : State) : Prop
  | goes {task : Nat} {old place : Place} (goes : Goes call before after task old place)
  | claims {task : Nat} {work : Work} (claims : Claims before after task work)
  | settles {task index : Nat} {place : Place} {state : PieceState} {failures : Nat}
      (settles : Settles call before after task index place state failures)

section Sound

variable {call : PeersCall} {before after : State} {task index : Nat}
  {old place : Place} {piece : PieceCall} {bytes : List UInt8}
  {store : TorrentPieceStore} {work : Work}

/-- What passes the check has the hash of the piece. -/
theorem verified_of_verifyPieceSha1 {verified : List UInt8} (known : call.piece index = .ok piece)
    (matching : piece.verifyPieceSha1 bytes = .ok verified) :
    verified = bytes ∧ Verified call index bytes := by
  obtain ⟨length, _, known⟩ := exists_of_except_ok known
  split at known
  · cases known
  · rename_i hash found
    cases known
    unfold PieceCall.verifyPieceSha1 at matching
    split at matching
    · cases matching
    · rename_i equal
      cases matching
      rw [ne_eq, not_not] at equal
      refine ⟨rfl, ?_⟩
      rw [Verified, found]
      exact congrArg some equal.symm

theorem justified_congr (same : ∀ index, place.index? = some index →
      after.store.pieces index = before.store.pieces index ∧
        after.store.temps index = before.store.temps index)
    (justified : Justified call before.store place) :
    Justified call after.store place := by
  cases place with
  | committing work bytes =>
    simp only [Justified] at justified ⊢
    rw [(same work.index rfl).2]
    exact justified
  | settling work result =>
    cases result with
    | ok =>
      simp only [Justified, Stored] at justified ⊢
      rw [(same work.index rfl).1]
      exact justified
    | error reason => trivial
  | downloading work piece => exact justified
  | storing work piece bytes => exact justified
  | unstarted | observing _ | claiming _ _ | loading _ | ended _ => trivial

/-- A task that goes on keeps the records sound. -/
theorem Sound.goes (sound : Sound call before) (goes : Goes call before after task old place) :
    Sound call after := by
  obtain ⟨place_eq, tasks_eq, index_eq, states, failed_eq, files, justified⟩ := goes
  have indices (other : Nat) :
      (after.tasks other).index? = (before.tasks other).index? := by
    rw [tasks_eq]
    by_cases same : other = task
    · rw [same, Function.update_self, index_eq, place_eq]
    · rw [Function.update_of_ne same]
  obtain ⟨flight, alone, failures, below, limit, places, stored⟩ := sound
  refine ⟨fun index => ?_, fun first second index firstHas secondHas => ?_,
    fun index => ?_, fun index inFlight => ?_, ?_, fun other => ?_,
    fun index complete => ?_⟩
  · rw [states.states index, flight index]
    exact exists_congr fun other => by rw [indices other]
  · rw [indices] at firstHas secondHas
    exact alone first second index firstHas secondHas
  · rw [states.failures index, failed_eq]
    exact failures index
  · rw [states.states index] at inFlight
    rw [states.failures index, states.limit]
    exact below index inFlight
  · rw [states.limit]
    exact limit
  · rw [tasks_eq]
    by_cases same : other = task
    · rw [same, Function.update_self]
      exact justified
    · rw [Function.update_of_ne same]
      refine justified_congr (fun index has => files index fun alsoHas => ?_) (places other)
      rw [← place_eq] at alsoHas
      exact same (alone other task index has alsoHas)
  · rw [states.states index] at complete
    have notHere : old.index? ≠ some index := by
      intro has
      rw [← place_eq] at has
      rw [(flight index).mpr ⟨task, has⟩] at complete
      cases complete
    unfold Stored
    rw [(files index notHere).1]
    exact stored index complete

/-- A claim keeps the records sound. -/
theorem Sound.claims (sound : Sound call before) (claims : Claims before after task work) :
    Sound call after := by
  obtain ⟨place_eq, tasks_eq, -, missing, below, becomes, failed_eq, store_eq⟩ := claims
  have untaken (other : Nat) : (before.tasks other).index? ≠ some work.index := by
    intro has
    rw [(sound.flight work.index).mpr ⟨other, has⟩] at missing
    cases missing
  have moved : (after.tasks task).index? = some work.index := by
    rw [tasks_eq, Function.update_self]
    rfl
  have stays (other : Nat) (ne : other ≠ task) :
      after.tasks other = before.tasks other := by
    rw [tasks_eq, Function.update_of_ne ne]
  refine ⟨fun other => ?_, fun first second other firstHas secondHas => ?_,
    fun other => ?_, fun other inFlight => ?_, becomes.limit.trans sound.limit,
    fun other => ?_, fun other complete => ?_⟩
  · by_cases same : other = work.index
    · rw [same]
      exact iff_of_true becomes.state ⟨task, moved⟩
    · rw [(becomes.others other same).1, sound.flight other]
      refine exists_congr fun holder => ?_
      by_cases mover : holder = task
      · subst mover
        rw [place_eq, moved]
        simp [Place.index?, Ne.symm same]
      · rw [stays holder mover]
  · by_cases firstMoved : first = task
    · by_cases secondMoved : second = task
      · rw [firstMoved, secondMoved]
      · rw [firstMoved, moved] at firstHas
        cases firstHas
        rw [stays second secondMoved] at secondHas
        exact absurd secondHas (untaken second)
    · rw [stays first firstMoved] at firstHas
      by_cases secondMoved : second = task
      · rw [secondMoved, moved] at secondHas
        cases secondHas
        exact absurd firstHas (untaken first)
      · rw [stays second secondMoved] at secondHas
        exact sound.alone first second other firstHas secondHas
  · rw [failed_eq, ← sound.failures other]
    by_cases same : other = work.index
    · rw [same]
      exact becomes.failures
    · exact (becomes.others other same).2
  · rw [becomes.limit]
    by_cases same : other = work.index
    · rw [same, becomes.failures]
      exact below
    · rw [(becomes.others other same).1] at inFlight
      rw [(becomes.others other same).2]
      exact sound.below other inFlight
  · by_cases mover : other = task
    · rw [mover, tasks_eq, Function.update_self]
      trivial
    · rw [stays other mover, store_eq]
      exact sound.places other
  · have different : other ≠ work.index := by
      rintro rfl
      rw [becomes.state] at complete
      cases complete
    rw [(becomes.others other different).1] at complete
    rw [store_eq]
    exact sound.stored other complete

/-- The end of a piece keeps the records sound. -/
theorem Sound.settles {state : PieceState} {failures : Nat} (sound : Sound call before)
    (settles : Settles call before after task index place state failures) :
    Sound call after := by
  obtain ⟨has, tasks_eq, free, becomes, landed, stored, counted, others, store_eq, justified⟩ :=
    settles
  have moved : (after.tasks task).index? = none := by
    rw [tasks_eq, Function.update_self]
    exact free
  have stays (other : Nat) (ne : other ≠ task) :
      after.tasks other = before.tasks other := by
    rw [tasks_eq, Function.update_of_ne ne]
  have kept {holder other : Nat} (holds : (after.tasks holder).index? = some other) :
      holder ≠ task ∧ (before.tasks holder).index? = some other := by
    have ne : holder ≠ task := by
      rintro rfl
      rw [moved] at holds
      cases holds
    rw [stays holder ne] at holds
    exact ⟨ne, holds⟩
  refine ⟨fun other => ?_, fun first second other firstHas secondHas =>
      sound.alone first second other (kept firstHas).2 (kept secondHas).2,
    fun other => ?_, fun other inFlight => ?_, becomes.limit.trans sound.limit,
    fun other => ?_, fun other complete => ?_⟩
  · by_cases same : other = index
    · subst same
      refine iff_of_false (fun inFlight => ?_) ?_
      · rw [becomes.state, Option.some.injEq] at inFlight
        exact landed inFlight
      · rintro ⟨holder, holds⟩
        exact (kept holds).1 (sound.alone holder task other (kept holds).2 has)
    · rw [(becomes.others other same).1, sound.flight other]
      refine ⟨?_, fun ⟨holder, holds⟩ => ⟨holder, (kept holds).2⟩⟩
      rintro ⟨holder, holds⟩
      refine ⟨holder, ?_⟩
      rw [stays holder]
      · exact holds
      · rintro rfl
        rw [has] at holds
        cases holds
        exact same rfl
  · by_cases same : other = index
    · rw [same, becomes.failures]
      exact counted
    · rw [(becomes.others other same).2, others other same]
      exact sound.failures other
  · have different : other ≠ index := by
      rintro rfl
      rw [becomes.state, Option.some.injEq] at inFlight
      exact landed inFlight
    rw [(becomes.others other different).1] at inFlight
    rw [(becomes.others other different).2, becomes.limit]
    exact sound.below other inFlight
  · by_cases mover : other = task
    · rw [mover, tasks_eq, Function.update_self]
      exact justified
    · rw [stays other mover, store_eq]
      exact sound.places other
  · rw [store_eq]
    by_cases same : other = index
    · subst same
      rw [becomes.state, Option.some.injEq] at complete
      exact stored complete
    · rw [(becomes.others other same).1] at complete
      exact sound.stored other complete

theorem Effect.moves (place_eq : before.tasks task = old) (index_eq : place.index? = old.index?)
    (justified : Justified call before.store place) :
    Effect call before (before.move task place) :=
  .goes ⟨place_eq, rfl, index_eq, .refl _, rfl, fun _ _ => ⟨rfl, rfl⟩, justified⟩

variable {action : Action}

theorem Effect.stores (place_eq : before.tasks task = old)
    (old_eq : old.index? = some work.index) (index_eq : place.index? = some work.index)
    (pieces : ∀ index, index ≠ work.index → store.pieces index = before.store.pieces index)
    (temps : ∀ index, index ≠ work.index → store.temps index = before.store.temps index)
    (justified : Justified call store place) :
    Effect call before ({ before with store }.move task place) := by
  refine .goes ⟨place_eq, rfl, index_eq.trans old_eq.symm, .refl _, rfl, fun index other => ?_,
    justified⟩
  have different : index ≠ work.index := by
    rintro rfl
    exact other old_eq
  exact ⟨pieces index different, temps index different⟩

theorem load_pieces {readFault : Option String} {removes : Bool}
    {result : Except ProxyError (Option (List UInt8))} {after : TorrentPieceStore}
    (loads : store.load piece readFault removes index = (result, after)) :
    (∀ other, other ≠ index → after.pieces other = store.pieces other) ∧
      (∀ other, other ≠ index → after.temps other = store.temps other) ∧
      ∀ bytes, result = .ok (some bytes) → after.pieces index = some bytes ∧
          piece.verifyPieceSha1 bytes = .ok bytes := by
  unfold TorrentPieceStore.load at loads
  split at loads
  · cases loads
    exact ⟨fun _ _ => rfl, fun _ _ => rfl, nofun⟩
  · split at loads
    · cases loads
      exact ⟨fun _ _ => rfl, fun _ _ => rfl, nofun⟩
    · rename_i bytes found
      split at loads
      · rename_i good
        cases loads
        refine ⟨fun _ _ => rfl, fun _ _ => rfl, fun loaded same => ?_⟩
        cases same
        exact ⟨found, good.2⟩
      · cases loads
        refine ⟨fun other ne => ?_, fun _ _ => ?_, nofun⟩
        · split
          · exact Function.update_of_ne ne _ _
          · rfl
        · split <;> rfl

/-- A load leaves other pieces alone. -/
theorem load_effect {readFault : Option String} {removes : Bool}
    (loading : before.tasks task = .loading work) :
    Effect call before (before.load call task work readFault removes) := by
  unfold State.load
  split
  · exact .moves loading rfl trivial
  · rename_i piece known
    split
    · rename_i reason store loads
      obtain ⟨pieces, temps, _⟩ := load_pieces loads
      exact .stores loading rfl rfl pieces temps trivial
    · rename_i bytes store loads
      obtain ⟨pieces, temps, loaded⟩ := load_pieces loads
      obtain ⟨found, matching⟩ := loaded bytes rfl
      exact .stores loading rfl rfl pieces temps
        ⟨bytes, found, (verified_of_verifyPieceSha1 known matching).2⟩
    · rename_i store loads
      obtain ⟨pieces, temps, _⟩ := load_pieces loads
      exact .stores loading rfl rfl pieces temps known

/-- A claim takes a missing piece or none. -/
theorem claim_effect {bitfield : List UInt8} {downloaded : Nat}
    (claiming : before.tasks task = .claiming bitfield downloaded) :
    Effect call before (before.claim call task bitfield downloaded) := by
  unfold State.claim
  split
  · split
    · rename_i index scheduler claims
      obtain ⟨has, missing, below, becomes⟩ :=
        PieceScheduler.claimNext_some claims
      exact @Effect.claims _ _ _ task ⟨bitfield, downloaded, index⟩
        ⟨claiming, rfl, has, missing, below, becomes, rfl, rfl⟩
    · rename_i scheduler claims
      cases PieceScheduler.claimNext_of_not_some claims nofun
      exact .moves claiming rfl trivial
    · rename_i reason scheduler claims
      cases PieceScheduler.claimNext_of_not_some claims nofun
      exact .moves claiming rfl trivial
    · rename_i claims
      exact absurd claims PieceScheduler.claimNext_ne_stopped
  · exact .moves claiming rfl trivial

/-- A piece ends complete, or missing with one more failure. -/
theorem settle_effect {result : Except ProxyError Unit} (sound : Sound call before)
    (settling : before.tasks task = .settling work result) :
    Effect call before (before.settle task work result) := by
  have has : (before.tasks task).index? = some work.index := by
    rw [settling]
    rfl
  have inFlight := (sound.flight work.index).mpr ⟨task, has⟩
  cases result with
  | ok done =>
    obtain ⟨scheduler, completes, becomes⟩ :=
      PieceScheduler.complete_becomes inFlight
    have stored := sound.places task
    rw [settling] at stored
    simp only [State.settle, completes]
    exact .settles ⟨has, rfl, rfl, becomes, nofun, fun _ => stored, sound.failures work.index,
      fun _ _ => rfl, rfl, trivial⟩
  | error reason =>
    obtain ⟨scheduler, fails, becomes⟩ := PieceScheduler.fail_becomes inFlight
    have below := sound.below work.index inFlight
    have counted := sound.failures work.index
    rw [sound.limit] at below
    simp only [State.settle, fails]
    refine .settles ⟨has, rfl, rfl, becomes, nofun, nofun, ?_, fun other ne => ?_, rfl, trivial⟩
    · change _ = (work.index :: before.failed).count work.index
      rw [List.count_cons_self, ← counted]
      omega
    · exact List.count_cons_of_ne (Ne.symm ne)

section Step

variable (sound : Sound call before) (moves : step call action before = some after)
include sound moves

/-- Every step has one of the effects. -/
theorem step_effect : Effect call before after := by
  cases action with
  | connect task result =>
    simp only [step] at moves
    split at moves
    · rename_i unstarted
      split at moves
      all_goals
        cases moves
        exact .moves unstarted rfl trivial
    · cases moves
  | observe task =>
    simp only [step] at moves
    split at moves
    · rename_i observing
      split at moves
      · rename_i observes
        cases moves
        exact .goes ⟨observing, rfl, rfl, PieceScheduler.observeBitfield_sameStates observes,
          rfl, fun _ _ => ⟨rfl, rfl⟩, trivial⟩
      · rename_i observes
        cases moves
        exact .goes ⟨observing, rfl, rfl, PieceScheduler.observeBitfield_sameStates observes,
          rfl, fun _ _ => ⟨rfl, rfl⟩, trivial⟩
      · cases moves
    · cases moves
  | claim task =>
    simp only [step] at moves
    split at moves
    · rename_i claiming
      cases moves
      exact claim_effect claiming
    · cases moves
  | load task readFault removes =>
    simp only [step] at moves
    split at moves
    · rename_i loading
      cases moves
      exact load_effect loading
    · cases moves
  | receive task delivered =>
    simp only [step] at moves
    split at moves
    · rename_i downloading
      have known := sound.places task
      rw [downloading] at known
      split at moves
      · cases moves
        exact .moves downloading rfl known
      · cases moves
        exact .moves downloading rfl trivial
    · cases moves
  | write task fault left =>
    simp only [step] at moves
    split at moves
    · rename_i work piece bytes storing
      have known := sound.places task
      rw [storing] at known
      split at moves
      · cases moves
        exact .moves storing rfl trivial
      · rename_i checked checks
        have matching : Verified call work.index checked := by
          unfold TorrentPieceStore.checkStore at checks
          split at checks
          · obtain ⟨rfl, verified⟩ := verified_of_verifyPieceSha1 known checks
            exact verified
          · cases checks
        split at moves
        · cases moves
          refine .stores storing rfl rfl (fun _ _ => rfl)
            (fun _ ne => Function.update_of_ne ne _ _) ⟨?_, matching⟩
          exact Function.update_self work.index _ _
        · cases moves
          exact .stores storing rfl rfl (fun _ _ => rfl)
            (fun _ ne => Function.update_of_ne ne _ _) trivial
    · cases moves
  | rename task fault left =>
    simp only [step] at moves
    split at moves
    · rename_i work bytes committing
      have written := sound.places task
      rw [committing] at written
      split at moves
      · cases moves
        refine .stores committing rfl rfl (fun _ ne => Function.update_of_ne ne _ _)
          (fun _ ne => Function.update_of_ne ne _ _) ⟨bytes, ?_, written.2⟩
        exact (Function.update_self work.index _ _).trans written.1
      · cases moves
        exact .stores committing rfl rfl (fun _ _ => rfl)
          (fun _ ne => Function.update_of_ne ne _ _) trivial
    · cases moves
  | settle task =>
    simp only [step] at moves
    split at moves
    · rename_i settling
      cases moves
      exact settle_effect sound settling
    · cases moves

/-- Every step keeps the records sound. -/
theorem step_sound : Sound call after := by
  cases step_effect sound moves with
  | goes goes => exact sound.goes goes
  | claims claims => exact sound.claims claims
  | settles settles => exact sound.settles settles

/-- Pieces that are complete stay so. -/
theorem step_complete
    (complete : before.scheduler.stateOf index = some .complete) :
    after.scheduler.stateOf index = some .complete := by
  cases step_effect sound moves with
  | goes goes =>
    rw [goes.states.states index]
    exact complete
  | claims claims =>
    rw [(claims.becomes.others index ?_).1]
    · exact complete
    · rintro rfl
      rw [claims.missing] at complete
      cases complete
  | settles settles =>
    rw [(settles.becomes.others index ?_).1]
    · exact complete
    · rintro rfl
      rw [(sound.flight index).mpr ⟨_, settles.has⟩] at complete
      cases complete

/-- A task that gets a piece has claimed it. -/
theorem step_claims (free : (before.tasks task).index? = none)
    (taken : (after.tasks task).index? = some index) :
    ∃ bitfield downloaded, before.tasks task = .claiming bitfield downloaded ∧
      hasPiece bitfield index ∧
      before.scheduler.stateOf index = some .missing ∧
      before.failed.count index < 3 := by
  cases step_effect sound moves with
  | @goes other old place goes =>
    rw [goes.tasks_eq] at taken
    by_cases same : task = other
    · rw [same, Function.update_self, goes.index_eq, ← goes.place_eq, ← same, free] at taken
      cases taken
    · rw [Function.update_of_ne same, free] at taken
      cases taken
  | @claims other work claims =>
    obtain ⟨place_eq, tasks_eq, has, missing, below, -⟩ := claims
    rw [tasks_eq] at taken
    by_cases same : task = other
    · rw [same, Function.update_self] at taken
      cases taken
      rw [sound.limit, sound.failures] at below
      exact ⟨work.bitfield, work.downloaded, same ▸ place_eq, has, missing, below⟩
    · rw [Function.update_of_ne same, free] at taken
      cases taken
  | @settles other settled place state failures settles =>
    rw [settles.tasks_eq] at taken
    by_cases same : task = other
    · rw [same, Function.update_self, settles.free] at taken
      cases taken
    · rw [Function.update_of_ne same, free] at taken
      cases taken

end Step

theorem start_sound {scheduler : PieceScheduler}
    (made : PieceScheduler.new call.metadata.pieceSha1.length 3 = .ok scheduler)
    (store : TorrentPieceStore) :
    Sound call (start scheduler store) := by
  obtain ⟨missing, failures, limit⟩ := PieceScheduler.new_slots made
  refine ⟨fun index => iff_of_false (fun inFlight => ?_) ?_,
    fun first second index has => ?_, failures, fun index inFlight => ?_, limit,
    fun task => trivial, fun index complete => ?_⟩
  · cases missing index _ inFlight
  · rintro ⟨task, has⟩
    cases has
  · cases has
  · cases missing index _ inFlight
  · cases missing index _ complete

end Sound

/-- At each moment of a download from several peers, a piece is in flight exactly
while one task works on it; a task gets only pieces that are missing, that its
peer has and that failed fewer than three times; pieces that are complete stay so
and are in the store; and nothing is in flight when all tasks have ended. -/
theorem pieces_exclusive
    {call : PeersCall}
    {scheduler : PieceScheduler}
    {store : TorrentPieceStore}
    {state : State}
    (made : PieceScheduler.new call.metadata.pieceSha1.length 3 = .ok scheduler)
    (reached : Reaches (step call) (fun _ _ => True) (start scheduler store) state) :
    (∀ first second index, (state.tasks first).index? = some index →
      (state.tasks second).index? = some index → first = second) ∧
    (∀ index, state.scheduler.stateOf index = some .inFlight ↔
      ∃ task, (state.tasks task).index? = some index) ∧
    (∀ action after task index, step call action state = some after →
      (state.tasks task).index? = none →
      (after.tasks task).index? = some index →
      ∃ bitfield downloaded, state.tasks task = .claiming bitfield downloaded ∧
        hasPiece bitfield index ∧
        state.scheduler.stateOf index = some .missing ∧
        state.failed.count index < 3) ∧
    (∀ action after index, step call action state = some after →
      state.scheduler.stateOf index = some .complete →
      after.scheduler.stateOf index = some .complete) ∧
    (∀ index, state.scheduler.stateOf index = some .complete →
      ∃ bytes, state.store.pieces index = some bytes ∧
        call.metadata.pieceSha1[index]? = some (call.sha1 bytes)) ∧
    ((∀ task, state.tasks task = .unstarted ∨ ∃ result, state.tasks task = .ended result) →
      ∀ index, state.scheduler.stateOf index ≠ some .inFlight) := by
  have sound : Sound call state :=
    reached.invariant (Sound call) (start_sound made store)
      fun _ _ _ sound _ moves => step_sound sound moves
  refine ⟨sound.alone, sound.flight, fun action after task index moves => step_claims sound moves,
    fun action after index moves => step_complete sound moves, sound.stored,
    fun ended index inFlight => ?_⟩
  obtain ⟨task, has⟩ := (sound.flight index).mp inFlight
  rcases ended task with place_eq | ⟨result, place_eq⟩
  · rw [place_eq] at has
    cases has
  · rw [place_eq] at has
    cases has

/-- A torrent of one piece; its digest is taken to be the piece. -/
def onePiece : PeersCall where
  metadata :=
    { infoHash := [], name := [], totalLength := 1, pieceLength := 1
      pieceSha1 := [[7]], files := [] }
  maxPiecesPerPeer := 2
  sha1 bytes := bytes

/-- The first of two peers fails, and the second delivers the piece. -/
def secondPeer : List Action :=
  [.connect 0 (.ok [0x80]), .connect 1 (.ok [0x80]), .observe 0, .observe 1,
    .claim 0, .load 0 none true, .receive 0 (.ok [8]), .settle 0,
    .claim 1, .load 1 none true, .receive 1 (.ok [7]), .write 1 none none,
    .rename 1 none none, .settle 1]

theorem pieces_exclusive_second_peer :
    ∃ scheduler state, PieceScheduler.new onePiece.metadata.pieceSha1.length 3 = .ok scheduler ∧
      Reaches (step onePiece) (fun _ _ => True)
        (start scheduler ⟨fun _ => none, fun _ => none⟩) state ∧
      state.failed = [0] ∧ state.scheduler.stateOf 0 = some .complete ∧
      ∃ bytes, state.store.pieces 0 = some bytes ∧
        onePiece.metadata.pieceSha1[0]? = some (onePiece.sha1 bytes) := by
  have runs : runActions (step onePiece) secondPeer
      (start { slots := [⟨.missing, 0, 0, 0⟩], maxFailures := 3 }
        ⟨fun _ => none, fun _ => none⟩) = some _ := rfl
  obtain ⟨state, reached, failed_eq, complete⟩ : ∃ state, Reaches (step onePiece) (fun _ _ => True)
        (start { slots := [⟨.missing, 0, 0, 0⟩], maxFailures := 3 }
          ⟨fun _ => none, fun _ => none⟩) state ∧
      state.failed = [0] ∧ state.scheduler.stateOf 0 = some .complete :=
    ⟨_, Reaches.refl.runActions (admitsAll_true _ _) runs, rfl, rfl⟩
  obtain ⟨_, _, _, _, stored, _⟩ :=
    @pieces_exclusive onePiece _ _ _ rfl reached
  exact ⟨_, state, rfl, reached, failed_eq, complete, stored 0 complete⟩

end Pieces
end P2pNetwork
end VideoProxy
