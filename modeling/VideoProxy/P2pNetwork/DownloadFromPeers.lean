import Mathlib.Algebra.GroupWithZero.Nat
import Mathlib.Algebra.BigOperators.Group.List.Basic
import VideoProxy.P2pNetwork.PeerTasks

/-!
# The number of pieces that a download reports

`download_from_peers` starts the tasks of one batch of peers after the other,
waits for the tasks of a batch and adds up what they return.  The scheduler knows
which pieces are complete.  A task that fails returns an error, and the pieces it
has completed before that are not counted.
-/

namespace VideoProxy
namespace P2pNetwork

/-! ## Complete pieces -/

namespace PieceScheduler

/-- `PieceScheduler::states`. -/
def states (scheduler : PieceScheduler) : List PieceState :=
  scheduler.slots.map PieceSlot.state

/-- `PieceScheduler::is_complete`. -/
def isComplete (scheduler : PieceScheduler) : Bool :=
  scheduler.states.all fun state => state = .complete

/-- The number of pieces that are complete. -/
def completeCount (scheduler : PieceScheduler) : Nat :=
  scheduler.states.count .complete

section States

variable {before after : PieceScheduler} {index : Nat} {old state : PieceState}

theorem getElem?_states (scheduler : PieceScheduler) (index : Nat) :
    scheduler.states[index]? = scheduler.stateOf index := by
  rw [states, List.getElem?_map]
  rfl

theorem SameStates.states_eq (same : SameStates before after) : after.states = before.states := by
  refine List.ext_getElem? fun other => ?_
  rw [getElem?_states, getElem?_states, same.states other]

theorem Becomes.states_eq {failures : Nat} (becomes : Becomes index state failures before after)
    (was : before.stateOf index = some old) :
    after.states = before.states.set index state := by
  have inRange : index < before.states.length := by
    rw [← getElem?_states] at was
    exact (List.getElem?_eq_some_iff.mp was).1
  refine List.ext_getElem? fun other => ?_
  rw [getElem?_states, List.getElem?_set]
  by_cases same : index = other
  · rw [if_pos same, if_pos inRange, ← same]
    exact becomes.state
  · rw [if_neg same, getElem?_states]
    exact (becomes.others other (Ne.symm same)).1

theorem Becomes.completeCount {failures : Nat} (becomes : Becomes index state failures before after)
    (was : before.stateOf index = some old) (unfinished : old ≠ .complete) :
    after.completeCount = before.completeCount + if state = .complete then 1 else 0 := by
  rw [← getElem?_states] at was
  obtain ⟨inRange, found⟩ := List.getElem?_eq_some_iff.mp was
  rw [getElem?_states] at was
  unfold PieceScheduler.completeCount
  rw [becomes.states_eq was, List.count_set inRange, found]
  simp [unfinished]

end States

end PieceScheduler

/-! ## What a task has completed -/

namespace Pieces

/-- The task that takes the step. -/
def Action.task : Action → Nat
  | .connect task _ | .observe task | .claim task | .load task _ _
  | .receive task _ | .write task _ _ | .rename task _ _ | .settle task => task

/-- The pieces that a task has completed and reports if it goes on to its end. -/
def Place.completed : Place → Nat
  | .claiming _ downloaded => downloaded
  | .loading work | .downloading work _ | .storing work _ _
  | .committing work _ | .settling work _ => work.downloaded
  | .ended (.ok downloaded) => downloaded
  | _ => 0

/-- The bitfield that a task claims pieces with is as long as it has to be. -/
def Place.Fits (pieceCount : Nat) : Place → Prop
  | .claiming bitfield _ => bitfield.length = (pieceCount + 7) / 8
  | .loading work | .downloading work _ | .storing work _ _
  | .committing work _ | .settling work _ =>
    work.bitfield.length = (pieceCount + 7) / 8
  | _ => True

/-- The pieces that are complete and that no task reports after the step, because
the task that has completed them fails with its next one. -/
def forgotten (action : Action) (state : State) : Nat :=
  match action with
  | .settle task =>
    match state.tasks task with
    | .settling work (.error _) => work.downloaded
    | _ => 0
  | _ => 0

/-- What a step does to the numbers of pieces. -/
structure Counts (action : Action) (before after : State) (place : Place) : Prop where
  tasks_eq : after.tasks = Function.update before.tasks action.task place
  pieces : after.scheduler.states.length = before.scheduler.states.length
  fits : place.Fits before.scheduler.states.length
  count : after.scheduler.completeCount + (before.tasks action.task).completed =
    before.scheduler.completeCount + place.completed + forgotten action before

section Counts

variable {call : PeersCall} {before after : State} {action : Action}
  {place : Place} {work : Work}

theorem Counts.goes {old : Place} (place_eq : before.tasks action.task = old)
    (tasks_eq : after.tasks = Function.update before.tasks action.task place)
    (states_eq : after.scheduler.states = before.scheduler.states)
    (fits : place.Fits before.scheduler.states.length) (completed : old.completed = place.completed)
    (kept : forgotten action before = 0) :
    Counts action before after place := by
  refine ⟨tasks_eq, ?_, fits, ?_⟩
  · rw [states_eq]
  · rw [PieceScheduler.completeCount, states_eq, place_eq, kept, completed]
    rfl

theorem load_counts {task : Nat} {readFault : Option String} {removes : Bool}
    (loading : before.tasks task = .loading work)
    (fits : work.bitfield.length = (before.scheduler.states.length + 7) / 8) :
    ∃ place, Counts (.load task readFault removes) before
      (before.load call task work readFault removes) place := by
  unfold State.load
  repeat' split
  all_goals exact ⟨_, .goes loading rfl rfl fits rfl rfl⟩

/-- The bitfield of a task was checked, so a claim finds a piece or ends the
task. -/
theorem claim_counts {task downloaded : Nat} {bitfield : List UInt8}
    (claiming : before.tasks task = .claiming bitfield downloaded)
    (fits : bitfield.length = (before.scheduler.states.length + 7) / 8) :
    ∃ place, Counts (.claim task) before (before.claim call task bitfield downloaded) place := by
  unfold State.claim
  split
  · split
    · rename_i index scheduler claims
      obtain ⟨_, missing, _, becomes⟩ := PieceScheduler.claimNext_some claims
      refine ⟨_, rfl, ?_, fits, ?_⟩
      · change scheduler.states.length = _
        rw [becomes.states_eq missing, List.length_set]
      · change scheduler.completeCount + (before.tasks task).completed =
          before.scheduler.completeCount + downloaded + 0
        rw [becomes.completeCount missing nofun, claiming]
        rfl
    · rename_i scheduler claims
      cases PieceScheduler.claimNext_of_not_some claims nofun
      exact ⟨_, .goes claiming rfl rfl trivial rfl rfl⟩
    · rename_i reason scheduler claims
      rw [PieceScheduler.states, List.length_map] at fits
      simp only [PieceScheduler.claimNext, fits, ne_eq, not_true_eq_false, if_false] at claims
      split at claims
      · cases claims
      · cases claims
    · rename_i claims
      exact absurd claims PieceScheduler.claimNext_ne_stopped
  · exact ⟨_, .goes claiming rfl rfl trivial rfl rfl⟩

theorem settle_counts {task : Nat} {result : Except ProxyError Unit} (sound : Sound call before)
    (settling : before.tasks task = .settling work result)
    (fits : work.bitfield.length = (before.scheduler.states.length + 7) / 8) :
    ∃ place, Counts (.settle task) before (before.settle task work result) place := by
  have inFlight := (sound.flight work.index).mpr ⟨task, by rw [settling]; rfl⟩
  cases result with
  | ok done =>
    obtain ⟨scheduler, completes, becomes⟩ :=
      PieceScheduler.complete_becomes inFlight
    have added := becomes.completeCount inFlight nofun
    simp only [State.settle, completes]
    refine ⟨_, rfl, ?_, fits, ?_⟩
    · change scheduler.states.length = _
      rw [becomes.states_eq inFlight, List.length_set]
    · change scheduler.completeCount + (before.tasks task).completed =
        before.scheduler.completeCount + (work.downloaded + 1) + forgotten (.settle task) before
      simp only [forgotten, settling, Place.completed, if_true] at added ⊢
      omega
  | error reason =>
    obtain ⟨scheduler, fails, becomes⟩ := PieceScheduler.fail_becomes inFlight
    have added := becomes.completeCount inFlight nofun
    simp only [State.settle, fails]
    refine ⟨_, rfl, ?_, trivial, ?_⟩
    · change scheduler.states.length = _
      rw [becomes.states_eq inFlight, List.length_set]
    · change scheduler.completeCount + (before.tasks task).completed =
        before.scheduler.completeCount + 0 + forgotten (.settle task) before
      simp only [forgotten, settling, Place.completed, reduceCtorEq, if_false] at added ⊢
      omega

theorem observe_fits {bitfield : List UInt8} {scheduler after : PieceScheduler}
    (observes : PieceScheduler.observeBitfield bitfield scheduler = (.ok (), after)) :
    bitfield.length = (scheduler.states.length + 7) / 8 := by
  rw [PieceScheduler.states, List.length_map]
  simp only [PieceScheduler.observeBitfield] at observes
  split at observes
  · cases observes
  · rename_i fits
    exact Decidable.of_not_not fits

/-- Each step counts the pieces right, apart from those of a task that fails. -/
theorem step_counts (sound : Sound call before)
    (fits : ∀ task, (before.tasks task).Fits before.scheduler.states.length)
    (moves : State.step call action before = some after) :
    ∃ place, Counts action before after place := by
  have fitting := fits action.task
  cases action with
  | connect task result =>
    simp only [State.step] at moves
    split at moves
    · rename_i unstarted
      split at moves
      all_goals
        cases moves
        exact ⟨_, .goes unstarted rfl rfl trivial rfl rfl⟩
    · cases moves
  | observe task =>
    simp only [State.step] at moves
    split at moves
    · rename_i observing
      split at moves
      · rename_i observes
        cases moves
        exact ⟨_, .goes observing rfl (PieceScheduler.observeBitfield_sameStates observes).states_eq
          (observe_fits observes) rfl rfl⟩
      · rename_i observes
        cases moves
        exact ⟨_, .goes observing rfl (PieceScheduler.observeBitfield_sameStates observes).states_eq
          trivial rfl rfl⟩
      · cases moves
    · cases moves
  | claim task =>
    simp only [State.step] at moves
    split at moves
    · rename_i claiming
      cases moves
      simp only [Action.task, claiming] at fitting
      exact claim_counts claiming fitting
    · cases moves
  | load task readFault removes =>
    simp only [State.step] at moves
    split at moves
    · rename_i loading
      cases moves
      simp only [Action.task, loading] at fitting
      exact load_counts loading fitting
    · cases moves
  | receive task delivered =>
    simp only [State.step] at moves
    split at moves
    · rename_i downloading
      simp only [Action.task, downloading] at fitting
      split at moves
      all_goals
        cases moves
        exact ⟨_, .goes downloading rfl rfl fitting rfl rfl⟩
    · cases moves
  | write task fault left =>
    simp only [State.step] at moves
    split at moves
    · rename_i storing
      simp only [Action.task, storing] at fitting
      repeat' split at moves
      all_goals
        cases moves
        exact ⟨_, .goes storing rfl rfl fitting rfl rfl⟩
    · cases moves
  | rename task fault left =>
    simp only [State.step] at moves
    split at moves
    · rename_i committing
      simp only [Action.task, committing] at fitting
      split at moves
      all_goals
        cases moves
        exact ⟨_, .goes committing rfl rfl fitting rfl rfl⟩
    · cases moves
  | settle task =>
    simp only [State.step] at moves
    split at moves
    · rename_i settling
      cases moves
      simp only [Action.task, settling] at fitting
      exact settle_counts sound settling fitting
    · cases moves

end Counts

end Pieces

/-! ## The call -/

/-- What `download_from_peers` is called with; a task is named by the position of
its peer. -/
structure MultiPeerCall extends PeersCall where
  peers : Nat
  maxConcurrentPeers : Nat

/-- The peers of a batch: `peers.chunks(max_concurrent_peers)`. -/
def MultiPeerCall.chunk (call : MultiPeerCall) (batch : Nat) : List Nat :=
  (List.range call.peers).filter fun task =>
    task / call.maxConcurrentPeers = batch

/-- A call that waits for the tasks of a batch.  `forgotten` is not a value of the
program: it counts the pieces of the tasks that have failed. -/
structure Download where
  pieces : Pieces.State
  batch : Nat
  tasks : List Nat
  downloaded : Nat
  firstError : Option ProxyError
  returned : Option (Except ProxyError Nat)
  forgotten : Nat

namespace Download

/-- `download_from_peers` up to its first batch. -/
def start (call : MultiPeerCall) (store : TorrentPieceStore) : Except ProxyError Download := do
  if call.peers = 0 ∨ call.maxConcurrentPeers = 0 ∨ call.maxConcurrentPeers > 32 ∨
      call.maxPiecesPerPeer = 0 ∨ call.maxPiecesPerPeer > 10000 then
    throw (.request "invalid multi-peer download limits")
  let scheduler ← PieceScheduler.new call.metadata.pieceSha1.length 3
  pure {
    pieces := .start scheduler store
    batch := 0
    tasks := call.chunk 0
    downloaded := 0
    firstError := none
    returned := none
    forgotten := 0 }

/-- What happens next: a task of the batch goes on, a task that has ended is
joined, or all tasks of the batch have been joined. -/
inductive Action
  | go (action : Pieces.Action)
  | join (task : Nat)
  | next

/-- What the call returns. -/
def outcome (downloaded : Nat) (firstError : Option ProxyError) :
    Except ProxyError Nat :=
  if downloaded = 0 then
    match firstError with
    | some reason => .error reason
    | none => .ok downloaded
  else .ok downloaded

/-- The call returns, with what its tasks have reported. -/
def finish (download : Download) : Download :=
  { download with
    returned := some (outcome download.downloaded download.firstError) }

/-- One step of the call or of one of its tasks. -/
def step (call : MultiPeerCall) (action : Action) (download : Download) : Option Download :=
  match action with
  | .go action =>
    if action.task ∈ download.tasks then
      match download.pieces.step call.toPeersCall action with
      | some pieces =>
        some { download with
          pieces
          forgotten :=
            download.forgotten + Pieces.forgotten action download.pieces }
      | none => none
    else none
  | .join task =>
    if task ∈ download.tasks then
      match download.pieces.tasks task with
      | .ended (.ok count) =>
        some { download with
          tasks := download.tasks.erase task
          downloaded := saturatingAdd download.downloaded count }
      | .ended (.error reason) =>
        some { download with
          tasks := download.tasks.erase task
          firstError := download.firstError.or (some reason) }
      | _ => none
    else none
  | .next =>
    if download.returned = none ∧ download.tasks = [] then
      if download.pieces.scheduler.isComplete then some download.finish
      else if call.chunk (download.batch + 1) = [] then some download.finish
      else
        some { download with
          batch := download.batch + 1
          tasks := call.chunk (download.batch + 1) }
    else none

/-- The pieces that the tasks of the batch have completed. -/
def underway (download : Download) : Nat :=
  (download.tasks.map fun task =>
    (download.pieces.tasks task).completed).sum

/-- Pieces that are complete have been reported, are still to be reported or were
completed by a task that has failed. -/
structure Balanced (call : MultiPeerCall) (download : Download) : Prop where
  sound : Pieces.Sound call.toPeersCall download.pieces
  fits : ∀ task, (download.pieces.tasks task).Fits download.pieces.scheduler.states.length
  few : download.pieces.scheduler.states.length ≤ 1000000
  nodup : download.tasks.Nodup
  current : ∀ task ∈ download.tasks, task / call.maxConcurrentPeers = download.batch
  later : ∀ task, download.batch < task / call.maxConcurrentPeers →
    download.pieces.tasks task = .unstarted
  count : download.pieces.scheduler.completeCount =
    download.downloaded + download.underway + download.forgotten
  ended : ∀ result, download.returned = some result → download.tasks = [] ∧
    result = outcome download.downloaded download.firstError

section Balanced

variable {call : MultiPeerCall} {before after download : Download}
  {store : TorrentPieceStore}

theorem chunk_nodup (call : MultiPeerCall) (batch : Nat) : (call.chunk batch).Nodup :=
  List.nodup_range.filter _

theorem div_of_mem_chunk {task batch : Nat} (member : task ∈ call.chunk batch) :
    task / call.maxConcurrentPeers = batch :=
  of_decide_eq_true (List.mem_filter.mp member).2

/-- A task that goes on changes its own number only. -/
theorem underway_update {tasks : List Nat} {places : Nat → Pieces.Place} {task : Nat}
    (nodup : tasks.Nodup) (member : task ∈ tasks) (place : Pieces.Place) :
    (tasks.map fun other =>
        (Function.update places task place other).completed).sum +
        (places task).completed =
      (tasks.map fun other => (places other).completed).sum + place.completed := by
  have others : ((tasks.erase task).map fun other =>
      (Function.update places task place other).completed) =
      (tasks.erase task).map fun other => (places other).completed := by
    refine List.map_congr_left fun other listed => ?_
    rw [Function.update_of_ne (nodup.mem_erase_iff.mp listed).1]
  rw [← List.sum_map_erase _ member, ← List.sum_map_erase (fun other => (places other).completed)
    member, others, Function.update_self]
  omega

theorem underway_of_unstarted {tasks : List Nat} {places : Nat → Pieces.Place}
    (unstarted : ∀ task ∈ tasks, places task = .unstarted) :
    (tasks.map fun task => (places task).completed).sum = 0 := by
  refine List.sum_eq_zero fun value listed => ?_
  obtain ⟨task, member, rfl⟩ := List.mem_map.mp listed
  rw [unstarted task member]
  rfl

theorem Balanced.start (starts : start call store = .ok download) : Balanced call download := by
  unfold Download.start at starts
  split at starts
  · cases starts
  · obtain ⟨scheduler, made, starts⟩ := exists_of_except_ok starts
    cases starts
    have missing := (PieceScheduler.new_slots made).1
    have none_complete : scheduler.completeCount = 0 := by
      refine List.count_eq_zero.mpr fun listed => ?_
      obtain ⟨index, found⟩ := List.mem_iff_getElem?.mp listed
      rw [PieceScheduler.getElem?_states] at found
      cases missing index _ found
    have few : scheduler.states.length ≤ 1000000 := by
      unfold PieceScheduler.new at made
      split at made
      · cases made
      · cases made
        simp only [PieceScheduler.states, List.length_map, List.length_replicate]
        omega
    refine ⟨Pieces.start_sound made store, fun _ => trivial, few,
      chunk_nodup call 0, fun task => div_of_mem_chunk, fun _ _ => rfl, ?_, nofun⟩
    have none_begun : ((call.chunk 0).map fun task =>
        ((Pieces.State.start scheduler store).tasks task).completed).sum = 0 :=
      underway_of_unstarted fun _ _ => rfl
    change scheduler.completeCount = 0 + ((call.chunk 0).map fun task =>
      ((Pieces.State.start scheduler store).tasks task).completed).sum + 0
    rw [none_complete, none_begun]

theorem Balanced.go {action : Pieces.Action} {pieces : Pieces.State}
    (balanced : Balanced call before) (member : action.task ∈ before.tasks)
    (moves : before.pieces.step call.toPeersCall action = some pieces) :
    Balanced call { before with
      pieces
      forgotten := before.forgotten + Pieces.forgotten action before.pieces } := by
  obtain ⟨sound, fits, few, nodup, current, later, count, ended⟩ := balanced
  obtain ⟨place, tasks_eq, length_eq, placeFits, counts⟩ :=
    Pieces.step_counts sound fits moves
  refine ⟨Pieces.step_sound sound moves, fun task => ?_, ?_, nodup, current,
    fun task waits => ?_, ?_, ended⟩
  · change (pieces.tasks task).Fits pieces.scheduler.states.length
    rw [tasks_eq, length_eq]
    by_cases same : task = action.task
    · rw [same, Function.update_self]
      exact placeFits
    · rw [Function.update_of_ne same]
      exact fits task
  · change pieces.scheduler.states.length ≤ 1000000
    rw [length_eq]
    exact few
  · change pieces.tasks task = .unstarted
    rw [tasks_eq, Function.update_of_ne]
    · exact later task waits
    · rintro rfl
      rw [current _ member] at waits
      exact absurd waits (Nat.lt_irrefl _)
  · have moved :=
      @underway_update before.tasks before.pieces.tasks _ nodup member place
    change pieces.scheduler.completeCount = before.downloaded +
      (before.tasks.map fun task => (pieces.tasks task).completed).sum +
      (before.forgotten + Pieces.forgotten action before.pieces)
    rw [tasks_eq]
    unfold underway at count
    omega

/-- A task that is joined has reported all it has completed, or nothing. -/
theorem Balanced.join {task : Nat} {firstError : Option ProxyError}
    (balanced : Balanced call before) (member : task ∈ before.tasks) :
    Balanced call { before with
      tasks := before.tasks.erase task
      downloaded := saturatingAdd before.downloaded (before.pieces.tasks task).completed
      firstError } := by
  obtain ⟨sound, fits, few, nodup, current, later, count, ended⟩ := balanced
  refine ⟨sound, fits, few, nodup.erase task,
    fun other listed => current other (List.mem_of_mem_erase listed), later, ?_,
    fun result returned => ?_⟩
  · have split := List.sum_map_erase (fun other => (before.pieces.tasks other).completed) member
    have bounded : before.pieces.scheduler.completeCount ≤ 1000000 :=
      List.count_le_length.trans few
    unfold underway at count
    have unsaturated : before.downloaded + (before.pieces.tasks task).completed ≤ u64Max := by
      unfold u64Max
      omega
    change before.pieces.scheduler.completeCount = saturatingAdd _ _ +
      ((before.tasks.erase task).map fun other =>
        (before.pieces.tasks other).completed).sum + before.forgotten
    rw [saturatingAdd_of_le unsaturated]
    omega
  · rw [(ended result returned).1] at member
    cases member

theorem Balanced.finish (balanced : Balanced call before) (joined : before.tasks = []) :
    Balanced call before.finish := by
  obtain ⟨sound, fits, few, nodup, current, later, count, _⟩ := balanced
  refine ⟨sound, fits, few, nodup, current, later, count, fun result returned => ?_⟩
  cases returned
  exact ⟨joined, rfl⟩

/-- No task of the next batch has begun. -/
theorem Balanced.next (balanced : Balanced call before) (running : before.returned = none)
    (joined : before.tasks = []) :
    Balanced call { before with
      batch := before.batch + 1
      tasks := call.chunk (before.batch + 1) } := by
  obtain ⟨sound, fits, few, nodup, current, later, count, _⟩ := balanced
  refine ⟨sound, fits, few, chunk_nodup call _, fun task => div_of_mem_chunk,
    fun task waits => later task (Nat.lt_of_succ_lt waits), ?_,
    fun result returned => ?_⟩
  · have none_begun : ((call.chunk (before.batch + 1)).map fun task =>
        (before.pieces.tasks task).completed).sum = 0 := by
      refine underway_of_unstarted fun task member => later task ?_
      rw [div_of_mem_chunk member]
      exact Nat.lt_succ_self _
    change before.pieces.scheduler.completeCount = before.downloaded +
      ((call.chunk (before.batch + 1)).map fun task =>
        (before.pieces.tasks task).completed).sum + before.forgotten
    rw [none_begun, count, underway, joined]
    rfl
  · rw [running] at returned
    cases returned

theorem step_balanced {action : Action} (balanced : Balanced call before)
    (moves : step call action before = some after) :
    Balanced call after := by
  cases action with
  | go action =>
    simp only [step] at moves
    split at moves
    · rename_i member
      split at moves
      · rename_i pieces steps
        cases moves
        exact balanced.go member steps
      · cases moves
    · cases moves
  | join task =>
    simp only [step] at moves
    split at moves
    · rename_i member
      split at moves
      · rename_i count place_eq
        cases moves
        have joined := @Balanced.join _ _ _ before.firstError balanced member
        rw [place_eq] at joined
        exact joined
      · rename_i reason place_eq
        cases moves
        have joined := @Balanced.join _ _ _ (before.firstError.or (some reason)) balanced member
        rw [place_eq] at joined
        have bounded : before.downloaded ≤ u64Max := by
          have total := balanced.count
          have few := balanced.few
          have below : before.pieces.scheduler.completeCount ≤
              before.pieces.scheduler.states.length := List.count_le_length
          unfold u64Max
          omega
        have unchanged : saturatingAdd before.downloaded
            (Pieces.Place.ended (.error reason)).completed = before.downloaded :=
          saturatingAdd_of_le bounded
        rw [unchanged] at joined
        exact joined
      · cases moves
    · cases moves
  | next =>
    simp only [step] at moves
    split at moves
    · rename_i idle
      split at moves
      · cases moves
        exact balanced.finish idle.2
      · split at moves
        · cases moves
          exact balanced.finish idle.2
        · cases moves
          exact balanced.next idle.1 idle.2
    · cases moves

/-- The pieces that the step makes the call forget. -/
def cost : Action → Download → Nat
  | .go action, download => Pieces.forgotten action download.pieces
  | _, _ => 0

theorem step_forgotten {action : Action} (moves : step call action before = some after) :
    after.forgotten = before.forgotten + cost action before := by
  unfold step at moves
  repeat' split at moves
  all_goals
    cases moves
  all_goals rfl

end Balanced

/-- The call returns the number of complete pieces, or an error if there are
none. -/
def Faithful (download : Download) : Except ProxyError Nat → Prop
  | .ok count => count = download.pieces.scheduler.completeCount
  | .error _ => download.pieces.scheduler.completeCount = 0

/-- The task does not fail after it has completed a piece. -/
def Spares (action : Action) (download : Download) : Prop :=
  cost action download = 0

theorem start_forgotten {call : MultiPeerCall} {store : TorrentPieceStore} {download : Download}
    (starts : start call store = .ok download) :
    download.forgotten = 0 := by
  unfold start at starts
  split at starts
  · cases starts
  · obtain ⟨scheduler, _, starts⟩ := exists_of_except_ok starts
    cases starts
    rfl

/-- A call returns the number of complete pieces, and an error only if there are
none, exactly if no task fails that has completed a piece before. -/
theorem downloaded_faithful_iff {call : MultiPeerCall} {store : TorrentPieceStore}
    {first last : Download} {actions : List Action} {result : Except ProxyError Nat}
    (starts : start call store = .ok first)
    (runs : runActions (step call) actions first = some last)
    (returns : last.returned = some result) :
    Faithful last result ↔ AdmitsAll (step call) Spares actions first := by
  have balanced : Balanced call last := by
    have reached : Reaches (step call) (fun _ _ => True) first last :=
      Reaches.refl.runActions (admitsAll_true _ _) runs
    exact reached.invariant (Balanced call) (.start starts)
      fun _ _ _ balanced _ moves => step_balanced balanced moves
  have spares := (admitsAll_iff_of_cost (fun _ _ _ moves => step_forgotten moves) runs).2
  rw [start_forgotten starts] at spares
  refine Iff.trans ?_ spares.symm
  obtain ⟨joined, result_eq⟩ := balanced.ended result returns
  have count := balanced.count
  rw [underway, joined, List.map_nil, List.sum_nil] at count
  rw [result_eq]
  unfold outcome
  repeat' split
  all_goals
    unfold Faithful
    omega

/-- A torrent of two pieces and two peers, one after the other. -/
def twoPieces : MultiPeerCall where
  metadata :=
    { infoHash := [], name := [], totalLength := 2, pieceLength := 1
      pieceSha1 := [[7], [8]], files := [] }
  maxPiecesPerPeer := 2
  sha1 bytes := bytes
  peers := 2
  maxConcurrentPeers := 1

/-- A peer delivers a piece. -/
def delivers (task : Nat) (byte : UInt8) : List Action :=
  [.go (.claim task), .go (.load task none true), .go (.receive task (.ok [byte])),
    .go (.write task none none), .go (.rename task none none), .go (.settle task)]

/-- The first peer delivers a piece and not the other one. -/
def halfDone : List Action :=
  [.go (.connect 0 (.ok [0xC0])), .go (.observe 0)] ++ delivers 0 7 ++
    [.go (.claim 0), .go (.load 0 none true), .go (.receive 0 (.error (.network "timed out"))),
      .go (.settle 0), .join 0, .next]

/-- The second peer does not answer. -/
def noAnswer : List Action :=
  [.go (.connect 1 (.error (.network "timed out"))), .join 1, .next]

/-- The second peer delivers the other piece. -/
def rescue : List Action :=
  [.go (.connect 1 (.ok [0xC0])), .go (.observe 1)] ++ delivers 1 8 ++
    [.go (.claim 1), .join 1, .next]

/-- A peer that fails with its second piece makes the call return an error or a
number that is too small. -/
theorem completed_piece_forgotten :
    ∃ first failed short, start twoPieces ⟨fun _ => none, fun _ => none⟩ = .ok first ∧
      runActions (step twoPieces) (halfDone ++ noAnswer) first = some failed ∧
      failed.returned = some (.error (.network "timed out")) ∧
      failed.pieces.scheduler.completeCount = 1 ∧
      runActions (step twoPieces) (halfDone ++ rescue) first = some short ∧
      short.returned = some (.ok 1) ∧
      short.pieces.scheduler.completeCount = 2 :=
  ⟨_, _, _, rfl, rfl, rfl, rfl, rfl, rfl, rfl⟩

/-- The first peer delivers both pieces. -/
def bothDelivered : List Action :=
  [.go (.connect 0 (.ok [0xC0])), .go (.observe 0)] ++ delivers 0 7 ++
    delivers 0 8 ++ [.go (.claim 0), .join 0, .next]

theorem downloaded_faithful_iff_both :
    ∃ first last, start twoPieces ⟨fun _ => none, fun _ => none⟩ = .ok first ∧
      runActions (step twoPieces) bothDelivered first = some last ∧
      last.returned = some (.ok 2) ∧
      Faithful last (.ok 2) ∧
      AdmitsAll (step twoPieces) Spares bothDelivered first := by
  refine ⟨_, _, rfl, rfl, rfl, rfl, ?_⟩
  refine (downloaded_faithful_iff rfl rfl rfl).mp ?_
  exact (rfl : 2 = 2)

end Download
end P2pNetwork
end VideoProxy
