import VideoProxy.Lib.Transition

/-!
# Two parties and their messages

A client and a peer exchange messages over two queues.  The client does one thing
at a time: it sends, waits for a message, or has ended.  The peer takes messages
whenever they come, and has a choice of what to send.
-/

namespace VideoProxy

/-- What the parties of a dialogue do. -/
structure Dialogue (σ π κ μ : Type) where
  clientSends : σ → Option (μ × σ)
  clientReceives : σ → Option (μ → σ)
  peerSends : π → κ → Option (μ × π)
  peerReceives : π → μ → π

namespace Dialogue

/-- The parties, and the messages that are on their way. -/
structure World (σ π μ : Type) where
  client : σ
  peer : π
  toPeer : List μ
  toClient : List μ

/-- The moves of the parties. -/
inductive Move (κ : Type)
  | clientSends
  | clientReceives
  | peerSends (choice : κ)
  | peerReceives

variable {σ π κ μ : Type} (dialogue : Dialogue σ π κ μ)

/-- One move. -/
def step : Move κ → World σ π μ → Option (World σ π μ)
  | .clientSends, world =>
    (dialogue.clientSends world.client).map fun sent =>
      { world with client := sent.2, toPeer := world.toPeer ++ [sent.1] }
  | .clientReceives, world =>
    (dialogue.clientReceives world.client).bind fun handle =>
      match world.toClient with
      | [] => none
      | message :: rest =>
        some { world with client := handle message, toClient := rest }
  | .peerSends choice, world =>
    (dialogue.peerSends world.peer choice).map fun sent =>
      { world with peer := sent.2, toClient := world.toClient ++ [sent.1] }
  | .peerReceives, world =>
    match world.toPeer with
    | [] => none
    | message :: rest =>
      some { world with
        peer := dialogue.peerReceives world.peer message, toPeer := rest }

/-- The worlds that moves lead to. -/
def Reached (start world : World σ π μ) : Prop :=
  Reaches dialogue.step (fun _ _ => True) start world

variable {dialogue}

variable {after world : World σ π μ}

theorem step_clientReceives (moves : dialogue.step .clientReceives world = some after) :
    ∃ handle message rest, dialogue.clientReceives world.client = some handle ∧
      world.toClient = message :: rest ∧
      after = { world with client := handle message, toClient := rest } := by
  obtain ⟨handle, waits, moves⟩ := Option.bind_eq_some_iff.mp moves
  split at moves
  · cases moves
  · rename_i message rest queue
    cases moves
    exact ⟨handle, message, rest, waits, queue, rfl⟩

theorem step_peerReceives (moves : dialogue.step .peerReceives world = some after) :
    ∃ message rest, world.toPeer = message :: rest ∧ after = { world with
        peer := dialogue.peerReceives world.peer message, toPeer := rest } := by
  cases queue : world.toPeer with
  | nil =>
    simp only [step, queue] at moves
    cases moves
  | cons message rest =>
    simp only [step, queue] at moves
    cases moves
    exact ⟨message, rest, rfl, rfl⟩

variable (dialogue) in
/-- Each of the four moves leads from a world to worlds that are related to it. -/
structure Relates (related : World σ π μ → World σ π μ → Prop) (world : World σ π μ) : Prop where
  clientSends : ∀ message client, dialogue.clientSends world.client = some (message, client) →
    related world { world with client, toPeer := world.toPeer ++ [message] }
  clientReceives : ∀ handle message rest, dialogue.clientReceives world.client = some handle →
    world.toClient = message :: rest →
    related world { world with client := handle message, toClient := rest }
  peerSends : ∀ choice message peer, dialogue.peerSends world.peer choice = some (message, peer) →
    related world { world with peer, toClient := world.toClient ++ [message] }
  peerReceives : ∀ message rest, world.toPeer = message :: rest → related world { world with
      peer := dialogue.peerReceives world.peer message, toPeer := rest }

/-- What relates every move to its outcome relates a step. -/
theorem Relates.of_step {related : World σ π μ → World σ π μ → Prop} {move : Move κ}
    (relates : dialogue.Relates related world) (moves : dialogue.step move world = some after) :
    related world after := by
  cases move with
  | clientSends =>
    obtain ⟨sent, sends, rfl⟩ := Option.map_eq_some_iff.mp moves
    exact relates.clientSends sent.1 sent.2 sends
  | clientReceives =>
    obtain ⟨handle, message, rest, waits, queue, rfl⟩ :=
      step_clientReceives moves
    exact relates.clientReceives handle message rest waits queue
  | peerSends choice =>
    obtain ⟨sent, sends, rfl⟩ := Option.map_eq_some_iff.mp moves
    exact relates.peerSends choice sent.1 sent.2 sends
  | peerReceives =>
    obtain ⟨message, rest, queue, rfl⟩ := step_peerReceives moves
    exact relates.peerReceives message rest queue

/-- What holds at the start and after each step holds in every state reached. -/
theorem Reached.invariant {start : World σ π μ} (reached : dialogue.Reached start world)
    (property : World σ π μ → Prop) (starts : property start)
    (keeps : ∀ world, property world → dialogue.Relates (fun _ after => property after) world) :
    property world :=
  Reaches.invariant reached property starts fun _ before _ holds _ moves =>
    (keeps before holds).of_step moves

/-! ## One message among others -/

/-- A queue that has a message once, among messages of no interest. -/
def Carries (idle : μ → Prop) (message : μ) (queue : List μ) : Prop :=
  ∃ front back, queue = front ++ message :: back ∧
    (∀ other ∈ front, idle other) ∧ ∀ other ∈ back, idle other

variable {idle : μ → Prop} {message other : μ} {queue rest : List μ}

theorem forall_mem_send (others : ∀ other ∈ queue, idle other) (new : idle message) :
    ∀ other ∈ queue ++ [message], idle other :=
  List.forall_mem_append.mpr ⟨others, List.forall_mem_singleton.mpr new⟩

theorem carries_send (others : ∀ other ∈ queue, idle other) :
    Carries idle message (queue ++ [message]) :=
  ⟨queue, [], rfl, others, List.forall_mem_nil _⟩

theorem Carries.send (carries : Carries idle message queue) (new : idle other) :
    Carries idle message (queue ++ [other]) := by
  obtain ⟨front, back, rfl, before, behind⟩ := carries
  exact ⟨front, back ++ [other], by simp, before, forall_mem_send behind new⟩

theorem Carries.receive (carries : Carries idle message (other :: rest)) :
    (idle other ∧ Carries idle message rest) ∨ (other = message ∧ ∀ later ∈ rest, idle later) := by
  obtain ⟨front, back, queue, before, behind⟩ := carries
  cases front with
  | nil =>
    cases queue
    exact .inr ⟨rfl, behind⟩
  | cons first front =>
    cases queue
    obtain ⟨first, later⟩ := List.forall_mem_cons.mp before
    exact .inl ⟨first, front, back, rfl, later, behind⟩

theorem Carries.ne_nil (carries : Carries idle message queue) : queue ≠ [] := by
  obtain ⟨front, back, rfl, _⟩ := carries
  simp

end Dialogue
end VideoProxy
