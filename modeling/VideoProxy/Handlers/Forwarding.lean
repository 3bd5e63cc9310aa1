import VideoProxy.Handlers.Tee
import VideoProxy.Lib.Transition
import VideoProxy.Storage.Records

/-!
# Forwarding with two receivers

`forward_upstream` reads the body of a response and sends each item to the client
and to the cache.  The receivers take items or go away whenever they like.  The
client is waited for; the cache is waited for only for a while, and gets nothing
more after that.
-/

namespace VideoProxy

/-- An item of a stream. -/
abbrev Item := Except ProxyError Bytes

/-- `FORWARD_CHANNEL_CAPACITY`. -/
def forwardChannelCapacity : Nat := 32

/-- A bounded channel: the items that wait in it, whether its receiver is gone,
and the items that were ever sent. -/
structure Channel where
  queue : List Item
  closed : Bool
  sent : List Item

namespace Channel

/-- `mpsc::channel`. -/
def new : Channel :=
  { queue := [], closed := false, sent := [] }

/-- An item is sent. -/
def push (channel : Channel) (item : Item) : Channel :=
  { channel with
    queue := channel.queue ++ [item]
    sent := channel.sent ++ [item] }

/-- There is room for an item. -/
def HasRoom (channel : Channel) : Prop :=
  channel.queue.length < forwardChannelCapacity

instance (channel : Channel) : Decidable channel.HasRoom :=
  inferInstanceAs (Decidable (_ < _))

/-- The receiver takes an item. -/
def receive (channel : Channel) : Option Channel :=
  match channel.closed, channel.queue with
  | false, _ :: queue => some { channel with queue }
  | _, _ => none

/-- The receiver goes away. -/
def close (channel : Channel) : Channel :=
  { channel with closed := true }

end Channel

/-- Where `forward_upstream` is. -/
inductive ForwardStage
  | reading
  | toClient (item : Item)
  | toCache (item : Item)
  | waiting (item : Item)
  | ended

/-- The state of `forward_upstream` and of its channels. -/
structure Forwarding where
  upstream : List Item
  stage : ForwardStage
  clientOpen : Bool
  cacheOpen : Bool
  client : Channel
  cache : Channel

/-- What happens next. -/
inductive ForwardAction
  | next
  | sendClient
  | trySendCache
  | sendCache
  | timeOut
  | clientReceives
  | clientCloses
  | cacheReceives
  | cacheCloses
  deriving DecidableEq

namespace Forwarding

/-- The start of `forward_upstream`. -/
def start (upstream : List Item) : Forwarding where
  upstream
  stage := .reading
  clientOpen := true
  cacheOpen := true
  client := .new
  cache := .new

/-- The end of a pass of the loop: an error ends it, and so do two closed
channels. -/
def finishItem (state : Forwarding) : Item → Forwarding
  | .ok _ =>
    if !state.clientOpen && !state.cacheOpen then
      { state with stage := .ended }
    else { state with stage := .reading }
  | .error _ => { state with stage := .ended }

/-- The item goes to the cache, if the cache is still open. -/
def offerCache (state : Forwarding) (item : Item) : Forwarding :=
  if state.cacheOpen then { state with stage := .toCache item }
  else state.finishItem item

/-- The client did not take the item; for an error this is ignored. -/
def clientRefused (state : Forwarding) : Item → Forwarding
  | .ok _ => { state with clientOpen := false }
  | .error _ => state

/-- The cache did not take the item; for an error this is ignored. -/
def cacheRefused (state : Forwarding) : Item → Forwarding
  | .ok _ => { state with cacheOpen := false }
  | .error _ => state

/-- One step of `forward_upstream`, of `send_to_cache` or of a receiver. -/
def step : ForwardAction → Forwarding → Option Forwarding
  | .next, state =>
    match state.stage with
    | .reading =>
      match state.upstream with
      | [] => some { state with stage := .ended }
      | item :: upstream =>
        if state.clientOpen then
          some { state with upstream, stage := .toClient item }
        else some ({ state with upstream }.offerCache item)
    | _ => none
  | .sendClient, state =>
    match state.stage with
    | .toClient item =>
      if state.client.closed then
        some ((state.clientRefused item).offerCache item)
      else if state.client.HasRoom then
        some ({ state with client := state.client.push item }.offerCache item)
      else none
    | _ => none
  | .trySendCache, state =>
    match state.stage with
    | .toCache item =>
      if state.cache.closed then
        some ((state.cacheRefused item).finishItem item)
      else if state.cache.HasRoom then
        some ({ state with cache := state.cache.push item }.finishItem item)
      else some { state with stage := .waiting item }
    | _ => none
  | .sendCache, state =>
    match state.stage with
    | .waiting item =>
      if state.cache.closed then
        some ((state.cacheRefused item).finishItem item)
      else if state.cache.HasRoom then
        some ({ state with cache := state.cache.push item }.finishItem item)
      else none
    | _ => none
  | .timeOut, state =>
    match state.stage with
    | .waiting item => some ((state.cacheRefused item).finishItem item)
    | _ => none
  | .clientReceives, state =>
    state.client.receive.map fun client => { state with client }
  | .clientCloses, state => some { state with client := state.client.close }
  | .cacheReceives, state =>
    state.cache.receive.map fun cache => { state with cache }
  | .cacheCloses, state => some { state with cache := state.cache.close }

/-! ## Every run -/

/-- An error is the last item. -/
def ErrorLast (items : List Item) : Prop :=
  ∀ done reason rest, items = done ++ .error reason :: rest → rest = []

/-- The client has got every item so far, or is gone. -/
structure ClientFed (isOpen : Bool) (channel : Channel) (done : List Item) : Prop where
  sent : channel.sent <+: done
  current : isOpen = true → channel.sent = done
  gone : isOpen = false → channel.closed = true

/-- The client has got every item so far with the one that is handled, or is gone.
That an error could not be sent is not remembered. -/
def ClientServed (isOpen : Bool) (channel : Channel) (done : List Item) (item : Item) : Prop :=
  ClientFed isOpen channel (done ++ [item]) ∨
    (∃ reason, item = .error reason) ∧ channel.closed = true ∧ channel.sent <+: done ++ [item]

/-- The cache has got every item so far, or the first ones of them. -/
structure CacheFed (isOpen : Bool) (channel : Channel) (done : List Item) : Prop where
  sent : channel.sent <+: done
  current : isOpen = true → channel.sent = done

/-- How far the items have come. -/
inductive Progress (items : List Item) : Forwarding → Prop
  | reading {done upstream clientOpen cacheOpen client cache}
      (split : items = done ++ upstream)
      (clientFed : ClientFed clientOpen client done)
      (cacheFed : CacheFed cacheOpen cache done) :
      Progress items ⟨upstream, .reading, clientOpen, cacheOpen, client, cache⟩
  | toClient {done upstream cacheOpen client cache item}
      (split : items = done ++ item :: upstream)
      (current : client.sent = done)
      (cacheFed : CacheFed cacheOpen cache done) :
      Progress items ⟨upstream, .toClient item, true, cacheOpen, client, cache⟩
  | toCache {done upstream clientOpen client cache item}
      (split : items = done ++ item :: upstream)
      (served : ClientServed clientOpen client done item)
      (current : cache.sent = done) :
      Progress items ⟨upstream, .toCache item, clientOpen, true, client, cache⟩
  | waiting {done upstream clientOpen client cache item}
      (split : items = done ++ item :: upstream)
      (served : ClientServed clientOpen client done item)
      (current : cache.sent = done) :
      Progress items ⟨upstream, .waiting item, clientOpen, true, client, cache⟩
  | ended {upstream clientOpen cacheOpen client cache}
      (clientSent : client.sent <+: items)
      (complete : client.sent = items ∨ client.closed = true)
      (cacheSent : cache.sent <+: items) :
      Progress items ⟨upstream, .ended, clientOpen, cacheOpen, client, cache⟩

section Steps

variable {items done upstream : List Item} {item : Item}
  {clientOpen cacheOpen : Bool} {client cache : Channel} {stage : ForwardStage}

section Items

variable (errorLast : ErrorLast items) (split : items = done ++ item :: upstream)
include errorLast split

/-- After an item the loop goes on, unless there is nothing more to do. -/
theorem progress_finishItem
    (served : ClientServed clientOpen client done item) (cacheSent : cache.sent <+: done ++ [item])
    (cacheCurrent : ∀ chunk, item = .ok chunk → cacheOpen = true → cache.sent = done ++ [item]) :
    Progress items (finishItem ⟨upstream, stage, clientOpen, cacheOpen, client, cache⟩ item) := by
  have handled : done ++ [item] <+: items := by
    rw [split]
    exact ⟨upstream, by simp⟩
  cases item with
  | error reason =>
    have last := errorLast done reason upstream split
    have whole : items = done ++ [.error reason] := by rw [split, last]
    have cacheSent : cache.sent <+: items := cacheSent.trans handled
    rcases served with fed | ⟨_, gone, sent⟩
    · refine .ended (fed.sent.trans handled) ?_ cacheSent
      cases clientOpen with
      | true =>
        rw [whole]
        exact .inl (fed.current rfl)
      | false => exact .inr (fed.gone rfl)
    · exact .ended (sent.trans handled) (.inr gone) cacheSent
  | ok chunk =>
    have fed : ClientFed clientOpen client (done ++ [.ok chunk]) := by
      rcases served with fed | ⟨⟨_, absurdly⟩, _⟩
      · exact fed
      · cases absurdly
    unfold finishItem
    simp only
    split
    · rename_i bothClosed
      have clientGone : clientOpen = false := by
        cases clientOpen with
        | true => cases bothClosed
        | false => rfl
      exact .ended (fed.sent.trans handled) (.inr (fed.gone clientGone)) (cacheSent.trans handled)
    · refine .reading ?_ fed ⟨cacheSent, cacheCurrent chunk rfl⟩
      rw [split]
      simp

theorem progress_offerCache
    (served : ClientServed clientOpen client done item) (cacheFed : CacheFed cacheOpen cache done) :
    Progress items (offerCache ⟨upstream, stage, clientOpen, cacheOpen, client, cache⟩ item) := by
  unfold offerCache
  cases cacheOpen with
  | true => exact .toCache split served (cacheFed.current rfl)
  | false =>
    exact progress_finishItem errorLast split served
      (cacheFed.sent.trans (List.prefix_append _ _)) nofun

theorem progress_clientRefused (current : client.sent = done) (gone : client.closed = true)
    (cacheFed : CacheFed cacheOpen cache done) :
    Progress items ((clientRefused ⟨upstream, stage, true, cacheOpen, client, cache⟩
        item).offerCache item) := by
  have sent : client.sent <+: done ++ [item] := by
    rw [current]
    exact List.prefix_append _ _
  cases item with
  | ok chunk =>
    exact progress_offerCache errorLast split (.inl ⟨sent, nofun, fun _ => gone⟩) cacheFed
  | error reason =>
    exact progress_offerCache errorLast split (.inr ⟨⟨reason, rfl⟩, gone, sent⟩) cacheFed

theorem progress_cacheRefused (served : ClientServed clientOpen client done item)
    (current : cache.sent = done) :
    Progress items ((cacheRefused ⟨upstream, stage, clientOpen, true, client, cache⟩
        item).finishItem item) := by
  have sent : cache.sent <+: done ++ [item] := by
    rw [current]
    exact List.prefix_append _ _
  cases item with
  | ok chunk => exact progress_finishItem errorLast split served sent nofun
  | error reason => exact progress_finishItem errorLast split served sent nofun

theorem progress_cacheTaken (served : ClientServed clientOpen client done item)
    (current : cache.sent = done) :
    Progress items (finishItem ⟨upstream, stage, clientOpen, true, client, cache.push item⟩
        item) := by
  have taken : (cache.push item).sent = done ++ [item] := by
    rw [← current]
    rfl
  refine progress_finishItem errorLast split served ?_ fun _ _ _ => taken
  exact taken ▸ List.prefix_refl (done ++ [item])

end Items

/-- What the receivers do does not change what was sent, and who is gone stays
gone. -/
theorem Progress.receivers {state : Forwarding} (progress : Progress items state)
    {client cache : Channel} (clientSent : client.sent = state.client.sent)
    (clientGone : state.client.closed = true → client.closed = true)
    (cacheSent : cache.sent = state.cache.sent) :
    Progress items { state with client, cache } := by
  have served {isOpen : Bool} {done : List Item} {item : Item}
      (served : ClientServed isOpen state.client done item) :
      ClientServed isOpen client done item := by
    unfold ClientServed at served ⊢
    rw [clientSent]
    refine served.imp (fun fed => ⟨?_, ?_, fun closed => clientGone (fed.gone
      closed)⟩) fun refused => ⟨refused.1, clientGone refused.2.1, refused.2.2⟩
    · rw [clientSent]
      exact fed.sent
    · rw [clientSent]
      exact fed.current
  cases progress with
  | reading split clientFed cacheFed =>
    refine .reading split ⟨?_, ?_, fun closed => clientGone (clientFed.gone closed)⟩ ⟨?_, ?_⟩
    · rw [clientSent]
      exact clientFed.sent
    · rw [clientSent]
      exact clientFed.current
    · rw [cacheSent]
      exact cacheFed.sent
    · rw [cacheSent]
      exact cacheFed.current
  | toClient split current cacheFed =>
    refine .toClient split (clientSent.trans current) ⟨?_, ?_⟩
    · rw [cacheSent]
      exact cacheFed.sent
    · rw [cacheSent]
      exact cacheFed.current
  | toCache split toClient current =>
    exact .toCache split (served toClient) (cacheSent.trans current)
  | waiting split toClient current =>
    exact .waiting split (served toClient) (cacheSent.trans current)
  | ended sent complete toCache =>
    refine .ended ?_ ?_ ?_
    · rw [clientSent]
      exact sent
    · rw [clientSent]
      exact complete.imp_right clientGone
    · rw [cacheSent]
      exact toCache

theorem receive_sent {channel after : Channel} (received : channel.receive = some after) :
    after.sent = channel.sent ∧ after.closed = channel.closed := by
  unfold Channel.receive at received
  split at received
  · cases received
    exact ⟨rfl, rfl⟩
  · cases received

/-- Every step keeps the items in order. -/
theorem progress_step (errorLast : ErrorLast items) {action : ForwardAction}
    {state after : Forwarding} (progress : Progress items state)
    (moves : step action state = some after) :
    Progress items after := by
  cases action with
  | next =>
    cases progress with
    | @reading done upstream clientOpen _ client _ split clientFed cacheFed =>
      cases upstream with
      | nil =>
        cases moves
        rw [List.append_nil] at split
        rw [← split] at clientFed cacheFed
        refine .ended clientFed.sent ?_ cacheFed.sent
        cases clientOpen with
        | true => exact .inl (clientFed.current rfl)
        | false => exact .inr (clientFed.gone rfl)
      | cons item upstream =>
        cases clientOpen with
        | true =>
          cases moves
          exact .toClient split (clientFed.current rfl) cacheFed
        | false =>
          cases moves
          refine progress_offerCache errorLast split (.inl ⟨?_, nofun, clientFed.gone⟩) cacheFed
          exact clientFed.sent.trans (List.prefix_append _ _)
    | _ => cases moves
  | sendClient =>
    cases progress with
    | @toClient done _ _ client _ item split current cacheFed =>
      simp only [step] at moves
      split at moves
      · rename_i gone
        cases moves
        exact progress_clientRefused errorLast split current gone cacheFed
      · split at moves
        · cases moves
          have taken : (client.push item).sent = done ++ [item] := by
            rw [← current]
            rfl
          refine progress_offerCache errorLast split (.inl ⟨?_, fun _ => taken, nofun⟩) cacheFed
          exact taken ▸ List.prefix_refl (done ++ [item])
        · cases moves
    | _ => cases moves
  | trySendCache =>
    cases progress with
    | toCache split served current =>
      simp only [step] at moves
      split at moves
      · cases moves
        exact progress_cacheRefused errorLast split served current
      · split at moves
        · cases moves
          exact progress_cacheTaken errorLast split served current
        · cases moves
          exact .waiting split served current
    | _ => cases moves
  | sendCache =>
    cases progress with
    | waiting split served current =>
      simp only [step] at moves
      split at moves
      · cases moves
        exact progress_cacheRefused errorLast split served current
      · split at moves
        · cases moves
          exact progress_cacheTaken errorLast split served current
        · cases moves
    | _ => cases moves
  | timeOut =>
    cases progress with
    | waiting split served current =>
      cases moves
      exact progress_cacheRefused errorLast split served current
    | _ => cases moves
  | clientReceives =>
    obtain ⟨client, received, rfl⟩ := Option.map_eq_some_iff.mp moves
    obtain ⟨sent, closed⟩ := receive_sent received
    exact progress.receivers sent (fun gone => closed.trans gone) rfl
  | clientCloses =>
    cases moves
    exact progress.receivers rfl (fun _ => rfl) rfl
  | cacheReceives =>
    obtain ⟨cache, received, rfl⟩ := Option.map_eq_some_iff.mp moves
    exact progress.receivers rfl id (receive_sent received).1
  | cacheCloses =>
    cases moves
    exact progress.receivers rfl id rfl

end Steps

/-- What has been sent at any time. -/
theorem Progress.sent {items : List Item} {state : Forwarding} (progress : Progress items state) :
    state.client.sent <+: items ∧ (state.stage = .ended →
        state.client.sent = items ∨ state.client.closed = true) ∧
      state.cache.sent <+: items := by
  have before {done rest : List Item} (split : items = done ++ rest) :
      done <+: items := ⟨rest, split.symm⟩
  have handled {done upstream : List Item} {item : Item}
      (split : items = done ++ item :: upstream) : done ++ [item] <+: items :=
    ⟨upstream, by rw [split]; simp⟩
  have served {isOpen : Bool} {channel : Channel} {done : List Item}
      {item : Item} (served : ClientServed isOpen channel done item) :
      channel.sent <+: done ++ [item] :=
    served.elim (fun fed => fed.sent) fun refused => refused.2.2
  cases progress with
  | reading split clientFed cacheFed =>
    exact ⟨clientFed.sent.trans (before split), nofun, cacheFed.sent.trans (before split)⟩
  | toClient split current cacheFed =>
    refine ⟨?_, nofun, cacheFed.sent.trans (before split)⟩
    rw [current]
    exact before split
  | toCache split toClient current =>
    refine ⟨(served toClient).trans (handled split), nofun, ?_⟩
    rw [current]
    exact before split
  | waiting split toClient current =>
    refine ⟨(served toClient).trans (handled split), nofun, ?_⟩
    rw [current]
    exact before split
  | ended clientSent complete cacheSent =>
    exact ⟨clientSent, fun _ => complete, cacheSent⟩

/-- The client has not taken the items that wait for it. -/
def AwaitsClient (state : Forwarding) : Prop :=
  (∃ item, state.stage = .toClient item) ∧ state.client.closed = false ∧ ¬state.client.HasRoom

/-- The client is the only one that forwarding waits for. -/
theorem moves_unless_awaitsClient (state : Forwarding) :
    state.stage = .ended ∨ state.AwaitsClient ∨
      ∃ action ∈ [.next, .sendClient, .trySendCache, .timeOut], (step action state).isSome := by
  cases stage_eq : state.stage with
  | reading =>
    refine .inr (.inr ⟨.next, by simp, ?_⟩)
    simp only [step, stage_eq]
    split
    · rfl
    · split <;> rfl
  | toClient item =>
    by_cases blocked : state.client.closed = false ∧ ¬state.client.HasRoom
    · exact .inr (.inl ⟨⟨item, stage_eq⟩, blocked⟩)
    · refine .inr (.inr ⟨.sendClient, by simp, ?_⟩)
      simp only [step, stage_eq]
      split
      · rfl
      · rename_i present
        rw [if_pos]
        · rfl
        · by_contra full
          exact blocked ⟨Bool.not_eq_true _ ▸ present, full⟩
  | toCache item =>
    refine .inr (.inr ⟨.trySendCache, by simp, ?_⟩)
    simp only [step, stage_eq]
    split
    · rfl
    · split <;> rfl
  | waiting item =>
    refine .inr (.inr ⟨.timeOut, by simp, ?_⟩)
    simp only [step, stage_eq]
    rfl
  | ended => exact .inl rfl

/-! ## The client and the cache -/

/-- A body: chunks, and perhaps an error at the end. -/
def body (chunks : List Bytes) (ending : Option ProxyError) : List Item :=
  chunks.map .ok ++ (ending.map .error).toList

theorem body_errorLast (chunks : List Bytes) (ending : Option ProxyError) :
    ErrorLast (body chunks ending) := by
  induction chunks with
  | nil =>
    intro done reason rest split
    cases ending with
    | none => simp [body] at split
    | some last =>
      have length_eq := congrArg List.length split
      simp only [body, List.map_nil, List.nil_append, Option.map_some, Option.toList_some,
        List.length_append, List.length_cons, List.length_nil] at length_eq
      exact List.length_eq_zero_iff.mp (by omega)
  | cons chunk chunks inductionHypothesis =>
    intro done reason rest split
    cases done with
    | nil => cases split
    | cons item done =>
      exact inductionHypothesis done reason rest (List.cons.inj split).2

theorem delivered_body (chunks : List Bytes) (ending : Option ProxyError) :
    delivered (body chunks ending) = chunks.flatten := by
  induction chunks with
  | nil =>
    cases ending with
    | none => rfl
    | some reason => rfl
  | cons chunk chunks inductionHypothesis =>
    rw [List.flatten_cons, ← inductionHypothesis]
    rfl

open DiskStorage in
/-- The client is sent the items in their order until it goes, whatever the cache
does; the cache is sent a beginning of them, whatever the client does; and a write
of what the cache has received records a beginning of the bytes, in place. -/
theorem tee_consistent (chunks : List Bytes) (ending : Option ProxyError)
    {state : Forwarding}
    (reached : Reaches step (fun _ _ => True) (start (body chunks ending)) state) :
    (state.client.sent <+: body chunks ending ∧ (state.stage = .ended →
        state.client.sent = body chunks ending ∨ state.client.closed = true) ∧
      (state.stage = .ended ∨ state.AwaitsClient ∨
        ∃ action ∈ [.next, .sendClient, .trySendCache, .timeOut], (step action state).isSome)) ∧
    state.cache.sent <+: body chunks ending ∧
    ∀ (env : Environment) (config : StorageConfig)
        (operations : List Operation) (key : Key) (range : Nat × Nat)
        (stream : ByteStream),
      stream <+: state.cache.sent →
      let before := Operation.run env config operations Disk.empty
      let after := (write env key stream range before).2
      ∃ count, count ≤ range.2 - range.1 + 1 ∧ count ≤ chunks.flatten.length ∧
        (∀ offset, ¬Recorded before key offset → (Recorded after key offset ↔
            range.1 ≤ offset ∧ offset < range.1 + count)) ∧
        ∀ index byte, (chunks.flatten.take count)[index]? = some byte →
          ∃ file, after.files.lookup key = some file ∧ file.cell (range.1 + index) = some byte := by
  have progress : Progress (body chunks ending) state := by
    refine reached.invariant (Progress (body chunks ending)) ?_ ?_
    · exact .reading rfl ⟨List.nil_prefix, fun _ => rfl, nofun⟩ ⟨List.nil_prefix, fun _ => rfl⟩
    · intro action before after holds _ moves
      exact progress_step (body_errorLast chunks ending) holds moves
  obtain ⟨clientSent, complete, cacheSent⟩ := progress.sent
  refine ⟨⟨clientSent, complete, moves_unless_awaitsClient state⟩, cacheSent, ?_⟩
  intro env config operations key range stream received before after
  have tidy : AllTidy key before := run_tidy env config tidy_empty operations key
  obtain ⟨_, part, begins, short, appends⟩ :=
    write_written env tidy stream range
  have partOf : part <+: chunks.flatten := by
    rw [← delivered_body chunks ending]
    exact begins.trans (delivered_mono (received.trans cacheSent))
  refine ⟨part.length, short, partOf.length_le, appends.recorded, ?_⟩
  rw [← List.prefix_iff_eq_take.mp partOf]
  exact appends.holds

open DiskStorage in
/-- The client goes after the first of two chunks, and the cache gets both. -/
theorem tee_consistent_client_gone :
    ∃ state, Reaches step (fun _ _ => True) (start (body [[1, 2], [3]] none)) state ∧
      state.stage = .ended ∧ state.client.sent = body [[1, 2]] none ∧
      state.cache.sent = body [[1, 2], [3]] none ∧
      ∃ count, count ≤ 11 - 8 + 1 ∧ count ≤ 3 ∧ ∀ offset, ¬Recorded Disk.empty "asset" offset →
          (Recorded (write .calmHost "asset" (body [[1, 2], [3]] none) (8, 11)
            Disk.empty).2 "asset" offset ↔
            8 ≤ offset ∧ offset < 8 + count) := by
  have runs : runActions step [.next, .sendClient, .trySendCache,
      .clientCloses, .next, .sendClient, .trySendCache, .next]
      (start (body [[1, 2], [3]] none)) =
      some ⟨[], .ended, false, true, ⟨body [[1, 2]] none, true, body [[1, 2]] none⟩,
        ⟨body [[1, 2], [3]] none, false, body [[1, 2], [3]] none⟩⟩ := rfl
  have reached : Reaches step (fun _ _ => True) (start (body [[1, 2], [3]] none)) _ :=
    Reaches.refl.runActions (admitsAll_true _ _) runs
  obtain ⟨_, _, records⟩ := tee_consistent [[1, 2], [3]] none reached
  obtain ⟨count, short, small, recorded, _⟩ := records .calmHost ⟨4⟩ []
    "asset" (8, 11) (body [[1, 2], [3]] none) (List.prefix_refl _)
  exact ⟨_, reached, rfl, rfl, rfl, count, short, small, recorded⟩

end Forwarding

end VideoProxy
