import VideoProxy.DataSource.Requests
import VideoProxy.FullContent
import VideoProxy.Storage.Current
import VideoProxy.Transparency

/-!
# Cached beginnings that are fetched again

A request whose beginning is cached need not fetch it.  Whether it does is
decided by the size that the storage manager reports, which is where the last
recorded byte ends: only if the cached beginning ends there too is the request
cut at its end.  A tail that was cached before makes the size larger, and the
whole range is fetched again.

That nothing before a position is fetched means that no answer of the upstream to
a request from before that position makes a difference to the outcome.
-/

namespace VideoProxy

open Faulty DiskStorage IntervalTable

/-- What `StorageManager::get_size` reports. -/
def Manager.size (key : Key) (manager : Manager Disk) : Option Nat :=
  match manager.cacheEntries.lookup key with
  | some entry => some entry.diskUsage
  | none => (manager.engine.files.lookup key).map SparseFile.length

/-- The range that a plan leaves to the upstream. -/
def CachePlan.asked (start requestedEnd : Nat) : CachePlan → Option Text
  | .hit _ _ _ => none
  | .stitch _ finish cachedEnd => some (formatRange cachedEnd finish)
  | .miss => some (formatRange start requestedEnd)

namespace DataSourceManager

/-! ## Answers that matter -/

section Answers

variable (engine : StorageEngine σ) (outside : Outside) (key : Key)
  {start finish : Nat} {plan : CachePlan}

/-- Only the answer to the range that is left to the upstream matters. -/
theorem answerPlan_congr
    {probe fetch : Upstream}
    (alike : ∀ range, plan.asked start finish = some range →
      NetworkHandler.fetch fetch range = NetworkHandler.fetch outside.fetch range)
    (upstream : UpstreamMeta) :
    answerPlan engine { outside with probe := probe, fetch := fetch } key start finish
        (upstream, plan) =
      answerPlan engine outside key start finish (upstream, plan) := by
  cases plan with
  | hit first last total => simp [answerPlan, servePlan]
  | stitch first last cachedEnd =>
    have handled : MixedSourceHandler.handle engine
          { outside with probe := probe, fetch := fetch } key first last cachedEnd =
        MixedSourceHandler.handle engine outside key first last cachedEnd := by
      have same := alike _ rfl
      unfold MixedSourceHandler.handle
      split
      · rfl
      · rename_i closed
        rw [formatRange, if_neg closed] at same
        unfold MixedSourceHandler.fetchWithTimeout
        simp only [same]
        rfl
    simp only [answerPlan, servePlan, handled, bind_assoc, pure_bind]
  | miss =>
    simp only [answerPlan, servePlan, pure_bind, fetchFromNetwork, alike _ rfl]
    rfl

/-- A refusal of that range is passed on. -/
theorem answerPlan_refused
    (inTime : outside.inTime = true)
    {range : Text}
    (asked : plan.asked start finish = some range)
    (cut : ∀ first last cachedEnd, plan = .stitch first last cachedEnd →
      first < cachedEnd ∧ cachedEnd ≤ last ∧ last < u64Max)
    {reason : ProxyError}
    (refused : NetworkHandler.fetch outside.fetch range = .error reason)
    (upstream : UpstreamMeta)
    (manager : Manager σ) :
    answerPlan engine outside key start finish (upstream, plan) manager =
      (.error reason, manager) := by
  cases plan with
  | hit first last total => cases asked
  | stitch first last cachedEnd =>
    obtain ⟨begins, inside, word⟩ := cut first last cachedEnd rfl
    have closed : last ≠ openEnded := Nat.ne_of_lt word
    cases asked
    rw [formatRange, if_neg closed] at refused
    simp only [answerPlan, servePlan, MixedSourceHandler.handle, if_neg closed]
    rw [if_neg (by omega)]
    simp only [MixedSourceHandler.fetchWithTimeout, if_pos inTime, refused]
    rfl
  | miss =>
    cases asked
    simp only [answerPlan, servePlan, pure_bind, fetchFromNetwork, refused]
    rfl

end Answers

/-! ## What is planned -/

/-- What the storage manager reports about a key is the same. -/
structure SameReports (key : Key) (before after : Manager Disk) : Prop where
  view : Disk.SameView key before.engine after.engine
  entries : after.cacheEntries = before.cacheEntries

/-- A range of a resource of a known length is recorded, and the data file
exists. -/
def Available
    (key : Key)
    (total first last : Nat)
    (manager : Manager Disk) : Prop :=
  (manager.engine.current key).totalSize = some total ∧
    (∀ offset, first ≤ offset → offset ≤ last →
      Covers (manager.engine.current key).completed offset) ∧
    (manager.engine.files.lookup key).isSome

/-- The cache supplies a range up to a position or further: all of it is
available, or all before the reported size. -/
def Supplies
    (key : Key)
    (total start position finish : Nat)
    (manager : Manager Disk) : Prop :=
  Available key total start finish manager ∨
    ∃ size, manager.size key = some size ∧ position ≤ size ∧ size ≤ finish ∧
      Available key total start (size - 1) manager

/-- The plan that the reports about a key lead to. -/
def Planned
    (key : Key)
    (total start finish : Nat)
    (manager : Manager Disk) : CachePlan → Prop
  | .hit first last size =>
    first = start ∧ last = finish ∧ size = total ∧
      Available key total start finish manager
  | .stitch first last cachedEnd =>
    first = start ∧ last = finish ∧ start < cachedEnd ∧ cachedEnd ≤ finish ∧
      ¬Available key total start finish manager ∧
      manager.size key = some cachedEnd ∧
      Available key total start (cachedEnd - 1) manager
  | .miss => ¬Supplies key total start (start + 1) finish manager

section Reports

variable {key : Key} {before after : Manager Disk} {total start finish : Nat}

theorem SameReports.trans
    {first second third : Manager Disk}
    (left : SameReports key first second)
    (right : SameReports key second third) :
    SameReports key first third :=
  ⟨left.view.trans right.view, right.entries.trans left.entries⟩

theorem SameReports.size_eq (same : SameReports key before after) :
    after.size key = before.size key := by
  unfold Manager.size
  rw [same.entries, same.view.file]

theorem SameReports.available_eq
    (same : SameReports key before after)
    (first last : Nat) :
    Available key total first last after = Available key total first last before := by
  unfold Available
  rw [same.view.current, same.view.file]

variable {plan : CachePlan} {manager : Manager Disk}

theorem SameReports.planned
    (same : SameReports key before after)
    (planned : Planned key total start finish after plan) :
    Planned key total start finish before plan := by
  cases plan with
  | hit first last size => simpa only [Planned, same.available_eq] using planned
  | stitch first last cachedEnd =>
    simpa only [Planned, same.available_eq, same.size_eq] using planned
  | miss => simpa only [Planned, Supplies, same.available_eq, same.size_eq] using planned

theorem Supplies.mono
    {position earlier : Nat}
    (supplies : Supplies key total start position finish manager)
    (before : earlier ≤ position) :
    Supplies key total start earlier finish manager := by
  rcases supplies with whole | ⟨size, size_eq, reaches, inside, available⟩
  · exact Or.inl whole
  · exact Or.inr ⟨size, size_eq, before.trans reaches, inside, available⟩

/-- Only a cache without a beginning of the range makes the plan a miss. -/
theorem Planned.eq_miss
        (planned : Planned key total start finish manager plan)
    (nothing : ¬Supplies key total start (start + 1) finish manager) :
    plan = .miss := by
  cases plan with
  | hit first last size => exact absurd (Or.inl planned.2.2.2) nothing
  | stitch first last cachedEnd =>
    obtain ⟨_, _, begins, inside, _, size_eq, available⟩ := planned
    exact absurd (Or.inr ⟨cachedEnd, size_eq, begins, inside, available⟩) nothing
  | miss => rfl

/-- A plan asks only from a position on exactly if the cache supplies what is
before. -/
theorem Planned.asksFrom_iff
        (planned : Planned key total start finish manager plan)
    {position : Nat}
    (begins : start < position) :
    (∀ range, plan.asked start finish = some range →
        NetSource.AsksFrom position range) ↔
      Supplies key total start position finish manager := by
  cases plan with
  | hit first last size =>
    exact iff_of_true nofun (Or.inl planned.2.2.2)
  | stitch first last cachedEnd =>
    obtain ⟨_, rfl, _, inside, short, size_eq, available⟩ := planned
    simp only [CachePlan.asked, Option.some.injEq, forall_eq',
      NetSource.asksFrom_formatRange_iff]
    constructor
    · exact fun reaches => Or.inr ⟨cachedEnd, size_eq, reaches, inside, available⟩
    · rintro (whole | ⟨size, other_eq, reaches, _, _⟩)
      · exact absurd whole short
      · rw [size_eq] at other_eq
        cases other_eq
        exact reaches
  | miss =>
    simp only [CachePlan.asked, Option.some.injEq, forall_eq',
      NetSource.asksFrom_formatRange_iff]
    exact iff_of_false (Nat.not_le.mpr begins) fun supplies => planned (supplies.mono begins)

end Reports

/-- A range inside of a resource, whose length is the only one that the cache may
know. -/
structure Inside
    (key : Key)
    (total start finish : Nat)
    (manager : Manager Disk) : Prop where
  tidy : Tidy (manager.engine.current key)
  known : ∀ size, (manager.engine.current key).totalSize = some size → size = total
  word : total ≤ u64Max
  ordered : start ≤ finish
  ends : finish < total

variable {finish start total : Nat} {key : Key} {manager : Manager Disk}

theorem SameReports.inside
    {before after : Manager Disk}
    (same : SameReports key before after)
    (inside : Inside key total start finish before) :
    Inside key total start finish after where
  tidy := by
    rw [same.view.current]
    exact inside.tidy
  known := by
    rw [same.view.current]
    exact inside.known
  word := inside.word
  ordered := inside.ordered
  ends := inside.ends

theorem Inside.resolveRange_eq
        (inside : Inside key total start finish manager) :
    resolveRange start finish (some total) = .ok (start, finish) := by
  have ordered := inside.ordered
  have ends := inside.ends
  rw [resolveRange_some_eq_ok_iff, Nat.min_eq_left (by omega)]
  exact ⟨by omega, rfl⟩

section Plans

variable {env : Environment} (calm : env.Calm) (config : StorageConfig)
  {key : Key} {manager : Manager Disk}

include calm in
theorem getSize_size :
    ∃ after, StorageManager.getSize (engine env config) key manager =
        (.ok (manager.size key), after) ∧
      SameReports key manager after := by
  unfold StorageManager.getSize Manager.size
  rw [bind_of_ok (gets_apply _ manager)]
  cases manager.cacheEntries.lookup key with
  | some entry => exact ⟨manager, rfl, ⟨rfl, rfl⟩, rfl⟩
  | none =>
    exact ⟨_, StorageManager.onEngine_of_ok (dataFileSize_calm calm key manager.engine),
      Disk.SameView.tick key manager.engine _, rfl⟩

variable {total start finish : Nat}

include calm in
/-- A part of the range is reported exactly if it is available. -/
theorem checkRange_available
    (inside : Inside key total start finish manager)
    (known : (manager.engine.current key).totalSize = some total)
    {last : Nat}
    (ordered : start ≤ last)
    (short : last ≤ finish) :
    ∃ answer after,
      StorageManager.checkRange (engine env config) key (start, last) manager =
        (.ok answer, after) ∧
      SameReports key manager after ∧
      (answer = true ↔ Available key total start last manager) := by
  have closed : last ≠ openEnded := by
    have ends := inside.ends
    have word := inside.word
    unfold openEnded
    omega
  obtain ⟨answer, after, checked, same, answer_iff⟩ :=
    checkRange_current calm key manager.engine inside.tidy ordered closed
  refine ⟨answer, _, StorageManager.onEngine_of_ok checked, ⟨same, rfl⟩, ?_⟩
  rw [answer_iff]
  exact ⟨fun available => ⟨known, available⟩, fun available => available.2⟩

section Lookups

variable (inside : Inside key total start finish manager) {upstream : UpstreamMeta}
  (upstream_eq : upstream.totalSize = (manager.engine.current key).totalSize)
include calm inside upstream_eq

theorem planFromCache_planned :
    ∃ plan after, planFromCache (engine env config) key upstream start finish manager =
        (.ok plan, after) ∧
      SameReports key manager after ∧
      (plan = .hit start finish total ∧ Available key total start finish manager ∨
        plan = .miss ∧ ¬Available key total start finish manager) := by
  unfold planFromCache
  rw [upstream_eq]
  cases known : (manager.engine.current key).totalSize with
  | none =>
    refine ⟨.miss, manager, rfl, ⟨⟨rfl, rfl⟩, rfl⟩, Or.inr ⟨rfl, ?_⟩⟩
    rintro ⟨absurdly, _⟩
    rw [known] at absurdly
    cases absurdly
  | some size =>
    obtain rfl := inside.known size known
    obtain ⟨answer, after, checked, same, answer_iff⟩ :=
      checkRange_available calm config inside known inside.ordered (Nat.le_refl finish)
    simp only [inside.resolveRange_eq, ofExcept_ok, pure_bind]
    rw [bind_of_ok checked]
    cases answer with
    | true => exact ⟨_, after, rfl, same, Or.inl ⟨rfl, answer_iff.mp rfl⟩⟩
    | false =>
      refine ⟨_, after, rfl, same, Or.inr ⟨rfl, fun available => ?_⟩⟩
      cases answer_iff.mpr available

/-- A range that is not available is cut where the reported size says, if all
before is available. -/
theorem planFromBoth_planned
    (short : ¬Available key total start finish manager) :
    ∃ plan after, planFromBoth (engine env config) key upstream start finish manager =
        (.ok plan, after) ∧
      SameReports key manager after ∧
      Planned key total start finish manager plan := by
  unfold planFromBoth
  rw [upstream_eq]
  cases known : (manager.engine.current key).totalSize with
  | none =>
    refine ⟨.miss, manager, rfl, ⟨⟨rfl, rfl⟩, rfl⟩, ?_⟩
    rintro (available | ⟨_, _, _, _, absurdly, _⟩)
    · exact short available
    · rw [known] at absurdly
      cases absurdly
  | some size =>
    obtain rfl := inside.known size known
    obtain ⟨sized, reported, same⟩ := @getSize_size _ calm config key manager
    simp only [inside.resolveRange_eq, ofExcept_ok, pure_bind]
    rw [bind_of_ok reported]
    by_cases small : (manager.size key).getD 0 ≤ start
    · rw [planMixed, if_pos small]
      refine ⟨.miss, sized, rfl, same, ?_⟩
      rintro (available | ⟨other, size_eq, reaches, _, _⟩)
      · exact short available
      · rw [size_eq, Option.getD_some] at small
        omega
    · by_cases large : (manager.size key).getD 0 > finish
      · rw [planMixed, if_neg small, if_pos large]
        obtain ⟨plan, after, planned, further, made⟩ := planFromCache_planned calm config
          (same.inside inside) (upstream_eq.trans (by rw [same.view.current]))
        rw [same.available_eq] at made
        rcases made with ⟨_, available⟩ | ⟨rfl, _⟩
        · exact absurd available short
        · refine ⟨.miss, after, planned, same.trans further, ?_⟩
          rintro (available | ⟨other, size_eq, _, within, _⟩)
          · exact short available
          · rw [size_eq, Option.getD_some] at large
            omega
      · obtain ⟨cachedEnd, size_eq⟩ : ∃ cachedEnd, manager.size key = some cachedEnd := by
          cases size_eq : manager.size key with
          | none =>
            rw [size_eq] at small
            exact absurd (Nat.zero_le start) small
          | some cachedEnd => exact ⟨cachedEnd, rfl⟩
        rw [planMixed, if_neg small, if_neg large]
        rw [size_eq, Option.getD_some] at small large ⊢
        obtain ⟨answer, after, checked, further, answer_iff⟩ := checkRange_available calm config
          (same.inside inside) (by rw [same.view.current]; exact known)
          (by omega : start ≤ cachedEnd - 1) (by omega)
        rw [same.available_eq] at answer_iff
        simp only
        rw [bind_of_ok checked]
        cases answer with
        | true =>
          exact ⟨_, after, rfl, same.trans further, rfl, rfl, by omega, by omega, short, size_eq,
            answer_iff.mp rfl⟩
        | false =>
          refine ⟨.miss, after, rfl, same.trans further, ?_⟩
          rintro (available | ⟨other, other_eq, _, _, available⟩)
          · exact short available
          · rw [size_eq] at other_eq
            cases other_eq
            cases answer_iff.mpr available

theorem planCached_planned :
    ∃ plan after, planCached (engine env config) key upstream start finish manager =
        (.ok plan, after) ∧
      SameReports key manager after ∧
      Planned key total start finish manager plan := by
  obtain ⟨plan, between, found, same, made⟩ :=
    planFromCache_planned calm config inside upstream_eq
  unfold planCached
  rw [bind_of_ok found]
  rcases made with ⟨rfl, available⟩ | ⟨rfl, short⟩
  · exact ⟨_, between, rfl, same, rfl, rfl, rfl, available⟩
  · rw [← same.available_eq] at short
    obtain ⟨plan, after, planned, further, made⟩ := planFromBoth_planned calm config
      (same.inside inside) (upstream_eq.trans (by rw [same.view.current])) short
    exact ⟨plan, after, planned, same.trans further, same.planned made⟩

end Lookups

include calm in
theorem lookup_planned (inside : Inside key total start finish manager) :
    ∃ upstream between plan after,
      StorageManager.upstreamMeta (engine env config) key manager = (.ok upstream, between) ∧
      planCached (engine env config) key upstream start finish between = (.ok plan, after) ∧
      Planned key total start finish manager plan := by
  obtain ⟨asked, reported, view⟩ :=
    StorageManager.upstreamMeta_current calm config key manager
  have same : SameReports key manager { manager with engine := asked } := ⟨view, rfl⟩
  have upstream_eq : (manager.engine.current key).upstream.totalSize =
      (asked.current key).totalSize :=
    (congrArg RangeMetadata.totalSize view.current).symm
  obtain ⟨plan, after, planned, _, made⟩ :=
    planCached_planned calm config (same.inside inside) upstream_eq
  exact ⟨_, _, plan, after, reported, planned, same.planned made⟩

include calm in
/-- A request is planned by the state that it starts in, or, if that has nothing
of the range, by the one that a follower finds after its wait. -/
theorem requestPlan_planned
    (inside : Inside key total start finish manager)
    {later : Manager Disk}
    (insideLater : Inside key total start finish later)
    (leads : Bool) :
    ∃ upstream plan after,
      requestPlan (engine env config) leads (fun _ => later) key start finish manager =
        (.ok (upstream, plan), after) ∧
      (Planned key total start finish manager plan ∧ (plan = .miss → leads = true) ∨
        leads = false ∧ ¬Supplies key total start (start + 1) finish manager ∧
          Planned key total start finish later plan) := by
  obtain ⟨upstream, between, plan, after, asked, planned, made⟩ :=
    lookup_planned calm config inside
  unfold requestPlan
  rw [bind_of_ok asked, bind_of_ok planned]
  cases plan with
  | hit first last size => exact ⟨upstream, _, after, rfl, Or.inl ⟨made, nofun⟩⟩
  | stitch first last cachedEnd => exact ⟨upstream, _, after, rfl, Or.inl ⟨made, nofun⟩⟩
  | miss =>
    cases leads with
    | true => exact ⟨upstream, _, after, rfl, Or.inl ⟨made, fun _ => rfl⟩⟩
    | false =>
      obtain ⟨upstream, between, plan, last, asked, planned, madeLater⟩ :=
        lookup_planned calm config insideLater
      simp only [Bool.false_eq_true, if_false]
      rw [bind_of_ok (update_apply _ _), bind_of_ok asked, bind_of_ok planned]
      exact ⟨upstream, plan, last, rfl, Or.inr ⟨trivial, made, madeLater⟩⟩

end Plans

/-! ## What is fetched -/

/-- `process_request` sends upstream only requests from a position on: what the
upstream would answer to any other request changes neither the response, with its
body read to the end, nor the state. -/
def SendsOnlyFrom
    (engine : StorageEngine σ)
    (outside : Outside)
    (waited : Manager σ → Manager σ)
    (key : Key)
    (header : Text)
    (position : Nat)
    (manager : Manager σ) : Prop :=
  ∀ probe fetch, outside.probe.AgreeFrom position probe →
    outside.fetch.AgreeFrom position fetch →
    processRequest engine { outside with probe := probe, fetch := fetch } waited key header
        manager =
      processRequest engine outside waited key header manager

section Fetches

variable {env : Environment} (calm : env.Calm) (config : StorageConfig)
  {key : Key} {header : Text} {total start position finish : Nat}
  (parsed : parseRangeSpec header = .ok (.offset start finish))
  (begins : start < position)
  {manager later : Manager Disk}
  (inside : Inside key total start finish manager)
  (insideLater : Inside key total start finish later)

/-- What the cache has of a range up to a position is supplied, at once or, to a
follower that finds nothing at first, after its wait. -/
def SuppliedUpTo
    (key : Key)
    (total start position finish : Nat)
    (leads : Bool)
    (manager later : Manager Disk) : Prop :=
  Supplies key total start position finish manager ∨
    leads = false ∧ ¬Supplies key total start (start + 1) finish manager ∧
      Supplies key total start position finish later

/-- What a plan leaves to the upstream is a range inside of the one requested. -/
theorem Planned.asked_inside
    {plan : CachePlan}
    (inside : Inside key total start finish manager)
    (planned : Planned key total start finish manager plan)
    {range : Text}
    (asked : plan.asked start finish = some range) :
    ∃ first, first ≤ finish ∧ finish ≤ u64Max ∧ range = formatRange first finish ∧
      ∀ left right cachedEnd, plan = .stitch left right cachedEnd →
        left < cachedEnd ∧ cachedEnd ≤ right ∧ right < u64Max := by
  have word := inside.word
  have ends := inside.ends
  cases plan with
  | hit first last size => cases asked
  | stitch first last cachedEnd =>
    obtain ⟨rfl, rfl, after, within, _⟩ := planned
    cases asked
    refine ⟨cachedEnd, within, by omega, rfl, ?_⟩
    rintro _ _ _ ⟨⟩
    exact ⟨after, within, by omega⟩
  | miss =>
    cases asked
    exact ⟨start, inside.ordered, by omega, rfl, nofun⟩

include calm begins inside insideLater in
theorem requestPlan_asks (leads : Bool) :
    ∃ upstream plan after,
      requestPlan (engine env config) leads (fun _ => later) key start finish manager =
        (.ok (upstream, plan), after) ∧
      ((∀ range, plan.asked start finish = some range →
          NetSource.AsksFrom position range) ↔
        SuppliedUpTo key total start position finish leads manager later) ∧
      ∃ origin, Inside key total start finish origin ∧
        Planned key total start finish origin plan := by
  obtain ⟨upstream, plan, after, planned, made⟩ :=
    requestPlan_planned calm config inside insideLater leads
  refine ⟨upstream, plan, after, planned, ?_⟩
  rcases made with ⟨made, missed⟩ | ⟨follows, nothing, made⟩
  · refine ⟨(made.asksFrom_iff begins).trans ⟨Or.inl, ?_⟩, manager, inside, made⟩
    rintro (supplies | ⟨follows, nothing, _⟩)
    · exact supplies
    · rw [missed (made.eq_miss nothing)] at follows
      cases follows
  · refine ⟨(made.asksFrom_iff begins).trans ⟨?_, ?_⟩, later, insideLater, made⟩
    · exact fun supplies => Or.inr ⟨follows, nothing, supplies⟩
    · rintro (supplies | ⟨_, _, supplies⟩)
      · exact absurd (supplies.mono begins) nothing
      · exact supplies

include calm parsed begins inside insideLater

/-- What the cache supplies is not fetched. -/
theorem sendsOnlyFrom_of_supplied
    {outside : Outside}
    (supplied : SuppliedUpTo key total start position finish outside.leads manager later) :
    SendsOnlyFrom (engine env config) outside (fun _ => later) key header position manager := by
  intro probe fetch _ agree
  obtain ⟨upstream, plan, after, planned, asks_iff, origin, originInside, made⟩ :=
    requestPlan_asks calm config begins inside insideLater outside.leads
  have alike (range : Text) (asked : plan.asked start finish = some range) :
      NetworkHandler.fetch fetch range = NetworkHandler.fetch outside.fetch range := by
    obtain ⟨first, within, word, rfl, _⟩ := made.asked_inside originInside asked
    have reaches := NetSource.asksFrom_formatRange_iff.mp (asks_iff.mpr supplied _ asked)
    exact (NetworkHandler.fetch_congr agree reaches within word).symm
  rw [processRequest_eq _ _ _ _ parsed, processRequest_eq _ _ _ _ parsed,
    bind_of_ok planned, bind_of_ok planned]
  rw [answerPlan_congr _ outside key alike]

/-- What the cache does not supply is fetched. -/
theorem supplied_of_sendsOnlyFrom
    {outside : Outside}
    (allowed : outside.fetch.policy = .ok ())
    (inTime : outside.inTime = true)
    (sends : SendsOnlyFrom (engine env config) outside (fun _ => later) key header position
      manager) :
    SuppliedUpTo key total start position finish outside.leads manager later := by
  obtain ⟨upstream, plan, after, planned, asks_iff, origin, originInside, made⟩ :=
    requestPlan_asks calm config begins inside insideLater outside.leads
  by_contra lacking
  obtain ⟨range, asked, before⟩ : ∃ range, plan.asked start finish = some range ∧
      ¬NetSource.AsksFrom position range := by
    by_contra none
    push Not at none
    exact lacking (asks_iff.mp none)
  obtain ⟨first, within, word, range_eq, cut⟩ := made.asked_inside originInside asked
  have parses : parseRange range = .ok (first, finish) := by
    rw [range_eq]
    exact parseRange_formatRange within word
  obtain ⟨one, other, different, refused, expired⟩ :=
    NetworkHandler.exists_refusals allowed parses
  have ends {status : Nat} {reason : ProxyError}
      (fails : NetworkHandler.fetch (outside.fetch.refusing range status) range =
        .error reason) :
      processRequest (engine env config) outside (fun _ => later) key header manager =
        (.error reason, after) := by
    rw [← sends outside.probe (outside.fetch.refusing range status)
      ⟨rfl, fun _ _ _ => rfl, fun _ _ _ => rfl⟩
      (outside.fetch.agreeFrom_refusing before status)]
    rw [processRequest_eq _ _ _ _ parsed, bind_of_ok planned]
    exact answerPlan_refused _ { outside with fetch := outside.fetch.refusing range status }
      key inTime asked cut fails upstream after
  have same := (ends refused).symm.trans (ends expired)
  simp only [Prod.mk.injEq, Exit.error.injEq] at same
  exact different same.1

end Fetches

/-- The recorded ranges cover the beginning of a range and not the byte after
it, in a resource of a known length. -/
structure PrefixCached
    (metadata : RangeMetadata)
    (total start prefixEnd finish : Nat) : Prop where
  known : metadata.totalSize = some total
  word : total ≤ u64Max
  covered : ∀ offset, start ≤ offset → offset < prefixEnd →
    Covers metadata.completed offset
  missing : ¬Covers metadata.completed prefixEnd
  begins : start < prefixEnd
  inside : prefixEnd ≤ finish
  ends : finish < total

theorem PrefixCached.isInside
    {prefixEnd : Nat}
    (cached : PrefixCached (manager.engine.current key) total start prefixEnd finish)
    (tidy : Tidy (manager.engine.current key)) :
    Inside key total start finish manager where
  tidy := tidy
  known := by
    rw [cached.known]
    rintro _ ⟨⟩
    rfl
  word := cached.word
  ordered := cached.begins.le.trans cached.inside
  ends := cached.ends

/-- The reported size is where a cached beginning ends, and the data file
exists. -/
def CutsAt (key : Key) (prefixEnd : Nat) (manager : Manager Disk) : Prop :=
  manager.size key = some prefixEnd ∧ (manager.engine.files.lookup key).isSome

/-- A cached beginning is supplied exactly if the reported size is where it
ends. -/
theorem PrefixCached.supplies_iff
    {prefixEnd : Nat}
    (cached : PrefixCached (manager.engine.current key) total start prefixEnd finish) :
    Supplies key total start prefixEnd finish manager ↔ CutsAt key prefixEnd manager := by
  have begins := cached.begins
  have inside := cached.inside
  constructor
  · rintro (⟨_, covered, _⟩ | ⟨size, size_eq, reaches, within, _, covered, exists_⟩)
    · exact absurd (covered prefixEnd begins.le inside) cached.missing
    · refine ⟨?_, exists_⟩
      by_cases same : size = prefixEnd
      · rw [size_eq, same]
      · exact absurd (covered prefixEnd begins.le (by omega)) cached.missing
  · rintro ⟨size_eq, exists_⟩
    refine Or.inr ⟨prefixEnd, size_eq, Nat.le_refl _, inside, cached.known, ?_, exists_⟩
    exact fun offset lower upper => cached.covered offset lower (by omega)

end DataSourceManager
end VideoProxy
