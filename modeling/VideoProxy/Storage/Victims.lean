import VideoProxy.Storage.Accounting

/-!
# The choice of the entries to evict

The first phase of a cleanup takes entries in the order of their last access
until both limits are met.  The purpose is to take as few as possible: the
shortest beginning of that order after which the number of entries is within its
limit and, unless the external cache alone is over the limit of bytes, the bytes
are as well.  The loop tests the running total, so its choice is this one exactly
if the running total and the sum over the remaining entries pass the limit at the
same entry; the exception for a large external cache is made only before the
loop.
-/

namespace VideoProxy

/-! ## First indices -/

/-- The first index below a bound at which a property holds, or the bound. -/
structure FirstIndex (holds : Nat → Prop) (bound index : Nat) : Prop where
  le : index ≤ bound
  reached : index = bound ∨ holds index
  minimal : ∀ earlier < index, ¬holds earlier

/-- Two properties that stay true once they hold have the same first index
exactly if they agree at every index. -/
theorem FirstIndex.iff_agree {holds other : Nat → Prop} {bound index : Nat}
    (first : FirstIndex holds bound index)
    (stays : ∀ {early late}, early ≤ late → holds early → holds late)
    (otherStays : ∀ {early late}, early ≤ late → other early → other late) :
    FirstIndex other bound index ↔ ∀ place < bound, (holds place ↔ other place) := by
  constructor
  · intro otherFirst place inside
    by_cases early : place < index
    · exact iff_of_false (first.minimal place early) (otherFirst.minimal place early)
    · have late : index ≤ place := Nat.le_of_not_lt early
      have proper : index ≠ bound := by omega
      exact iff_of_true (stays late (first.reached.resolve_left proper))
        (otherStays late (otherFirst.reached.resolve_left proper))
  · intro agree
    have le := first.le
    refine ⟨le, ?_, fun place early held => ?_⟩
    · by_cases proper : index = bound
      · exact Or.inl proper
      · exact Or.inr ((agree index (by omega)).mp (first.reached.resolve_left proper))
    · exact first.minimal place early ((agree place (by omega)).mpr held)

namespace Manager

/-- The bytes of a list of entries. -/
def usageOf (entries : List CacheEntry) : Nat :=
  (entries.map CacheEntry.diskUsage).sum

/-- `entries.values()`. -/
def entryList (manager : Manager σ) : List CacheEntry :=
  manager.cacheEntries.entries.map Sigma.snd

/-- The entries, sorted by the time of the last access. -/
def lruOrder (manager : Manager σ) : List CacheEntry :=
  manager.entryList.mergeSort fun left right => left.lastAccess ≤ right.lastAccess

/-! ## What is to be chosen -/

/-- The entries that are kept are within the limits; an external cache that is
over the limit of bytes on its own leaves only the limit of entries. -/
def Within (config : StorageManagerConfig) (externalSize : Nat) (kept : List CacheEntry) : Prop :=
  kept.length ≤ config.maxFileCount ∧ (externalSize ≤ config.maxCacheSize →
      usageOf kept + externalSize ≤ config.maxCacheSize)

/-- The victims begin the entries in the order of their last access, what is
kept is within the limits, and it is not if fewer of them are taken. -/
def ShortestPrefix (config : StorageManagerConfig) (externalSize : Nat)
    (entries victims : List CacheEntry) : Prop :=
  ∃ kept, (victims ++ kept).Perm entries ∧
    (victims ++ kept).Pairwise (fun left right => left.lastAccess ≤ right.lastAccess) ∧
    Within config externalSize kept ∧
    ∀ fewer more, victims = fewer ++ more → more ≠ [] → ¬Within config externalSize (more ++ kept)

/-- The exception that is made before the loop: only the external cache is over
its limit. -/
def Spared (config : StorageManagerConfig) (externalSize : Nat) (manager : Manager σ) : Prop :=
  config.maxCacheSize < externalSize ∧ manager.lruOrder.length ≤ config.maxFileCount

/-- At every number of victims that is enough for the limit of entries, the
running total is within the limit of bytes exactly if that limit is met or does
not apply. -/
def BytesAgree (config : StorageManagerConfig) (externalSize : Nat) (manager : Manager σ) : Prop :=
  ∀ taken < manager.lruOrder.length, manager.lruOrder.length - taken ≤ config.maxFileCount →
      (saturatingAdd manager.totalSize externalSize -
          usageOf (manager.lruOrder.take taken) ≤ config.maxCacheSize ↔
        (externalSize ≤ config.maxCacheSize →
          usageOf (manager.lruOrder.drop taken) + externalSize ≤ config.maxCacheSize))

variable {config : StorageManagerConfig} {externalSize : Nat} {manager : Manager σ}

theorem usageOf_append (front back : List CacheEntry) :
    usageOf (front ++ back) = usageOf front + usageOf back := by
  rw [usageOf, List.map_append, List.sum_append, usageOf, usageOf]

theorem usageOf_perm {left right : List CacheEntry} (perm : left.Perm right) :
    usageOf left = usageOf right :=
  (perm.map CacheEntry.diskUsage).sum_eq

theorem usageOf_take_add_drop (entries : List CacheEntry) (taken : Nat) :
    usageOf (entries.take taken) + usageOf (entries.drop taken) = usageOf entries := by
  rw [← usageOf_append, List.take_append_drop]

theorem usageOf_take_mono (entries : List CacheEntry) {early late : Nat} (le : early ≤ late) :
    usageOf (entries.take early) ≤ usageOf (entries.take late) := by
  have parts := usageOf_take_add_drop (entries.take late) early
  rw [List.take_take, Nat.min_eq_left le] at parts
  omega

theorem lruOrder_perm : manager.lruOrder.Perm manager.entryList :=
  List.mergeSort_perm _ _

theorem lruOrder_sorted :
    manager.lruOrder.Pairwise fun left right => left.lastAccess ≤ right.lastAccess := by
  have sorted := @List.pairwise_mergeSort CacheEntry
    (fun left right => decide (left.lastAccess ≤ right.lastAccess))
    (fun first second third => by simpa using Nat.le_trans)
    (fun left right => by simpa using Nat.le_total _ _) manager.entryList
  exact sorted.imp of_decide_eq_true

theorem usageOf_lruOrder : usageOf manager.lruOrder = manager.usage := by
  rw [usageOf_perm lruOrder_perm, usageOf, entryList, List.map_map, usage, tally]
  rfl

theorem within_perm {left right : List CacheEntry} (perm : left.Perm right) :
    Within config externalSize left ↔ Within config externalSize right := by
  rw [Within, Within, perm.length_eq, usageOf_perm perm]

theorem Within.drop_mono {entries : List CacheEntry} {early late : Nat} (le : early ≤ late)
    (within : Within config externalSize (entries.drop early)) :
    Within config externalSize (entries.drop late) := by
  obtain ⟨count, bytes⟩ := within
  have more := usageOf_take_mono entries le
  have earlyParts := usageOf_take_add_drop entries early
  have lateParts := usageOf_take_add_drop entries late
  refine ⟨?_, fun applies => ?_⟩
  · rw [List.length_drop] at count ⊢
    omega
  · have bounded := bytes applies
    omega

/-- A beginning of the order is the one to be chosen if its length is the first
index from which on the rest is within the limits. -/
theorem shortestPrefix_take_iff {taken : Nat} (inside : taken ≤ manager.lruOrder.length) :
    ShortestPrefix config externalSize manager.entryList (manager.lruOrder.take taken) ↔
      FirstIndex (fun index => Within config externalSize (manager.lruOrder.drop index))
        manager.lruOrder.length taken := by
  have split {early : Nat} (before : early ≤ taken) :
      manager.lruOrder.drop early =
        (manager.lruOrder.take taken).drop early ++ manager.lruOrder.drop taken := by
    have length : (manager.lruOrder.take taken).length = taken := List.length_take_of_le inside
    rw [← List.drop_append_of_le_length (by omega), List.take_append_drop]
  constructor
  · rintro ⟨kept, perm, _, within, minimal⟩
    have rest : kept.Perm (manager.lruOrder.drop taken) := by
      rw [← List.perm_append_left_iff (manager.lruOrder.take taken), List.take_append_drop]
      exact perm.trans lruOrder_perm.symm
    refine ⟨inside, Or.inr ((within_perm rest).mp within), fun early before held => ?_⟩
    refine minimal ((manager.lruOrder.take taken).take early)
      ((manager.lruOrder.take taken).drop early) (List.take_append_drop _ _).symm ?_ ?_
    · rw [ne_eq, List.drop_eq_nil_iff, List.length_take_of_le inside]
      omega
    · rw [within_perm (rest.append_left _), ← split before.le]
      exact held
  · intro first
    refine ⟨manager.lruOrder.drop taken, ?_, ?_, ?_, fun fewer more victims_eq proper => ?_⟩
    · rw [List.take_append_drop]
      exact lruOrder_perm
    · rw [List.take_append_drop]
      exact lruOrder_sorted
    · rcases first.reached with all | held
      · rw [all, List.drop_length]
        exact ⟨Nat.zero_le _, fun applies => by simpa [usageOf] using applies⟩
      · exact held
    · have length := congrArg List.length victims_eq
      rw [List.length_take_of_le inside, List.length_append] at length
      have positive := List.length_pos_iff.mpr proper
      have before : fewer.length < taken := by omega
      have failed := first.minimal fewer.length before
      rw [split before.le, victims_eq, List.drop_left] at failed
      exact failed

/-! ## What the loop takes -/

/-- The loop stops at the first entry at which the running total and the running
count are within the limits. -/
theorem takeVictims_firstIndex (config : StorageManagerConfig) (entries : List CacheEntry)
    (total count : Nat) :
    ∃ taken, takeVictims config entries total count = entries.take taken ∧ FirstIndex
        (fun index => total - usageOf (entries.take index) ≤ config.maxCacheSize ∧
          count - index ≤ config.maxFileCount)
        entries.length taken := by
  induction entries generalizing total count with
  | nil => exact ⟨0, rfl, le_rfl, Or.inl rfl, fun _ absurdly => by cases absurdly⟩
  | cons entry entries inductionHypothesis =>
    by_cases within : total ≤ config.maxCacheSize ∧ count ≤ config.maxFileCount
    · refine ⟨0, ?_, Nat.zero_le _, Or.inr within, fun _ absurdly => by cases absurdly⟩
      rw [takeVictims, if_pos within]
      rfl
    · obtain ⟨taken, rest_eq, first⟩ :=
        inductionHypothesis (total - entry.diskUsage) (count - 1)
      have shift (index : Nat) :
          (total - entry.diskUsage - usageOf (entries.take index) ≤ config.maxCacheSize ∧
            count - 1 - index ≤ config.maxFileCount) ↔
          (total - usageOf ((entry :: entries).take (index + 1)) ≤ config.maxCacheSize ∧
            count - (index + 1) ≤ config.maxFileCount) := by
        rw [List.take_succ_cons, usageOf, usageOf, List.map_cons, List.sum_cons,
          Nat.sub_sub, Nat.sub_sub, Nat.add_comm 1 index]
      refine ⟨taken + 1, ?_, Nat.succ_le_succ first.le, ?_, fun early before => ?_⟩
      · rw [takeVictims, if_neg within, rest_eq, List.take_succ_cons]
      · rw [← shift]
        exact first.reached.imp_left (congrArg Nat.succ)
      · cases early with
        | zero => exact within
        | succ early =>
          rw [← shift]
          exact first.minimal early (by omega)

/-- The victims are those of the loop unless the exception is made. -/
theorem victims_eq (config : StorageManagerConfig) (externalSize : Nat) (manager : Manager σ) :
    (Spared config externalSize manager ∧ manager.victims config externalSize = []) ∨
      (¬Spared config externalSize manager ∧ manager.victims config externalSize =
          takeVictims config manager.lruOrder
            (saturatingAdd manager.totalSize externalSize) manager.lruOrder.length) := by
  have length : manager.lruOrder.length = manager.entryList.length :=
    lruOrder_perm.length_eq
  have unfolded : manager.victims config externalSize =
      if (config.maxCacheSize < externalSize ∧ manager.entryList.length ≤ config.maxFileCount) ∨
          (saturatingAdd manager.totalSize externalSize ≤ config.maxCacheSize ∧
            manager.entryList.length ≤ config.maxFileCount) then []
      else
        takeVictims config manager.lruOrder
          (saturatingAdd manager.totalSize externalSize) manager.entryList.length :=
    rfl
  unfold Spared
  rw [length, unfolded]
  by_cases spared : config.maxCacheSize < externalSize ∧
      manager.entryList.length ≤ config.maxFileCount
  · exact Or.inl ⟨spared, if_pos (Or.inl spared)⟩
  · refine Or.inr ⟨spared, ?_⟩
    by_cases within : saturatingAdd manager.totalSize externalSize ≤ config.maxCacheSize ∧
        manager.entryList.length ≤ config.maxFileCount
    · rw [if_pos (Or.inr within)]
      cases manager.lruOrder with
      | nil => rfl
      | cons entry entries => rw [takeVictims, if_pos within]
    · exact if_neg fun either => either.elim spared within

/-- The choice is the shortest one exactly if the exception is made or the
running total agrees with the entries. -/
theorem shortestPrefix_iff (config : StorageManagerConfig) (externalSize : Nat)
    (manager : Manager σ) :
    ShortestPrefix config externalSize manager.entryList (manager.victims config externalSize) ↔
      Spared config externalSize manager ∨ BytesAgree config externalSize manager := by
  rcases victims_eq config externalSize manager with
    ⟨spared, victims_eq⟩ | ⟨unspared, victims_eq⟩
  · refine iff_of_true ?_ (Or.inl spared)
    rw [victims_eq, ← List.take_zero]
    refine (shortestPrefix_take_iff (Nat.zero_le _)).mpr
      ⟨Nat.zero_le _, Or.inr ⟨spared.2, fun applies => ?_⟩, fun _ absurdly => by cases absurdly⟩
    exact absurd applies (Nat.not_le.mpr spared.1)
  · obtain ⟨taken, taken_eq, first⟩ := takeVictims_firstIndex config manager.lruOrder
      (saturatingAdd manager.totalSize externalSize) manager.lruOrder.length
    rw [victims_eq, taken_eq, shortestPrefix_take_iff first.le,
      first.iff_agree (fun le held => ?_) (fun le held => Within.drop_mono le held)]
    · simp only [unspared, false_or]
      refine forall_congr' fun place => imp_congr_right fun inside => ?_
      rw [Within, List.length_drop, and_comm, and_congr_right_iff]
    · have more := usageOf_take_mono manager.lruOrder le
      exact ⟨by omega, by omega⟩

/-- With exact books the choice fails only if the external cache is over the
limit of bytes and the entries are over theirs. -/
theorem agree_iff_of_exact (exactTotal : manager.totalSize = manager.usage)
    (word : manager.usage + externalSize ≤ u64Max) :
    Spared config externalSize manager ∨ BytesAgree config externalSize manager ↔
      externalSize ≤ config.maxCacheSize ∨
        manager.entryList.length ≤ config.maxFileCount ∨ config.maxFileCount = 0 := by
  have length : manager.lruOrder.length = manager.entryList.length :=
    lruOrder_perm.length_eq
  have combined (taken : Nat) :
      saturatingAdd manager.totalSize externalSize - usageOf (manager.lruOrder.take taken) =
        usageOf (manager.lruOrder.drop taken) + externalSize := by
    have parts := usageOf_take_add_drop manager.lruOrder taken
    rw [usageOf_lruOrder] at parts
    rw [exactTotal, saturatingAdd_of_le word]
    omega
  unfold Spared BytesAgree
  rw [length]
  simp only [combined]
  by_cases applies : externalSize ≤ config.maxCacheSize
  · refine iff_of_true (Or.inr fun taken _ _ => ?_) (Or.inl applies)
    exact ⟨fun bounded _ => bounded, fun bounded => bounded applies⟩
  · simp only [applies, false_or, false_imp_iff, iff_true, Nat.lt_of_not_le applies, true_and]
    constructor
    · rintro (few | agree)
      · exact Or.inl few
      · by_contra excess
        -- Even with one entry left the external cache is too large.
        have lastOne := agree (manager.entryList.length - 1) (by omega) (by omega)
        omega
    · rintro (few | none)
      · exact Or.inl few
      · refine Or.inr fun taken inside enough => ?_
        omega

/-- The victims of a cleanup are the shortest beginning of the entries in the
order of their last access that brings the cache within its limits, exactly if
the exception for the external cache is made or the running total agrees with
the entries. -/
theorem victims_shortest_iff (config : StorageManagerConfig) (externalSize : Nat)
    (manager : Manager σ) :
    (ShortestPrefix config externalSize manager.entryList (manager.victims config externalSize) ↔
      Spared config externalSize manager ∨ BytesAgree config externalSize manager) ∧
    (manager.totalSize = manager.usage → manager.usage + externalSize ≤ u64Max →
      (ShortestPrefix config externalSize manager.entryList (manager.victims config externalSize) ↔
        externalSize ≤ config.maxCacheSize ∨ manager.entryList.length ≤ config.maxFileCount ∨
          config.maxFileCount = 0)) := by
  refine ⟨shortestPrefix_iff config externalSize manager, fun exactTotal word => ?_⟩
  rw [shortestPrefix_iff]
  exact agree_iff_of_exact exactTotal word

/-- Two entries of which one is too many, next to a large external cache. -/
def crowded : Manager Unit where
  engine := ()
  cacheEntries :=
    (∅ : AList fun _ : Key => CacheEntry).insert "new" ⟨"new", 20, 2⟩
      |>.insert "old" ⟨"old", 10, 1⟩
  totalSize := 30

/-- Both entries are taken although one is enough. -/
theorem crowded_victims :
    crowded.victims ⟨100, 1⟩ 200 = [⟨"old", 10, 1⟩, ⟨"new", 20, 2⟩] ∧
    ¬ShortestPrefix ⟨100, 1⟩ 200 crowded.entryList (crowded.victims ⟨100, 1⟩ 200) := by
  have listed : crowded.entryList = [⟨"old", 10, 1⟩, ⟨"new", 20, 2⟩] := by decide +kernel
  have sorted : crowded.lruOrder = [⟨"old", 10, 1⟩, ⟨"new", 20, 2⟩] := by
    rw [lruOrder, listed]
    exact List.mergeSort_of_pairwise (by decide)
  have unspared : ¬Spared ⟨100, 1⟩ 200 crowded := by
    rw [Spared, sorted]
    decide
  refine ⟨?_, ?_⟩
  · rw [((victims_eq ⟨100, 1⟩ 200 crowded).resolve_left fun spared => unspared spared.1).2, sorted]
    decide +kernel
  · rw [shortestPrefix_iff, agree_iff_of_exact (by decide +kernel) (by decide +kernel), listed]
    decide

end Manager
end VideoProxy
