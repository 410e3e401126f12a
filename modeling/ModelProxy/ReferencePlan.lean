import ModelProxy.AdmissionPlannerReference

/-! # What a reference plan does

One round of the reference planner stops, or grants one eligible waiter
(`ReferenceMove`).  A grant takes the winner's request off the queue, so a plan
ends by a break before its bound, and it throws only for a priority that is no
class rank or a malformed scheduler state.

Applying a plan's grants to the snapshot it was made from gives the snapshot the
planner has in mind (`Tracks`): the counts it keeps are that snapshot's, and its
queue is the queue a new pass over that snapshot would build.
-/
namespace ModelProxy.Capacity
open List Comparator BoundedLoop PlanState Entry AdmissionSnapshot

variable {e win : Entry} {move : LoopStep StoppedBy ReferenceState} {s : ReferenceState}

section Moves
variable {localeCompare : Comparator String} {snapshot : AdmissionSnapshot} {now : Instant}
  {options : PlannerOptions}

theorem mem_referenceEntries :
    e ∈ referenceEntries localeCompare snapshot now options ↔
      e = entryOf e.waiter ∧ e.waiter ∈ snapshot.waiters ∧
        inWindow e.waiter.toWindowWaiter now options.creatingRequestId (lastChance options) =
          true := by
  simp only [referenceEntries, mem_sort, mem_map, mem_filter]
  constructor
  · rintro ⟨w, hw, rfl⟩
    exact ⟨rfl, hw⟩
  · rintro ⟨he, hw⟩
    exact ⟨e.waiter, hw, he.symm⟩

/-- Every queued entry is its waiter's. -/
def ReferenceState.Entries (s : ReferenceState) : Prop := ∀ e ∈ s.entries, e = entryOf e.waiter

variable (snapshot now options)

/-- What one round can do. -/
inductive ReferenceMove (s : ReferenceState) : LoopStep StoppedBy ReferenceState → Prop
  | maxGrants (h : grantsReached options.maxGrants s.grants = true) :
      ReferenceMove s (.stop .maxGrants s)
  | limit (h : limitReached snapshot.capacityLimit s.active = true) :
      ReferenceMove s (.stop .limit s)
  | none (h : s.eligibleEntries snapshot now = []) : ReferenceMove s (.stop .none s)
  | requested (winner : Entry) (scheduler : SchedulerState)
      (hlimit : limitReached snapshot.capacityLimit s.active = false)
      (hwinner : winner ∈ s.eligibleEntries snapshot now)
      (hrequest : options.requestId = some winner.waiter.admissionRequestId) :
      ReferenceMove s (.stop .requested
        (s.applyGrant winner.waiter (s.winnerBorrowed snapshot now winner) scheduler))
  | grant (winner : Entry) (scheduler : SchedulerState)
      (hlimit : limitReached snapshot.capacityLimit s.active = false)
      (hwinner : winner ∈ s.eligibleEntries snapshot now)
      (hrequest : options.requestId ≠ some winner.waiter.admissionRequestId) :
      ReferenceMove s (.next
        (s.applyGrant winner.waiter (s.winnerBorrowed snapshot now winner) scheduler))

variable {snapshot now options}

variable {s : ReferenceState}

theorem eligibleEntries_candidate (hes : s.Entries) (he : e ∈ s.eligibleEntries snapshot now) :
    e.candidate.eligible = true ∧ e.candidate.priority = e.waiter.priority := by
  rw [hes e (mem_of_mem_filter he)]
  exact ⟨rfl, rfl⟩

/-- **A round is one of the moves.** -/
theorem referencePlanStep_move (hes : s.Entries)
    (h : referencePlanStep localeCompare snapshot now options s = .ok move) :
    ReferenceMove snapshot now options s move := by
  unfold referencePlanStep at h
  split at h
  next hx =>
    cases h
    exact .maxGrants hx
  split at h
  next hl =>
    cases h
    exact .limit hl
  next hl =>
  have hl : limitReached snapshot.capacityLimit s.active = false := by simpa using hl
  split at h
  next hp =>
    cases h
    refine .none ?_
    rw [ReferenceState.eligibleEntries, isEmpty_iff.mp hp]
    rfl
  split at h
  next hp =>
    cases h
    exact .none (isEmpty_iff.mp hp)
  next hp =>
  cases hs : scheduleWeightedDeficitRoundRobin localeCompare candidate
      (s.eligibleEntries snapshot now) s.scheduler defaultPriorityQuanta with
  | error e => rw [hs] at h; cases h
  | ok dec =>
    rw [hs] at h
    obtain ⟨-, hn, hno⟩ := schedule_ok localeCompare candidate hs
    dsimp only [bind, Except.bind] at h
    cases hw : dec.winner with
    | none =>
      -- every candidate is eligible, so a pick without a winner had none
      rw [hw] at h
      cases h
      refine .none (eq_nil_iff_forall_not_mem.mpr fun e he => ?_)
      have hf := hno hw e he
      rw [(eligibleEntries_candidate hes he).1] at hf
      cases hf
    | some win =>
      rw [hw] at h
      have hm := (hn win hw).1
      dsimp only at h
      split at h
      next hr =>
        cases h
        exact .requested win dec.state hl hm hr
      next hr =>
        cases h
        exact .grant win dec.state hl hm hr

/-! ### A plan ends -/

theorem ReferenceState.Entries.applyGrant (h : s.Entries) (win : PlannerWaiter) (flag : Bool)
    (sched : SchedulerState) : (s.applyGrant win flag sched).Entries :=
  fun e he => h e (mem_of_mem_filter he)

theorem referenceInitial_entries :
    (referenceInitial localeCompare snapshot now options).Entries :=
  fun _ he => (mem_referenceEntries.mp he).1

theorem length_applyGrant (h : win ∈ s.entries) (flag : Bool) (sched : SchedulerState) :
    (s.applyGrant win.waiter flag sched).entries.length < s.entries.length :=
  length_filter_lt_length_iff_exists.mpr ⟨win, h, by simp⟩

theorem referencePlanStep_descends :
    BoundedLoop.Descends ReferenceState.Entries (fun s => s.entries.length)
      (referencePlanStep localeCompare snapshot now options) := by
  intro s s' hes hsp
  cases referencePlanStep_move hes hsp with
  | grant win sched _ hw _ =>
    exact ⟨hes.applyGrant _ _ _, length_applyGrant (mem_of_mem_filter hw) _ _⟩

theorem referenceInitial_length :
    (referenceInitial localeCompare snapshot now options).entries.length <
      snapshot.waiters.length + 1 := by
  have hpm := ((fifo localeCompare).comap candidate).sort_perm
    ((snapshot.waiters.filter (fun w => inWindow w.toWindowWaiter now
      options.creatingRequestId (lastChance options))).map entryOf)
  have hl := hpm.length_eq
  rw [length_map] at hl
  have hf := length_filter_le (fun w : PlannerWaiter =>
    inWindow w.toWindowWaiter now options.creatingRequestId (lastChance options))
    snapshot.waiters
  change (((fifo localeCompare).comap candidate).sort _).length < _
  omega

/-- The scheduler's part of a state that cannot throw. -/
structure ReferenceState.Schedulable (s : ReferenceState) : Prop where
  entries : s.Entries
  ranks : ∀ e ∈ s.entries, IsRank e.waiter.priority
  scheduler : s.scheduler.WellFormed

/-- A pass of the reference does not fail. -/
theorem referencePlanStep_ok (h : s.Schedulable) :
    ∃ move, referencePlanStep localeCompare snapshot now options s = .ok move ∧
      ∀ s', move = .next s' → s'.Schedulable := by
  have hr : ∀ e ∈ s.eligibleEntries snapshot now, IsRank e.candidate.priority := by
    intro e he
    rw [(eligibleEntries_candidate h.entries he).2]
    exact h.ranks e (mem_of_mem_filter he)
  obtain ⟨dec, hs, ht⟩ :=
    schedule_total localeCompare candidate h.scheduler hr
  unfold referencePlanStep
  split
  · exact ⟨_, rfl, by simp⟩
  split
  · exact ⟨_, rfl, by simp⟩
  split
  · exact ⟨_, rfl, by simp⟩
  split
  · exact ⟨_, rfl, by simp⟩
  simp only [hs, bind, Except.bind]
  cases dec.winner with
  | none => exact ⟨_, rfl, by simp⟩
  | some win =>
    dsimp only
    split
    · exact ⟨_, rfl, by simp⟩
    · refine ⟨_, rfl, fun s' hs' => ?_⟩
      obtain rfl := LoopStep.next.inj hs'
      exact ⟨h.entries.applyGrant _ _ _, fun e he => h.ranks e (mem_of_mem_filter he), ht⟩

/-- A pass over waiters of the classes, from a well-formed scheduler state, returns a plan. -/
theorem referencePlanGrants_total (hr : ∀ w ∈ snapshot.waiters, IsRank w.priority)
    (hs : snapshot.scheduler.WellFormed) :
    ∃ plan, referencePlanGrants localeCompare snapshot now options = .ok plan := by
  have hbo : ∀ s : ReferenceState, s.Schedulable →
      ∃ move, referencePlanStep localeCompare snapshot now options s = .ok move ∧
        ∀ s', move = .next s' → s'.Schedulable := fun s => referencePlanStep_ok
  obtain ⟨res, hn⟩ := run_ok StoppedBy.progress hbo
    (snapshot.waiters.length + 1) (referenceInitial localeCompare snapshot now options)
    ⟨referenceInitial_entries, fun e he => hr _ (mem_referenceEntries.mp he).2.1, hs⟩
  rw [referencePlanGrants, hn]
  exact ⟨_, rfl⟩

/-! ### What a plan grants -/

/-- Grants go to waiters of the snapshot, one per request, within the free slots. -/
structure GrantsSound (snapshot : AdmissionSnapshot) (grants : List PlannedGrant) : Prop where
  once : (grants.map PlannedGrant.admissionRequestId).Nodup
  waiter : ∀ grant ∈ grants, ∃ w ∈ snapshot.waiters,
    w.waiterId = grant.waiterId ∧ w.admissionRequestId = grant.admissionRequestId
  room : grants ≠ [] → ∀ limit, snapshot.capacityLimit = some limit →
    ((snapshot.active + grants.length : Nat) : Int) ≤ limit

/-- What a planning state adds: no queued request was granted. -/
structure ReferenceState.Sound (snapshot : AdmissionSnapshot) (s : ReferenceState) : Prop where
  entries : s.Entries
  queued : ∀ e ∈ s.entries, e.waiter ∈ snapshot.waiters ∧
    e.waiter.admissionRequestId ∉ s.grants.map PlannedGrant.admissionRequestId
  active : s.active = snapshot.active + s.grants.length
  grants : GrantsSound snapshot s.grants

/-- A grant keeps the state sound. -/
theorem ReferenceState.Sound.applyGrant (h : s.Sound snapshot)
    (hl : limitReached snapshot.capacityLimit s.active = false) (hw : win ∈ s.entries)
    (flag : Bool) (sched : SchedulerState) :
    (s.applyGrant win.waiter flag sched).Sound snapshot where
  entries := h.entries.applyGrant _ _ _
  queued := by
    intro e he
    obtain ⟨hm, hne⟩ := mem_filter.mp he
    refine ⟨(h.queued e hm).1, ?_⟩
    have hne : e.waiter.admissionRequestId ≠ win.waiter.admissionRequestId := by simpa using hne
    simpa [ReferenceState.applyGrant, grant, hne] using (h.queued e hm).2
  active := by
    simp only [ReferenceState.applyGrant, grant, length_append, length_singleton, h.active]
    omega
  grants := by
    refine ⟨?_, ?_, ?_⟩
    · simp only [ReferenceState.applyGrant, grant, map_append, map_singleton]
      exact h.grants.once.append (nodup_singleton _)
        (disjoint_singleton.mpr (h.queued win hw).2)
    · intro grant hgr
      rcases mem_append.mp hgr with hold | hn
      · exact h.grants.waiter grant hold
      · rw [mem_singleton.mp hn]
        exact ⟨win.waiter, (h.queued win hw).1, rfl, rfl⟩
    · intro _ limit hc
      have ha := h.active
      simp only [hc, limitReached, decide_eq_false_iff_not] at hl
      simp only [ReferenceState.applyGrant, grant, length_append, length_singleton]
      omega

theorem referencePlanStep_sound (h : s.Sound snapshot)
    (hsp : referencePlanStep localeCompare snapshot now options s = .ok move) :
    move.state.Sound snapshot := by
  cases referencePlanStep_move h.entries hsp with
  | maxGrants _ | limit _ | none _ => exact h
  | requested win sched hl hw _ | grant win sched hl hw _ =>
    exact h.applyGrant hl (mem_of_mem_filter hw) _ _

/-- **A plan grants waiters of its snapshot, one per request, within the free slots.** -/
theorem referencePlanGrants_sound {plan : GrantPlan}
    (hpl : referencePlanGrants localeCompare snapshot now options = .ok plan) :
    GrantsSound snapshot plan.grants := by
  have hi : (referenceInitial localeCompare snapshot now options).Sound snapshot :=
    { entries := referenceInitial_entries
      queued := fun e he => ⟨(mem_referenceEntries.mp he).2.1, by simp [referenceInitial,
        ofSnapshot]⟩
      active := rfl
      grants := ⟨nodup_nil, by simp [referenceInitial, ofSnapshot], by
        simp [referenceInitial, ofSnapshot]⟩ }
  unfold referencePlanGrants at hpl
  cases hr : run StoppedBy.progress
      (referencePlanStep localeCompare snapshot now options) (snapshot.waiters.length + 1)
      (referenceInitial localeCompare snapshot now options) with
  | error e => simp [hr, bind, Except.bind] at hpl
  | ok res =>
    simp only [hr, bind, Except.bind, pure, Except.pure, Except.ok.injEq] at hpl
    subst hpl
    exact (run_keeps (fun s move hs => referencePlanStep_sound hs) _ _ _ _ hi hr).grants

end Moves

/-! ## Applying grants to a snapshot -/

namespace AdmissionSnapshot

/-- The snapshot once a grant is persisted: one more lease of the waiter's owner and scopes,
its request's waiters gone, the scheduler state the grant left. -/
def applyGrant (snapshot : AdmissionSnapshot) (grant : PlannedGrant) : AdmissionSnapshot :=
  match snapshot.waiters.find? (fun w => decide (w.waiterId = grant.waiterId)) with
  | none => snapshot
  | some w =>
    { snapshot with
      active := snapshot.active + 1
      activeByOwner := snapshot.activeByOwner.set w.ownerKey
        ((snapshot.activeByOwner.get w.ownerKey).getD 0 + 1)
      scopeActive := PlanState.countScopes snapshot.scopeActive w.leaseScopeKeys
      waiters := snapshot.waiters.filter
        (fun other => decide (other.admissionRequestId ≠ w.admissionRequestId))
      scheduler := grant.schedulerAfter }

/-- The snapshot once the grants are made. -/
def applyGrants (snapshot : AdmissionSnapshot) (grants : List PlannedGrant) : AdmissionSnapshot :=
  grants.foldl applyGrant snapshot

theorem applyGrants_append (snapshot : AdmissionSnapshot) (gs : List PlannedGrant)
    (grant : PlannedGrant) :
    snapshot.applyGrants (gs ++ [grant]) = (snapshot.applyGrants gs).applyGrant grant := by
  simp [applyGrants]

/-- The waiter ids of the snapshot are pairwise distinct, as a primary key is. -/
def DistinctWaiters (snapshot : AdmissionSnapshot) : Prop :=
  (snapshot.waiters.map (·.waiterId)).Nodup

instance (snapshot : AdmissionSnapshot) : Decidable snapshot.DistinctWaiters :=
  inferInstanceAs (Decidable (List.Nodup _))

/-- What grants leave alone. -/
structure Kept (snapshot after : AdmissionSnapshot) : Prop where
  limit : after.capacityLimit = snapshot.capacityLimit
  reservations : after.reservationsByOwner = snapshot.reservationsByOwner
  waiters : after.waiters.Sublist snapshot.waiters

theorem Kept.refl (snapshot : AdmissionSnapshot) : Kept snapshot snapshot :=
  ⟨rfl, rfl, List.Sublist.refl _⟩

theorem Kept.applyGrant {snapshot post : AdmissionSnapshot} (h : Kept snapshot post)
    (g : PlannedGrant) : Kept snapshot (post.applyGrant g) := by
  unfold AdmissionSnapshot.applyGrant
  split
  · exact h
  · exact ⟨h.limit, h.reservations, filter_sublist.trans h.waiters⟩

theorem Kept.distinct {snapshot post : AdmissionSnapshot} (h : Kept snapshot post)
    (hd : snapshot.DistinctWaiters) : post.DistinctWaiters :=
  hd.sublist (h.waiters.map _)

/-- With distinct ids, the grant of a queued waiter is looked up to that waiter. -/
theorem find_waiter {snapshot : AdmissionSnapshot} (hd : snapshot.DistinctWaiters)
    {w : PlannerWaiter} (hw : w ∈ snapshot.waiters) :
    snapshot.waiters.find? (fun other => decide (other.waiterId = w.waiterId)) = some w := by
  cases hf : snapshot.waiters.find? (fun other => decide (other.waiterId = w.waiterId)) with
  | none => simpa using find?_eq_none.mp hf w hw
  | some other =>
    have hid : other.waiterId = w.waiterId := by simpa using find?_some hf
    rw [inj_on_of_nodup_map hd (mem_of_find?_eq_some hf) hw hid]

end AdmissionSnapshot

section Tracks
variable (localeCompare : Comparator String) (snapshot : AdmissionSnapshot) (now : Instant)
  (options : PlannerOptions)

/-- The planner's state is the state a new pass would start from, over the snapshot with the
plan's grants applied. -/
structure Tracks (s : ReferenceState) : Prop where
  kept : snapshot.Kept (snapshot.applyGrants s.grants)
  active : s.active = (snapshot.applyGrants s.grants).active
  activeByOwner : s.activeByOwner = (snapshot.applyGrants s.grants).activeByOwner
  scopeActive : s.scopeActive = (snapshot.applyGrants s.grants).scopeActive
  scheduler : s.scheduler = (snapshot.applyGrants s.grants).scheduler
  entries : s.entries =
    referenceEntries localeCompare (snapshot.applyGrants s.grants) now options

theorem tracks_initial :
    Tracks localeCompare snapshot now options
      (referenceInitial localeCompare snapshot now options) :=
  ⟨.refl _, rfl, rfl, rfl, rfl, rfl⟩

variable {localeCompare snapshot now options}

theorem Tracks.wellFormed (h : Tracks localeCompare snapshot now options s) : s.Entries := by
  intro e he
  rw [h.entries] at he
  exact (mem_referenceEntries.mp he).1

/-- Removing a request before or after sorting is the same. -/
theorem referenceEntries_filter (post : AdmissionSnapshot) (req : String) :
    (referenceEntries localeCompare post now options).filter
        (fun e => decide (e.waiter.admissionRequestId ≠ req)) =
      referenceEntries localeCompare { post with
        waiters := post.waiters.filter (fun w => decide (w.admissionRequestId ≠ req)) }
        now options := by
  simp only [referenceEntries]
  rw [← sort_filter, filter_map, filter_filter, filter_filter]
  congr 2
  exact filter_congr fun w _ => Bool.and_comm _ _

/-- A grant keeps track of the waiters. -/
theorem Tracks.applyGrant (hd : snapshot.DistinctWaiters)
    (h : Tracks localeCompare snapshot now options s) (hw : win ∈ s.entries) (flag : Bool)
    (scheduler : SchedulerState) :
    Tracks localeCompare snapshot now options (s.applyGrant win.waiter flag scheduler) := by
  rw [h.entries] at hw
  have hm := (mem_referenceEntries.mp hw).2.1
  have ha : snapshot.applyGrants (s.applyGrant win.waiter flag scheduler).grants =
      { snapshot.applyGrants s.grants with
        active := (snapshot.applyGrants s.grants).active + 1
        activeByOwner := (snapshot.applyGrants s.grants).activeByOwner.set win.waiter.ownerKey
          (((snapshot.applyGrants s.grants).activeByOwner.get win.waiter.ownerKey).getD 0 + 1)
        scopeActive := countScopes (snapshot.applyGrants s.grants).scopeActive
          win.waiter.leaseScopeKeys
        waiters := (snapshot.applyGrants s.grants).waiters.filter
          (fun w => decide (w.admissionRequestId ≠ win.waiter.admissionRequestId))
        scheduler := scheduler } := by
    change snapshot.applyGrants (s.grants ++ [_]) = _
    rw [applyGrants_append, AdmissionSnapshot.applyGrant, find_waiter (h.kept.distinct hd) hm]
  refine ⟨?_, ?_, ?_, ?_, ?_, ?_⟩
  · change snapshot.Kept (snapshot.applyGrants (s.grants ++ [_]))
    rw [applyGrants_append]
    exact h.kept.applyGrant _
  · rw [ha]
    exact congrArg (· + 1) h.active
  · rw [ha]
    simp only [ReferenceState.applyGrant, grant, ownerActive, h.activeByOwner]
  · rw [ha]
    exact congrArg (countScopes · win.waiter.leaseScopeKeys) h.scopeActive
  · rw [ha]
    rfl
  · rw [ha]
    simp only [ReferenceState.applyGrant]
    rw [h.entries, referenceEntries_filter]
    rfl

end Tracks

/-! ## A small capacity

Two slots, one of them kept by an owner whose only waiter is in the lowest class,
behind two waiters of the highest that may borrow. -/

namespace KeptSlotSample

/-- A collation, by length. -/
def collation : Comparator String := Comparator.difference.comap (fun s => (s.length : Int))

/-- A waiter of the test data. -/
def waiter (waiterId request owner : String) (priority sequence : Int) : PlannerWaiter where
  waiterId := waiterId
  admissionRequestId := request
  deadlineAt := none
  requestDeadlineAt := none
  candidateOrder := 0
  enqueueSequence := sequence
  priority := priority
  notBefore := none
  ownerKey := owner
  scopeLimits := [⟨"pool:p", 3⟩]
  borrowReserved := true
  leaseScopeKeys := ["pool:p"]

/-- Three waiters for two places. -/
def snapshot : AdmissionSnapshot where
  capacityLimit := some 2
  active := 0
  activeByOwner := OrderedMap.empty
  reservationsByOwner := OrderedMap.empty.set "member:kept" 1
  scopeActive := OrderedMap.empty.set "pool:p" 0
  waiters := [waiter "w1" "r1" "member:other" 2 1, waiter "w2" "r2" "member:other" 2 2,
    waiter "w3" "r3" "member:kept" 0 3]
  scheduler := ⟨2, [0, 0, 0], schedulerVersion⟩

theorem snapshot_distinct : snapshot.DistinctWaiters := by decide

end KeptSlotSample

end ModelProxy.Capacity
