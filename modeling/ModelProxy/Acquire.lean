import ModelProxy.CapacityStore

/-! # Acquiring a slot

`acquire` creates an attempt or polls one.  A new attempt is resolved against the
graph, given its schedule on the database clock and queued on every candidate's
capacity; a poll ends what has expired.  Both then run one admission pass on each
capacity, in candidate order, and report what became of the request.
-/
namespace ModelProxy.Capacity

/-! ## Schedules -/

/-- A number of milliseconds as a caller gives it. -/
inductive Millis
  | finite (value : Rat)
  | notFinite
deriving DecidableEq, Repr

/-- Where a request could go. -/
structure AdmissionCandidate where
  capacityId : String
  executionTargetId : String
  poolMemberId : Option String
  candidateOrder : Int
  deadlineAt : Option Instant
  waitBudgetMs : Option Millis
  notBeforeMs : Option Millis
deriving DecidableEq, Repr

/-- When the attempt before this one started. -/
structure ScheduleAnchor where
  at_ : Instant
  spillDelayMs : Millis
deriving DecidableEq, Repr

/-- When a candidate may be granted. -/
structure CandidateSchedule where
  notBefore : Option Instant
  deadlineAt : Instant
deriving DecidableEq, Repr

/-- MAX_CANDIDATE_NOT_BEFORE_MS -/
def maxCandidateNotBeforeMs : Int := 30000

/-- DEFERRED_MIN_ELIGIBLE_WINDOW_MS -/
def deferredMinEligibleWindowMs : Int := 250

/-- A delay within its bounds. -/
def boundedNotBeforeMs : Option Millis → Int
  | some (.finite value) => min maxCandidateNotBeforeMs (max 0 ⌊value⌋)
  | _ => 0

/-- The deadline of a candidate whose wait budget counts from `spillAt`. -/
def candidateDeadlineAt (candidate : AdmissionCandidate) (attemptDeadlineAt now spillAt : Instant) :
    Instant :=
  let upperBound := candidate.deadlineAt.getD attemptDeadlineAt
  match candidate.waitBudgetMs with
  | none => upperBound
  | some budget =>
    let budgetMs : Int :=
      match budget with
      | .finite value => max 0 ⌊value⌋
      | .notFinite => 0
    let relative := spillAt +
      (if spillAt > now then max budgetMs deferredMinEligibleWindowMs else budgetMs)
    if relative < upperBound then relative else upperBound

/-- The spill-over instant of a candidate, before it is clamped to now. -/
def scheduledNotBefore (attemptDeadlineAt base : Instant) (candidate : AdmissionCandidate) :
    Option Instant :=
  let delayMs := boundedNotBeforeMs candidate.notBeforeMs
  if delayMs = 0 then none
  else
    let upperBound := candidate.deadlineAt.getD attemptDeadlineAt
    some (if base + delayMs < upperBound then base + delayMs else upperBound)

/-- The time delays are counted from. -/
def scheduleBase (now : Instant) : Option ScheduleAnchor → Instant
  | some anchor => if anchor.at_ < now then anchor.at_ else now
  | none => now

/-- The latest spill-over instant of the attempt. -/
def spillInstant (candidates : List AdmissionCandidate) (attemptDeadlineAt now : Instant)
    (anchor : Option ScheduleAnchor) : Instant :=
  let base := scheduleBase now anchor
  let anchored :=
    match anchor with
    | some anchor => base + boundedNotBeforeMs (some anchor.spillDelayMs)
    | none => base
  candidates.foldl
    (fun latest c => max latest ((scheduledNotBefore attemptDeadlineAt base c).getD 0)) anchored

/-- The durable schedule of every candidate of a new attempt. -/
def candidateSchedules (candidates : List AdmissionCandidate) (attemptDeadlineAt now : Instant)
    (anchor : Option ScheduleAnchor) : List CandidateSchedule :=
  let base := scheduleBase now anchor
  let spillAt := spillInstant candidates attemptDeadlineAt now anchor
  candidates.map (fun candidate =>
    let notBefore := (scheduledNotBefore attemptDeadlineAt base candidate).filter
      (fun scheduled => decide (scheduled > now))
    let planned := candidateDeadlineAt candidate attemptDeadlineAt base spillAt
    let deadlineAt :=
      if planned < now then
        let upperBound := candidate.deadlineAt.getD attemptDeadlineAt
        if upperBound < now then upperBound else now
      else planned
    { notBefore := notBefore
      deadlineAt :=
        match notBefore with
        | some spill => if deadlineAt < spill then spill else deadlineAt
        | none => deadlineAt })

/-! ### Retries -/

/-- What a plan comes to at an instant: instants already past are clamped to it. -/
def clampSchedule (upperBound now planned : Int) (scheduled : Option Int) : CandidateSchedule :=
  let notBefore := scheduled.filter fun scheduled => decide (scheduled > now)
  let deadlineAt := if planned < now then min upperBound now else planned
  ⟨notBefore, notBefore.elim deadlineAt (max deadlineAt)⟩

/-- A candidate that waits is admitted after `now` at the earliest and expires no sooner, by
its upper bound. -/
structure CandidateSchedule.Within (now upperBound : Instant) (schedule : CandidateSchedule) :
    Prop where
  notBefore : ∀ t, schedule.notBefore = some t → now < t ∧ t ≤ schedule.deadlineAt
  deadlineAt : schedule.deadlineAt ≤ upperBound

section Clamp
variable {upperBound now later planned : Int} {scheduled : Option Int}

/-- No instant of a clamped schedule lies outside its bounds. -/
theorem clampSchedule_within (hs : ∀ t ∈ scheduled, t ≤ upperBound) (hl : planned ≤ upperBound) :
    (clampSchedule upperBound now planned scheduled).Within now upperBound := by
  have hd : (if planned < now then min upperBound now else planned) ≤ upperBound := by
    split <;> omega
  unfold clampSchedule
  cases hp : scheduled.filter fun scheduled => decide (scheduled > now) with
  | none => exact ⟨nofun, hd⟩
  | some spill =>
    obtain ⟨hm, hn⟩ := Option.filter_eq_some_iff.mp hp
    refine ⟨?_, max_le hd (hs spill hm)⟩
    rintro _ ⟨⟩
    exact ⟨of_decide_eq_true hn, le_max_right _ _⟩

/-- Later on less is left of a plan. -/
theorem clampSchedule_later (hle : now ≤ later) :
    (clampSchedule upperBound later planned scheduled).deadlineAt ≤
        max (clampSchedule upperBound now planned scheduled).deadlineAt (min later upperBound) ∧
      ((clampSchedule upperBound later planned scheduled).notBefore = none ∨
        (clampSchedule upperBound later planned scheduled).notBefore =
          (clampSchedule upperBound now planned scheduled).notBefore) := by
  have hd : (if planned < later then min upperBound later else planned) ≤
      max (if planned < now then min upperBound now else planned) (min later upperBound) := by
    split_ifs <;> omega
  unfold clampSchedule
  cases hl : scheduled.filter fun scheduled => decide (scheduled > later) with
  | none =>
    refine ⟨hd.trans (max_le_max_right _ ?_), .inl rfl⟩
    cases scheduled.filter fun scheduled => decide (scheduled > now) with
    | none => exact le_refl _
    | some spill => exact le_max_left _ _
  | some spill =>
    -- what lies after `later` lies after `now`
    obtain ⟨hm, hs⟩ := Option.filter_eq_some_iff.mp hl
    have hn : scheduled.filter (fun scheduled => decide (scheduled > now)) = some spill := by
      refine Option.filter_eq_some_iff.mpr ⟨hm, decide_eq_true ?_⟩
      exact hle.trans_lt (of_decide_eq_true hs)
    rw [hn]
    refine ⟨max_le (hd.trans (max_le_max_right _ (le_max_left _ _))) ?_, .inr rfl⟩
    exact (le_max_right _ _).trans (le_max_left _ _)

end Clamp

section Retry
variable {candidates : List AdmissionCandidate} {candidate : AdmissionCandidate}

theorem candidateDeadlineAt_le (candidate : AdmissionCandidate)
    (attemptDeadlineAt now spillAt : Instant) :
    candidateDeadlineAt candidate attemptDeadlineAt now spillAt ≤
      candidate.deadlineAt.getD attemptDeadlineAt := by
  unfold candidateDeadlineAt
  split
  · exact le_refl _
  · rw [← min_def_lt]
    exact min_le_right _ _

theorem scheduledNotBefore_le {attemptDeadlineAt base : Instant} (t : Instant)
    (h : t ∈ scheduledNotBefore attemptDeadlineAt base candidate) :
    t ≤ candidate.deadlineAt.getD attemptDeadlineAt := by
  unfold scheduledNotBefore at h
  dsimp only at h
  rw [← min_def_lt] at h
  split at h
  · cases h
  · obtain rfl := Option.some.inj h
    exact min_le_right _ _

theorem candidateSchedules_getElem? {i : ℕ} (h : candidates[i]? = some candidate)
    (deadline now : Instant) (anc : Option ScheduleAnchor) :
    (candidateSchedules candidates deadline now anc)[i]? =
      some (clampSchedule (candidate.deadlineAt.getD deadline) now
        (candidateDeadlineAt candidate deadline (scheduleBase now anc)
          (spillInstant candidates deadline now anc))
        (scheduledNotBefore deadline (scheduleBase now anc) candidate)) := by
  rw [candidateSchedules, List.getElem?_map, h, Option.map_some, Option.some.injEq]
  unfold clampSchedule
  simp only [← min_def_lt, ← max_def_lt]
  generalize (scheduledNotBefore _ _ candidate).filter _ = notBefore
  cases notBefore <;> rfl

variable {start now : Instant}

theorem scheduleBase_anchor (hle : start ≤ now) (spillDelayMs : Millis) :
    scheduleBase now (some ⟨start, spillDelayMs⟩) = start := by
  rw [scheduleBase, ← min_def_lt]
  exact min_eq_left hle

/-- **A retry round never extends the schedule it is anchored to**: whichever candidates are
retried, a deadline only moves to now, and a spill-over instant stays or has passed. -/
theorem candidateSchedules_retry (candidates retried : List AdmissionCandidate)
    (attemptDeadlineAt : Instant) (spillDelayMs : Millis) (hle : start ≤ now) :
    (∀ (i : ℕ) candidate, candidates[i]? = some candidate → ∃ first,
      (candidateSchedules candidates attemptDeadlineAt start none)[i]? = some first ∧
      first.Within start (candidate.deadlineAt.getD attemptDeadlineAt)) ∧
    ∀ (i : ℕ) candidate, retried[i]? = some candidate → ∃ atStart retry,
      (candidateSchedules retried attemptDeadlineAt start
        (some ⟨start, spillDelayMs⟩))[i]? = some atStart ∧
      (candidateSchedules retried attemptDeadlineAt now
        (some ⟨start, spillDelayMs⟩))[i]? = some retry ∧
      retry.Within now (candidate.deadlineAt.getD attemptDeadlineAt) ∧
      retry.deadlineAt ≤ max atStart.deadlineAt
        (min now (candidate.deadlineAt.getD attemptDeadlineAt)) ∧
      (retry.notBefore = none ∨ retry.notBefore = atStart.notBefore ∧
        ∀ (j : ℕ) first, candidates[j]? = some candidate →
          (candidateSchedules candidates attemptDeadlineAt start none)[j]? = some first →
            retry.notBefore = first.notBefore) := by
  refine ⟨fun i candidate h => ?_, fun i candidate h => ?_⟩
  · exact ⟨_, candidateSchedules_getElem? h _ _ _,
      clampSchedule_within scheduledNotBefore_le (candidateDeadlineAt_le _ _ _ _)⟩
  refine ⟨_, _, candidateSchedules_getElem? h _ _ _, candidateSchedules_getElem? h _ _ _,
    clampSchedule_within scheduledNotBefore_le (candidateDeadlineAt_le _ _ _ _), ?_⟩
  rw [spillInstant, spillInstant, scheduleBase_anchor hle, scheduleBase_anchor (le_refl start)]
  obtain ⟨hd, hn⟩ := clampSchedule_later hle
  refine ⟨hd, hn.imp id fun hs => ⟨hs, fun j first hj hf => ?_⟩⟩
  -- the first attempt's spill-over instants are counted from the same base
  rw [candidateSchedules_getElem? hj] at hf
  obtain rfl := Option.some.inj hf
  exact hs

/-- A candidate with no budget, deferred for 100 ms and retried after 50. -/
theorem candidateSchedules_retry_deferred :
    let candidate : AdmissionCandidate :=
      ⟨"capacity", "target", none, 0, none, some (.finite 0), some (.finite 100)⟩
    candidateSchedules [candidate] 1000 50 (some ⟨0, .finite 100⟩) = [⟨some 100, 350⟩] ∧
      ∃ retry, (candidateSchedules [candidate] 1000 50 (some ⟨0, .finite 100⟩))[0]? = some retry ∧
        retry.Within 50 1000 := by
  intro candidate
  obtain ⟨-, hr⟩ := candidateSchedules_retry [candidate] [candidate] 1000 (.finite 100)
    (by decide : (0 : Int) ≤ 50)
  obtain ⟨-, retry, -, hg, hw, -⟩ := hr 0 candidate rfl
  exact ⟨by decide +kernel, retry, hg, hw⟩

end Retry

/-! ## Candidates -/

/-- What an attempt says of its schedule. -/
structure AttemptSchedule where
  anchorAttemptId : String
  spillDelayMs : Millis
deriving DecidableEq, Repr

/-- What a caller asks to admit. -/
structure AdmissionAttempt where
  attemptId : String
  requestId : String
  relayRequestId : Option String
  ownerId : String
  sourceKind : AdmissionSourceKind
  poolId : Option String
  basePriority : Int
  priorityShareId : Option String
  warmSessionIds : List String
  connectionOwner : String
  deadlineAt : Instant
  candidates : List AdmissionCandidate
  schedule : Option AttemptSchedule
  metricFailOpen : Option Bool
deriving DecidableEq, Repr

/-- A candidate with the policy it is queued under. -/
structure ResolvedCandidate extends AdmissionCandidate where
  priority : Int
  memberConcurrencyCeiling : Option Int
  poolConcurrencyCeiling : Option Int
  concurrencyScope : String
  concurrencyScopeId : String
  reservedSlots : Int
  allowBorrowReserved : Bool
deriving DecidableEq, Repr

/-- The class of the share a pool admission runs under. -/
def resolveSharePriority (g : Graph) (attempt : AdmissionAttempt) : Option Int :=
  match attempt.sourceKind, present attempt.poolId, present attempt.priorityShareId with
  | .pool, some poolId, some shareId => do
      let share ← g.share? shareId
      if share.poolId = poolId ∧ share.ownerUserId = attempt.ownerId then
        share.priorityClass.map priorityClassRank
      else none
  | _, _, _ => none

/-- Orders are nonnegative, orders and targets unique. -/
def checkCandidates : List AdmissionCandidate → List Int → List String → Except StoreError Unit
  | [], _, _ => .ok ()
  | candidate :: candidates, orders, targets =>
    if candidate.candidateOrder < 0 then
      .error (.error "Admission candidate order must be a nonnegative integer.")
    else if candidate.candidateOrder ∈ orders ∨ candidate.executionTargetId ∈ targets then
      .error (.error "Admission candidates must have unique order and execution targets.")
    else
      checkCandidates candidates (candidate.candidateOrder :: orders)
        (candidate.executionTargetId :: targets)

/-- The target of a contributed member belongs to the share's grantee, who still
may contribute and whose account is active. -/
def contributionAuthorized (g : Graph) (processNow : Instant) (poolId : String)
    (member : PoolMember) (target : ExecutionTarget) : Bool :=
  match member.shareId.bind g.share? with
  | none => false
  | some share =>
    share.canContribute && decide (share.poolId = poolId) &&
      decide (share.granteeUserId = target.userId) &&
      !(g.user? share.granteeUserId).any
        (fun user => userCredentialAccessBlocked user processNow)

/-- A direct test: normal class, no scope limit, keeps nothing, may borrow. -/
def resolveTest (attempt : AdmissionAttempt) (candidate : AdmissionCandidate)
    (target : ExecutionTarget) : Except StoreError ResolvedCandidate :=
  if (present attempt.poolId).isSome || (present candidate.poolMemberId).isSome ||
      decide (attempt.candidates.length ≠ 1) then
    .error (.error "A test admission has exactly one served-model target.")
  else
    .ok { candidate with
      priority := normalPriorityRank
      memberConcurrencyCeiling := none
      poolConcurrencyCeiling := none
      concurrencyScope := "TEST"
      concurrencyScopeId := target.id
      reservedSlots := 0
      allowBorrowReserved := true }

/-- A pool candidate.  A contributed member runs on its contributor's hardware: it
never outranks or holds back the contributor's own traffic. -/
def resolvePoolCandidate (g : Graph) (processNow : Instant) (attempt : AdmissionAttempt)
    (shareQueuePriority : Option Int) (routing : Option PoolRouting)
    (candidate : AdmissionCandidate) (target : ExecutionTarget) :
    Except StoreError ResolvedCandidate :=
  match present attempt.poolId, present candidate.poolMemberId, routing with
  | some poolId, some memberId, some routing =>
    match (g.member? memberId).filter (fun member => decide (member.poolId = poolId) &&
        decide (member.kind = .onNode) && decide (member.runtimeModelId = target.runtimeModelId) &&
        (g.pool? poolId).any (fun pool => decide (pool.userId = attempt.ownerId))) with
    | none => .error (.error "Admission pool candidate is not a member of the requested pool.")
    | some member =>
      if decide (target.userId ≠ attempt.ownerId) &&
          !contributionAuthorized g processNow poolId member target then
        .error (.error "The contribution is no longer authorized.")
      else
        let contributed := member.shareId.isSome
        .ok { candidate with
          priority :=
            if contributed then priorityClassRank .background
            else shareQueuePriority.getD (priorityClassRank routing.priorityClass)
          memberConcurrencyCeiling := routing.concurrencyLimit
          poolConcurrencyCeiling := none
          concurrencyScope := "POOL"
          concurrencyScopeId := poolId
          reservedSlots := if contributed then 0 else routing.keptSlots
          allowBorrowReserved := contributed || routing.borrowKept }
  | _, _, _ =>
    .error (.error "Pool admission requires a pool and member for every candidate.")

/-- What the database says of a candidate. -/
def resolveCandidate (g : Graph) (processNow : Instant) (attempt : AdmissionAttempt)
    (shareQueuePriority : Option Int) (routing : Option PoolRouting)
    (candidate : AdmissionCandidate) : Except StoreError ResolvedCandidate :=
  match (g.target? candidate.executionTargetId).filter (fun target =>
      (decide (attempt.sourceKind ≠ .test) || decide (target.userId = attempt.ownerId)) &&
        decide (target.instanceId = some candidate.capacityId)) with
  | none =>
    .error (.error "Admission candidate does not belong to the requested owner and instance.")
  | some target =>
    match attempt.sourceKind with
    | .test => resolveTest attempt candidate target
    | .pool =>
      resolvePoolCandidate g processNow attempt shareQueuePriority routing candidate target

/-- Every candidate resolved. -/
def resolveCandidates (g : Graph) (processNow : Instant) (attempt : AdmissionAttempt)
    (shareQueuePriority : Option Int) : Except StoreError (List ResolvedCandidate) :=
  if attempt.candidates.isEmpty then
    .error (.error "Admission requires at least one candidate.")
  else do
    let routing :=
      match attempt.sourceKind, present attempt.poolId with
      | .pool, some poolId => ((g.pool? poolId).filter
          (fun pool => decide (pool.userId = attempt.ownerId))).bind Pool.routing
      | _, _ => none
    checkCandidates attempt.candidates [] []
    attempt.candidates.mapM (resolveCandidate g processNow attempt shareQueuePriority routing)

/-! ## The transaction -/

/-- A heartbeat that commits between two statements of another transaction. -/
structure Renewal where
  lease : CapacityLeaseHandle
  extensionMs : Option Int
  now : Instant

/-- A lease the caller holds is renewed. -/
def renew (s : Store) (renewal : Renewal) : Store :=
  match heartbeat renewal.now renewal.lease renewal.extensionMs s with
  | .error _ => s
  | .ok result => result.2

/-- What an acquire takes from outside the database. -/
structure AcquireEnv extends FillEnv where
  observedAt : Instant
  lockedNow : Instant
  processNow : Instant
  /-- The id generated for a new request. -/
  requestId : String
  /-- The id generated for a new request's waiter. -/
  waiterId : Nat → String
  renewedBeforeRead : List Renewal
  renewedBeforeWrite : List Renewal

/-- The answer of `acquire`. -/
inductive AdmissionResult
  | admitted (lease : CapacityLeaseHandle)
  | waiting (requestId : String)
  | cancelled
  | expired
deriving DecidableEq, Repr

/-- Why a request has no live candidate. -/
def noLiveCandidateReason (s : Store) (requestId : String) : String :=
  if s.waiters.any (fun w => decide (w.admissionRequestId = requestId) &&
      decide (w.terminalReason = some memberUnroutableReason)) then memberUnroutableReason
  else "candidate_deadlines"

/-- The capacities of rows in candidate order, each once. -/
def capacitiesInOrder {α : Type} (order : α → Int) (capacityId : α → String) (rows : List α) :
    List String :=
  (((Comparator.difference.comap order).sort rows).map capacityId).eraseDups

/-- Reclaim the own lease that has expired, unless a heartbeat renews it first. -/
def reclaimOwnLease (env : AcquireEnv) (existing : AdmissionRequest) (lease : CapacityLease)
    (s : Store) : Except StoreError (AdmissionResult × Store) :=
  let read := env.renewedBeforeRead.foldl renew s
  match read.lease? lease.id with
  | none => .error .notFound
  | some current =>
    if current.state = .active ∧ current.expiresAt > env.lockedNow then
      .ok (.admitted (leaseHandle current), read)
    else
      let written := env.renewedBeforeWrite.foldl renew read
      let expired := CapacityLease.isExpired lease.id lease.fencingToken env.lockedNow
      let reclaimed :=
        written.updateLeases expired (CapacityLease.retire .reclaimed env.lockedNow "expired")
      match reclaimed.lease? lease.id with
      | none => .error .notFound
      | some renewed =>
        if written.leases.any expired = false ∧ renewed.state = .active then
          .ok (.admitted (leaseHandle renewed), reclaimed)
        else
          .ok (.expired, reclaimed.updateRequests (fun r => decide (r.id = existing.id))
            (AdmissionRequest.close .terminal env.lockedNow "lease_expired"))

/-- A request without live candidates ends here. -/
def expireRequest (s : Store) (requestId : String) (now : Instant) : Store :=
  s.updateRequests (fun r => decide (r.id = requestId))
    (AdmissionRequest.close .expired now (noLiveCandidateReason s requestId))

/-- The admission passes of an attempt and what they leave: a zero budget and a
last chance had their one check in them. -/
def offer (env : AcquireEnv) (g : Graph) (requestId : String) (creating : Bool)
    (lastChanceWaiterIds : List String) (capacityIds : List String) (s : Store) :
    Except StoreError (AdmissionResult × Store) := do
  let now := env.observedAt
  let admitted ← admitCapacities env.toFillEnv g now
    { requestId := some requestId
      creatingRequestId := if creating then some requestId else none
      lastChanceWaiterIds := lastChanceWaiterIds } capacityIds s
  match (admitted.leaseOf? requestId).filter (fun lease => decide (lease.state = .active)) with
  | some lease => .ok (.admitted (leaseHandle lease), admitted)
  | none =>
    let swept := admitted.updateWaiters (fun w => decide (w.admissionRequestId = requestId) &&
        decide (w.state = .waiting) && reached w.deadlineAt now)
      (CapacityWaiter.close .expired now (some "candidate_deadline"))
    if (swept.waitersOf requestId).any (fun w => decide (w.state = .waiting)) then
      .ok (.waiting requestId, swept)
    else .ok (.expired, expireRequest swept requestId now)

/-- Deferred waiters whose owner has not polled since they became eligible. -/
def lastChanceWaiters (s : Store) (existing : AdmissionRequest) (observedAt : Instant) :
    List String :=
  ((s.waitersOf existing.id).filter (fun w => decide (w.state = .waiting) &&
    w.notBefore.any (fun notBefore => decide (notBefore > existing.heartbeatAt)) &&
    reached w.deadlineAt observedAt)).map CapacityWaiter.id

/-- The poll of a request that waits. -/
def pollWaiting (env : AcquireEnv) (g : Graph) (attempt : AdmissionAttempt)
    (existing : AdmissionRequest) (capacityIds : List String) (s : Store) :
    Except StoreError (AdmissionResult × Store) :=
  let now := env.observedAt
  let lastChance := lastChanceWaiters s existing now
  let swept := s.updateWaiters (fun w => decide (w.admissionRequestId = existing.id) &&
      decide (w.state = .waiting) && reached w.deadlineAt now && decide (w.id ∉ lastChance))
    (CapacityWaiter.close .expired now (some "candidate_deadline"))
  if (swept.waitersOf existing.id).any (fun w => decide (w.state = .waiting) &&
      (!reached w.deadlineAt now || decide (w.id ∈ lastChance))) then
    offer env g existing.id false lastChance capacityIds
      (swept.updateRequests (fun r => decide (r.id = existing.id))
        (fun r => { r with heartbeatAt := now, connectionOwner := attempt.connectionOwner }))
  else .ok (.expired, expireRequest swept existing.id now)

/-- Give a request without a deadline the attempt's. -/
def repairDeadline (existing : AdmissionRequest) (deadlineAt : Instant) (s : Store) : Store :=
  if existing.deadlineAt.isNone then
    (s.updateRequests (fun r => decide (r.id = existing.id))
        (fun r => { r with deadlineAt := some deadlineAt })
      ).updateWaiters
        (fun w => decide (w.admissionRequestId = existing.id) && w.deadlineAt.isNone)
        (fun w => { w with deadlineAt := some deadlineAt })
  else s

/-- An acquire that finds its attempt. -/
def pollAttempt (env : AcquireEnv) (g : Graph) (attempt : AdmissionAttempt)
    (found : AdmissionRequest) (s : Store) : Except StoreError (AdmissionResult × Store) :=
  let capacityIds := capacitiesInOrder CapacityWaiter.candidateOrder CapacityWaiter.capacityId
    ((s.waitersOf found.id).filter (fun w => decide (w.state = .waiting)))
  let existing := { found with deadlineAt := some (found.deadlineAt.getD attempt.deadlineAt) }
  let s := repairDeadline found attempt.deadlineAt s
  match (s.leaseOf? existing.id).filter (fun lease => decide (lease.state = .active)) with
  | some lease =>
    if lease.expiresAt ≤ env.observedAt then reclaimOwnLease env existing lease s
    else .ok (.admitted (leaseHandle lease), s)
  | none =>
    if existing.state ≠ .waiting then
      .ok (if existing.state = .expired then .expired else .cancelled, s)
    else if reached existing.deadlineAt env.observedAt then
      .ok (.expired, endRequest s existing.id .expired env.observedAt "deadline")
    else pollWaiting env g attempt existing capacityIds s

/-- The anchor of a retry round: an earlier attempt of the same relay request and owner. -/
def scheduleAnchor (s : Store) (attempt : AdmissionAttempt) : Option ScheduleAnchor := do
  let schedule ← attempt.schedule
  let anchor ← s.requestOfAttempt? schedule.anchorAttemptId
  if anchor.userId = attempt.ownerId ∧ anchor.relayRequestId = attempt.relayRequestId then
    some ⟨anchor.enqueuedAt, schedule.spillDelayMs⟩
  else none

/-- The row of a new request. -/
def newRequest (env : AcquireEnv) (attempt : AdmissionAttempt) (grantQueuePriority : Option Int)
    (enqueueSequence : Int) : AdmissionRequest where
  id := env.requestId
  userId := attempt.ownerId
  requestId := attempt.requestId
  relayRequestId := attempt.relayRequestId
  attemptId := attempt.attemptId
  sourceKind := attempt.sourceKind
  poolId := attempt.poolId
  testTargetId :=
    if attempt.sourceKind = .test then
      attempt.candidates.head?.map AdmissionCandidate.executionTargetId
    else none
  basePriority := grantQueuePriority.getD attempt.basePriority
  priorityShareId := grantQueuePriority.bind (fun _ => attempt.priorityShareId)
  warmSessionIds := attempt.warmSessionIds.eraseDups
  enqueueSequence := enqueueSequence
  enqueuedAt := if attempt.deadlineAt < env.observedAt then attempt.deadlineAt else env.observedAt
  deadlineAt := some attempt.deadlineAt
  connectionOwner := attempt.connectionOwner
  heartbeatAt := env.observedAt
  state := .waiting
  terminalAt := none
  terminalReason := none
  metricFailOpen := attempt.metricFailOpen.getD true

/-- The row of a new waiter. -/
def newWaiter (env : AcquireEnv) (attempt : AdmissionAttempt) (enqueueSequence : Int)
    (candidate : ResolvedCandidate) (schedule : CandidateSchedule) (index : Nat) :
    CapacityWaiter where
  id := env.waiterId index
  userId := attempt.ownerId
  admissionRequestId := env.requestId
  requestId := attempt.requestId
  attemptId := attempt.attemptId
  enqueueSequence := enqueueSequence
  capacityId := candidate.capacityId
  executionTargetId := candidate.executionTargetId
  poolId := attempt.poolId
  poolMemberId := candidate.poolMemberId
  candidateOrder := candidate.candidateOrder
  deadlineAt := some schedule.deadlineAt
  notBefore := schedule.notBefore
  effectivePriority := candidate.priority
  effectiveConcurrencyLimit := candidate.memberConcurrencyCeiling
  effectiveConcurrencyScope := candidate.concurrencyScope
  effectiveConcurrencyScopeId := candidate.concurrencyScopeId
  effectiveReservedSlots := candidate.reservedSlots
  effectiveBorrowReserved := candidate.allowBorrowReserved
  effectivePoolConcurrencyLimit := candidate.poolConcurrencyCeiling
  state := .waiting
  stateChangedAt := env.observedAt
  terminalReason := none

/-- Insert a request with its waiters; a generated id that is taken aborts. -/
def insertRequest (s : Store) (request : AdmissionRequest) (waiters : List CapacityWaiter) :
    Except StoreError Store :=
  if request.id ∉ s.requests.map AdmissionRequest.id ∧
      ((s.waiters ++ waiters).map CapacityWaiter.id).Nodup then
    .ok { s with
      requests := s.requests ++ [request]
      waiters := s.waiters ++ waiters
      enqueueSequence := request.enqueueSequence }
  else .error .uniqueViolation

/-- An acquire that does not find its attempt. -/
def createAttempt (env : AcquireEnv) (g : Graph) (attempt : AdmissionAttempt) (s : Store) :
    Except StoreError (AdmissionResult × Store) := do
  let grantQueuePriority := resolveSharePriority g attempt
  let resolved ← resolveCandidates g env.processNow attempt grantQueuePriority
  let schedules := candidateSchedules (resolved.map ResolvedCandidate.toAdmissionCandidate)
    attempt.deadlineAt env.observedAt (scheduleAnchor s attempt)
  let enqueueSequence := s.enqueueSequence + 1
  let waiters := (resolved.zip schedules).zipIdx.map
    (fun e => newWaiter env attempt enqueueSequence e.1.1 e.1.2 e.2)
  let created ← insertRequest s (newRequest env attempt grantQueuePriority enqueueSequence) waiters
  offer env g env.requestId true []
    (capacitiesInOrder AdmissionCandidate.candidateOrder AdmissionCandidate.capacityId
      attempt.candidates) created

/-- One call of `acquire`. -/
def acquire (env : AcquireEnv) (g : Graph) (attempt : AdmissionAttempt) (aborted : Bool)
    (s : Store) : Except StoreError (AdmissionResult × Store) := do
  let _ ← (assertPriority attempt.basePriority).mapError .range
  if aborted then .ok (.cancelled, s)
  else
    match s.requestOfAttempt? attempt.attemptId with
    | some existing => pollAttempt env g attempt existing s
    | none => createAttempt env g attempt s

end ModelProxy.Capacity
