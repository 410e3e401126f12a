import ModelProxy.AdmissionPlanner
import ModelProxy.CapacityTables
import Mathlib.Data.Rat.Floor

/-! # The read phase of an admission pass

`readAdmissionSnapshot` runs the deadline and routability sweeps of one capacity
and then takes one snapshot of everything the planner needs: the limit, the
active leases, the queued waiters whose graph parents are alive and not
metric-full, the kept slots and the lease counts of their scopes.
-/
namespace ModelProxy.Capacity

/-! ## The limit of an instance -/

/-- The limit an engine has if none is set. -/
def engineDefaultConcurrency : Option Engine → Option Int
  | some .ollama => some 1
  | some .lmStudio => some 4
  | _ => none

/-- The version's override, else the observed slots, else the engine's default. -/
def effectiveInstanceConcurrency (override engineSlots : Option Int) (engine : Option Engine) :
    Option Int :=
  match override, engineSlots with
  | some limit, _ => some limit
  | none, some slots => some slots
  | none, none => engineDefaultConcurrency engine

/-- How many requests an instance takes at a time. -/
def RuntimeInstance.hardConcurrencyLimit (runtime : RuntimeInstance) : Option Int :=
  effectiveInstanceConcurrency runtime.concurrencyLimit runtime.engineSlots runtime.engine

/-! ## Concurrency scopes -/

/-- A limit a waiter is under. -/
structure WaiterScopeLimit extends ScopeLimit where
  scope : String
  scopeId : String
deriving DecidableEq, Repr

/-- Every concurrency ceiling a waiter is bound by: its own scope when that has a
limit, and the pool-wide cap. -/
def waiterScopeLimits (waiter : CapacityWaiter) : List WaiterScopeLimit :=
  (match waiter.effectiveConcurrencyLimit with
    | none => []
    | some limit =>
      [{ key := waiter.effectiveConcurrencyScope ++ ":" ++ waiter.effectiveConcurrencyScopeId
         scope := waiter.effectiveConcurrencyScope
         scopeId := waiter.effectiveConcurrencyScopeId
         limit := limit }]) ++
  (match waiter.effectivePoolConcurrencyLimit, present waiter.poolId with
    | some limit, some poolId =>
      [{ key := "POOL:" ++ poolId, scope := "POOL", scopeId := poolId, limit := limit }]
    | _, _ => [])

/-- What a limit is on. -/
inductive ScopeKind
  | pool
  | target
deriving DecidableEq, Repr

/-- The kind of a scope's name. -/
def scopeKind (scope : String) : ScopeKind := if scope = "POOL" then .pool else .target

/-- The active leases of one scope, over all capacities. -/
def scopeCount (s : Store) (kind : ScopeKind) (scopeId : String) : Nat :=
  if scopeId = "" then 0
  else s.leases.countP (fun l => decide (l.state = .active) &&
    match kind with
    | .pool => decide (l.poolId = some scopeId)
    | .target => decide (l.executionTargetId = scopeId))

/-- The limits some waiter is under. -/
def scopeKeys (waiters : List CapacityWaiter) : OrderedMap String (ScopeKind × String) :=
  OrderedMap.ofList
    ((waiters.flatMap waiterScopeLimits).map (fun l => (l.key, scopeKind l.scope, l.scopeId)))

/-- The counts of every scope some waiter is limited by, one kind after the other. -/
def scopeCounts (s : Store) (waiters : List CapacityWaiter) : OrderedMap String Nat :=
  OrderedMap.ofList ([ScopeKind.pool, ScopeKind.target].flatMap (fun kind =>
    ((scopeKeys waiters).entries.filter (fun e => decide (e.2.1 = kind))).map
      (fun e => (e.1, scopeCount s kind e.2.2))))

/-! ## Kept slots -/

/-- Slots kept for an owner. -/
structure ReservationShare where
  ownerKey : String
  slots : Int
  remainder : Rat
deriving DecidableEq, Repr

/-- Largest remainder first, equal remainders by the owner's key. -/
def byRemainder (localeCompare : Comparator String) : Comparator ReservationShare :=
  (Comparator.sign.comap ReservationShare.remainder).flip.thenBy
    (localeCompare.comap ReservationShare.ownerKey)

/-- The slots kept for each owner. -/
def combineReservations (reservations : List (String × Int)) : OrderedMap String Int :=
  reservations.foldl (fun combined r => combined.set r.1 ((combined.get r.1).getD 0 + r.2))
    OrderedMap.empty

/-- One more slot for each share in order, while slots are left. -/
def assignSlots : Int → List ReservationShare → List ReservationShare
  | _, [] => []
  | unassigned, share :: shares =>
    if unassigned ≤ 0 then share :: shares
    else { share with slots := share.slots + 1 } :: assignSlots (unassigned - 1) shares

/-- The owners' kept slots, scaled down to the physical limit by largest remainder. -/
def allocateReservationSlots (localeCompare : Comparator String)
    (reservations : List (String × Int)) (physicalLimit : Option Int) : OrderedMap String Int :=
  let combined := combineReservations reservations
  let total := combined.values.sum
  match physicalLimit with
  | none => combined
  | some limit =>
    if total ≤ limit then combined
    else
      let shares := combined.entries.map (fun e =>
        let exact : Rat := (e.2 * limit : Int) / (total : Int)
        (⟨e.1, ⌊exact⌋, exact - ⌊exact⌋⟩ : ReservationShare))
      let unassigned := limit - (shares.map ReservationShare.slots).sum
      OrderedMap.ofList
        ((assignSlots unassigned ((byRemainder localeCompare).sort shares)).map
          (fun share => (share.ownerKey, share.slots)))

/-- Models served on a capacity. -/
def servedModels (g : Graph) (capacityId : String) : List String :=
  (g.targets.filter (fun t => decide (t.instanceId = some capacityId))).filterMap
    (fun t => present t.runtimeModelId)

/-- The kept slots of the capacity owner's own pools, one entry per member. -/
def configuredReservations (g : Graph) (capacityId ownerId : String) : List (String × Int) :=
  (g.members.filter (fun m => decide (m.kind = .onNode) && m.shareId.isNone &&
    m.runtimeModelId.any (fun model => decide (model ∈ servedModels g capacityId)))).filterMap
      (fun m => do
        let pool ← g.pool? m.poolId
        let slots := (pool.routing.map PoolRouting.keptSlots).getD 0
        if pool.userId = ownerId ∧ slots > 0 then some ("member:" ++ m.id, slots) else none)

/-- The owner a waiter or lease is accounted to. -/
def ownerKey (poolMemberId : Option String) (executionTargetId : String) : String :=
  match present poolMemberId with
  | some memberId => "member:" ++ memberId
  | none => "direct:" ++ executionTargetId

/-- The leases that hold a capacity's slots. -/
def activeLeases (s : Store) (capacityId : String) : List CapacityLease :=
  s.leases.filter (fun l => decide (l.capacityId = capacityId) && decide (l.state = .active))

/-- How many slots each owner holds. -/
def activeByOwner (leases : List CapacityLease) : OrderedMap String Nat :=
  leases.foldl (fun counts l =>
    let owner := ownerKey l.poolMemberId l.executionTargetId
    counts.set owner ((counts.get owner).getD 0 + 1)) OrderedMap.empty

/-! ## Sweeps -/

/-- A ban that has not run out; an expiry exactly at `now` is still active. -/
def isUserBanned (user : User) (now : Instant) : Bool :=
  decide (user.banned = some true) &&
    match user.banExpires with
    | none => true
    | some expires => decide (expires ≥ now)

/-- The user may not use their credentials. -/
def userCredentialAccessBlocked (user : User) (now : Instant) : Bool :=
  user.deletionRequestedAt.isSome || isUserBanned user now

/-- Drained, zero-weighted, or contributed by someone who no longer may. -/
def memberUnroutable (g : Graph) (now : Instant) (member : PoolMember) : Bool :=
  decide (member.state ≠ .active) || decide (member.weight ≤ 0) ||
    match member.shareId.bind g.share? with
    | none => false
    | some share => !share.canContribute ||
        (g.user? share.granteeUserId).any (fun user => userCredentialAccessBlocked user now)

/-- Open, and its cooldown has not run out. -/
def targetOpenCoolingDown (now : Instant) (target : ExecutionTarget) : Bool :=
  decide (target.health = .unhealthy) &&
    match target.nextRetryAt with
    | none => true
    | some retryAt => decide (retryAt > now)

/-- The waiter waits for the capacity. -/
def CapacityWaiter.queuedOn (capacityId : String) (w : CapacityWaiter) : Bool :=
  decide (w.capacityId = capacityId) && decide (w.state = .waiting)

/-- End a waiter. -/
def CapacityWaiter.close (state : CapacityWaiterState) (now : Instant) (reason : Option String)
    (w : CapacityWaiter) : CapacityWaiter :=
  { w with state := state, stateChangedAt := now, terminalReason := reason }

/-- End a request. -/
def AdmissionRequest.close (state : AdmissionRequestState) (now : Instant) (reason : String)
    (r : AdmissionRequest) : AdmissionRequest :=
  { r with state := state, terminalAt := some now, terminalReason := some reason }

/-- MEMBER_UNROUTABLE_REASON -/
def memberUnroutableReason : String := "member_unroutable"

/-- Why a waiter without a parent is closed. -/
def orphanedReason : String := "parent_deleted"

/-- The deadline sweep: deferred waiters are left to their owner's poll, and the
request created in this transaction keeps its zero-budget waiters. -/
def sweepDeadlines (s : Store) (capacityId : String) (now : Instant)
    (creatingRequestId : Option String) : Store :=
  s.updateWaiters (fun w => w.queuedOn capacityId && reached w.deadlineAt now &&
      w.notBefore.isNone && decide (creatingRequestId ≠ some w.admissionRequestId))
    (CapacityWaiter.close .expired now (some "candidate_deadline"))

/-- The grant-time routability re-check. -/
def sweepUnroutable (g : Graph) (s : Store) (capacityId : String) (now : Instant) : Store :=
  let queued := s.waiters.filter (CapacityWaiter.queuedOn capacityId)
  let queuedMemberIds := queued.filterMap (fun w => present w.poolMemberId)
  let queuedTargetIds := queued.map CapacityWaiter.executionTargetId
  let unroutableMembers :=
    g.members.filter (fun m => decide (m.id ∈ queuedMemberIds) && memberUnroutable g now m)
  let unhealthyTargets :=
    g.targets.filter (fun t => decide (t.id ∈ queuedTargetIds) && targetOpenCoolingDown now t)
  s.updateWaiters (fun w => w.queuedOn capacityId &&
      (w.poolMemberId.any (fun id => decide (id ∈ unroutableMembers.map PoolMember.id)) ||
        decide (w.executionTargetId ∈ unhealthyTargets.map ExecutionTarget.id)))
    (CapacityWaiter.close .cancelled now (some memberUnroutableReason))

/-- Whether the graph still carries a waiter: its target exists on this capacity
and, for a pool candidate, its member still joins that pool and target. -/
def waiterGraphIsLive (g : Graph) (waiter : CapacityWaiter) (capacityId : String) : Bool :=
  match g.target? waiter.executionTargetId with
  | none => false
  | some target => decide (target.instanceId = some capacityId) &&
      match present waiter.poolMemberId with
      | none => true
      | some memberId => (g.member? memberId).any (fun member =>
        decide (some member.poolId = waiter.poolId) &&
          decide (member.runtimeModelId = target.runtimeModelId))

/-- Cancel an orphaned waiter, and its request once no live waiter is left. -/
def cancelOrphanedWaiter (s : Store) (waiter : CapacityWaiter) (now : Instant) : Store :=
  let s' := s.updateWaiters (fun w => decide (w.id = waiter.id) && decide (w.state = .waiting))
    (CapacityWaiter.close .cancelled now (some orphanedReason))
  if (s'.waitersOf waiter.admissionRequestId).any (fun w => decide (w.state = .waiting)) then s'
  else
    match s'.request? waiter.admissionRequestId with
    | none => s'
    | some request =>
      if request.state ≠ .waiting then s'
      else s'.updateRequests (fun r => decide (r.id = waiter.admissionRequestId))
        (AdmissionRequest.close .cancelled now orphanedReason)

/-- A queued waiter with its request, as the read joins them. -/
structure QueuedWaiter where
  waiter : CapacityWaiter
  request : AdmissionRequest
deriving DecidableEq, Repr

/-- The waiting waiters whose request still waits. -/
def queuedWaiters (s : Store) (capacityId : String) : List QueuedWaiter :=
  (s.waiters.filter (CapacityWaiter.queuedOn capacityId)).filterMap (fun w =>
    match s.request? w.admissionRequestId with
    | none => none
    | some request => if request.state = .waiting then some ⟨w, request⟩ else none)

/-- Cancel the queued waiters whose graph parent is gone; the live ones stay. -/
def dropOrphanedWaiters (g : Graph) (capacityId : String) (now : Instant) :
    List QueuedWaiter → Store → List QueuedWaiter × Store
  | [], s => ([], s)
  | q :: qs, s =>
    if waiterGraphIsLive g q.waiter capacityId then
      let rest := dropOrphanedWaiters g capacityId now qs s
      (q :: rest.1, rest.2)
    else dropOrphanedWaiters g capacityId now qs (cancelOrphanedWaiter s q.waiter now)

/-! ## Metric routing -/

/-- The (member, target) pair of a waiter; none for a direct test. -/
def pairOf (waiter : CapacityWaiter) : Option (String × String) :=
  (present waiter.poolMemberId).map (fun memberId => (memberId, waiter.executionTargetId))

/-- A waiter's member and target. -/
def pairKey (waiter : CapacityWaiter) : Option String :=
  waiter.poolMemberId.map (fun memberId => memberId ++ ":" ++ waiter.executionTargetId)

/-- The keys of pairs with a fresh FULL verdict. -/
def metricFullPairs (g : Graph) (pairs : List (String × String)) (now : Instant) : List String :=
  (g.verdicts.filter (fun v => decide (v.poolMemberId ∈ pairs.map Prod.fst) &&
    decide (v.verdict = .full) && decide (v.expiresAt > now))).map
      (fun v => v.poolMemberId ++ ":" ++ v.executionTargetId)

/-- A routing rule calls the waiter's target full. -/
def metricFull (fullPairs : List String) (waiter : CapacityWaiter) : Bool :=
  (pairKey waiter).any (fun key => decide (key ∈ fullPairs))

/-- What the window keeps of a waiter. -/
def QueuedWaiter.window (q : QueuedWaiter) : WindowWaiter where
  waiterId := q.waiter.id
  admissionRequestId := q.waiter.admissionRequestId
  deadlineAt := q.waiter.deadlineAt
  requestDeadlineAt := q.request.deadlineAt

/-- Deferred past the owner's previous poll, deadline reached, request still open. -/
def owedLastChance (q : QueuedWaiter) (now : Instant) : Bool :=
  !reached q.request.deadlineAt now &&
    q.waiter.notBefore.any (fun notBefore => decide (notBefore > q.request.heartbeatAt)) &&
    reached q.waiter.deadlineAt now

/-- The live siblings of the given requests, on any capacity. -/
def liveSiblings (s : Store) (requestIds : List String) (now : Instant)
    (creatingRequestId : Option String) (lastChance : List String) : List QueuedWaiter :=
  ((s.waiters.filter (fun w => decide (w.admissionRequestId ∈ requestIds) &&
    decide (w.state = .waiting))).filterMap (fun w =>
      (s.request? w.admissionRequestId).bind (fun request =>
        if request.state = .waiting then some ⟨w, request⟩ else none))).filter
          (fun q => owedLastChance q now || inWindow q.window now creatingRequestId lastChance)

/-- Waiters that must not be granted because their pair is metric-full.  A request
all of whose live candidates are full falls back to lease-only admission, unless
it was created not to. -/
def metricFullWaiterIds (g : Graph) (s : Store) (waiters : List QueuedWaiter) (now : Instant)
    (creatingRequestId : Option String) (lastChance : List String) : List String :=
  let pairs := waiters.filterMap (fun q => pairOf q.waiter)
  let fullPairs := metricFullPairs g pairs now
  let blocked := waiters.filter (fun q => metricFull fullPairs q.waiter)
  let failOpenCandidates :=
    ((blocked.filter (fun q => q.request.metricFailOpen)).map
      (fun q => q.waiter.admissionRequestId)).eraseDups
  let siblings := liveSiblings s failOpenCandidates now creatingRequestId lastChance
  let seenPairs := pairs.map (fun pair => pair.1 ++ ":" ++ pair.2)
  let unknownPairs := (siblings.filterMap (fun q => pairOf q.waiter)).filter
    (fun pair => decide (pair.1 ++ ":" ++ pair.2 ∉ seenPairs))
  let allFull := fullPairs ++ metricFullPairs g unknownPairs now
  let failOpen := failOpenCandidates.filter (fun requestId =>
    (siblings.filter (fun q => decide (q.waiter.admissionRequestId = requestId))).all
      (fun q => metricFull allFull q.waiter))
  (blocked.filter (fun q => decide (q.waiter.admissionRequestId ∉ failOpen))).map
    (fun q => q.waiter.id)

/-! ## Scheduler rows -/

/-- The state of a scheduler that has not run. -/
def freshScheduler : SchedulerState where
  cursor := priorityClassCount - 1
  deficits := List.replicate priorityClassCount 0
  version := schedulerVersion

/-- The persisted scheduler state; a row of another version or of the wrong shape
restarts the fairness credit. -/
def schedulerStateFromRow : Option CapacityScheduler → SchedulerState
  | none => freshScheduler
  | some row =>
    match row.schedulerDeficits with
    | none => freshScheduler
    | some deficits =>
      if row.schedulerVersion ≠ schedulerVersion ∨ deficits.length ≠ priorityClassCount ∨
          row.schedulerCursor < 0 ∨ row.schedulerCursor ≥ priorityClassCount then freshScheduler
      else
        { cursor := row.schedulerCursor
          deficits := deficits.map (fun entry =>
            match entry with
            | some deficit => if deficit ≥ 0 then deficit else 0
            | none => 0)
          version := schedulerVersion }

/-- A fencing token above every token the capacity ever issued. -/
def firstFencingToken (s : Store) (capacityId : String) : Int :=
  ((s.leases.filter (fun l => decide (l.capacityId = capacityId))).map
    CapacityLease.fencingToken).max?.getD 0 + 1

/-- The capacity's scheduler row, created on first use. -/
def capacityRuntime (s : Store) (capacityId userId : String) : CapacityScheduler × Store :=
  match s.schedulers.get capacityId with
  | some row => (row, s)
  | none =>
    let row : CapacityScheduler :=
      { userId := userId
        schedulerCursor := 2
        schedulerDeficits := some [some 0, some 0, some 0]
        schedulerVersion := 2
        nextFencingToken := firstFencingToken s capacityId }
    (row, { s with schedulers := s.schedulers.set capacityId row })

/-! ## The snapshot -/

/-- What the write phase needs of a waiting waiter to create its lease. -/
structure AdmissionWaiterRow where
  userId : String
  requestId : String
  attemptId : String
  admissionRequestId : String
  executionTargetId : String
  poolId : Option String
  poolMemberId : Option String
  priority : Int
deriving DecidableEq, Repr

/-- What the write phase reads of a waiter. -/
def QueuedWaiter.row (q : QueuedWaiter) : AdmissionWaiterRow where
  userId := q.waiter.userId
  requestId := q.request.requestId
  attemptId := q.request.attemptId
  admissionRequestId := q.waiter.admissionRequestId
  executionTargetId := q.waiter.executionTargetId
  poolId := q.waiter.poolId
  poolMemberId := q.waiter.poolMemberId
  priority := q.waiter.effectivePriority

/-- What the planner reads of a waiter. -/
def QueuedWaiter.plannerWaiter (q : QueuedWaiter) : PlannerWaiter where
  toWindowWaiter := q.window
  candidateOrder := q.waiter.candidateOrder
  enqueueSequence := q.request.enqueueSequence
  priority := q.waiter.effectivePriority
  notBefore := q.waiter.notBefore
  ownerKey := ownerKey q.waiter.poolMemberId q.waiter.executionTargetId
  scopeLimits := (waiterScopeLimits q.waiter).map WaiterScopeLimit.toScopeLimit
  borrowReserved := q.waiter.effectiveBorrowReserved
  leaseScopeKeys :=
    ((present q.waiter.poolId).map (fun poolId => "POOL:" ++ poolId)).toList ++
      ["TEST:" ++ q.waiter.executionTargetId]

/-- What the read phase gives. -/
structure AdmissionRead where
  snapshot : AdmissionSnapshot
  rows : OrderedMap String AdmissionWaiterRow
  userId : String

/-- The snapshot of an instance, and the scheduler row a pass with waiters creates. -/
def snapshotOf (localeCompare : Comparator String) (g : Graph) (runtime : RuntimeInstance)
    (capacityId : String) (waiters : List QueuedWaiter) (s : Store) : AdmissionRead × Store :=
  let limit := runtime.hardConcurrencyLimit
  let leases := activeLeases s capacityId
  let scheduled :=
    if waiters.isEmpty then (none, s)
    else Prod.map some id (capacityRuntime s capacityId runtime.userId)
  ({ snapshot :=
      { capacityLimit := limit
        active := leases.length
        activeByOwner := activeByOwner leases
        reservationsByOwner := allocateReservationSlots localeCompare
          (configuredReservations g capacityId runtime.userId) limit
        scopeActive := scopeCounts s (waiters.map QueuedWaiter.waiter)
        waiters := waiters.map QueuedWaiter.plannerWaiter
        scheduler := schedulerStateFromRow scheduled.1 }
     rows := OrderedMap.ofList (waiters.map (fun q => (q.waiter.id, q.row)))
     userId := runtime.userId }, scheduled.2)

/-- The read phase; a deleted capacity admits nothing. -/
def readAdmissionSnapshot (localeCompare : Comparator String) (g : Graph) (s : Store)
    (capacityId : String) (now : Instant) (creatingRequestId : Option String)
    (lastChanceWaiterIds : List String) : Option AdmissionRead × Store :=
  let s := sweepUnroutable g (sweepDeadlines s capacityId now creatingRequestId) capacityId now
  match g.instance? capacityId with
  | none => (none, s)
  | some runtime =>
    let living := dropOrphanedWaiters g capacityId now (queuedWaiters s capacityId) s
    let full :=
      metricFullWaiterIds g living.2 living.1 now creatingRequestId lastChanceWaiterIds
    let waiters := living.1.filter (fun q => decide (q.waiter.id ∉ full))
    Prod.map some id (snapshotOf localeCompare g runtime capacityId waiters living.2)

end ModelProxy.Capacity
