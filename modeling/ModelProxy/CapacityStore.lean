import ModelProxy.AdmissionRead

/-! # The transactions of the capacity store

`persistGrants` and `admitCapacity` are the one path to a slot; heartbeat,
release, terminalization, reclaim and the two sweeps are the transactions that
end rows and refill a capacity.  A transaction is a function of the store: it
commits a new store with its result, or aborts with an error.  What it takes from
outside the database (clocks, generated ids, the shutdown fence) is a parameter.
-/
namespace ModelProxy.Capacity

/-- How a transaction fails. -/
inductive StoreError
  | range (error : RangeError)
  | error (message : String)
  | uniqueViolation
  | notFound
deriving DecidableEq, Repr

/-- What an admission pass takes from outside the database. -/
structure FillEnv where
  localeCompare : Comparator String
  /-- The default sort order of the host language. -/
  sortOrder : Comparator String
  serverInstance : String
  /-- The id generated for the lease of a capacity, round and place in the plan. -/
  leaseId : String → Nat → Nat → String
  /-- The shutdown fence is armed when a fill of the capacity starts. -/
  armedAtStart : String → Bool
  /-- The shutdown fence is armed right before a round's first write. -/
  armedAtWrite : String → Nat → Bool

/-- How free slots are to be filled. -/
structure FillOptions where
  requestId : Option String := none
  creatingRequestId : Option String := none
  lastChanceWaiterIds : List String := []

/-- What the planner is told of it. -/
def FillOptions.planner (options : FillOptions) : PlannerOptions where
  requestId := options.requestId
  creatingRequestId := options.creatingRequestId
  lastChanceWaiterIds := some options.lastChanceWaiterIds

/-! ## The write phase -/

section
variable (env : FillEnv) (g : Graph) (capacityId : String) (now : Instant)

/-- The lease of a grant. -/
def grantedLease (row : AdmissionWaiterRow) (grant : PlannedGrant) (fencingToken : Int)
    (id : String) : CapacityLease where
  id := id
  userId := row.userId
  admissionRequestId := row.admissionRequestId
  requestId := row.requestId
  attemptId := row.attemptId
  capacityId := capacityId
  executionTargetId := row.executionTargetId
  poolId := row.poolId
  poolMemberId := row.poolMemberId
  priority := row.priority
  reservationClass := grant.reservationClass
  borrowed := grant.borrowed
  fencingToken := fencingToken
  state := .active
  ownerServerInstance := env.serverInstance
  heartbeatAt := now
  expiresAt := now + 30000
  releasedAt := none
  releaseReason := none

/-- The leases of the persisted grants, with consecutive fencing tokens. -/
def leaseRows (round : Nat) (rows : OrderedMap String AdmissionWaiterRow) :
    List PlannedGrant → Int → Nat → Except StoreError (List CapacityLease)
  | [], _, _ => .ok []
  | grant :: grants, fencingToken, index =>
    match rows.get grant.waiterId with
    | none => .error (.error "Planned grant has no waiter row.")
    | some row => do
        let rest ← leaseRows round rows grants (fencingToken + 1) (index + 1)
        .ok (grantedLease env capacityId now row grant fencingToken
          (env.leaseId capacityId round index) :: rest)

/-- The winner still waits and holds no lease. -/
def writable (s : Store) (grant : PlannedGrant) : Bool :=
  match s.request? grant.admissionRequestId with
  | none => false
  | some request =>
    decide (request.state = .waiting) && (s.leaseOf? grant.admissionRequestId).isNone

/-- What the write phase has written. -/
structure Persisted where
  grants : List PlannedGrant
  stale : Bool

/-- The writes of a batch of winners: their leases, their requests, the siblings
that lost and the winning waiters. -/
def writeGrants (s : Store) (grants : List PlannedGrant) (leases : List CapacityLease) : Store :=
  let winnerRequestIds := grants.map PlannedGrant.admissionRequestId
  let winnerWaiterIds := grants.map PlannedGrant.waiterId
  ((({ s with leases := s.leases ++ leases } : Store).updateRequests
      (fun r => decide (r.id ∈ winnerRequestIds)) (fun r => { r with state := .admitted })
    ).updateWaiters (fun w => decide (w.admissionRequestId ∈ winnerRequestIds) &&
        decide (w.state = .waiting) && decide (w.id ∉ winnerWaiterIds))
      (CapacityWaiter.close .cancelled now (some "sibling_lost"))
    ).updateWaiters (fun w => decide (w.id ∈ winnerWaiterIds))
      (CapacityWaiter.close .admitted now none)

/-- Persist a plan up to the first winner that is no longer writable. -/
def persistGrants (round : Nat) (rows : OrderedMap String AdmissionWaiterRow) (plan : GrantPlan)
    (userId : String) (s : Store) : Except StoreError (Persisted × Store) :=
  let persisted := plan.grants.takeWhile (writable s)
  let stale := decide (persisted.length ≠ plan.grants.length)
  if plan.grants.isEmpty || env.armedAtWrite capacityId round then .ok (⟨[], false⟩, s)
  else
    match persisted.getLast? with
    | none => .ok (⟨[], stale⟩, s)
    | some last => do
        let runtime := capacityRuntime s capacityId userId
        let updated : CapacityScheduler :=
          { runtime.1 with
            schedulerCursor := last.schedulerAfter.cursor
            schedulerDeficits := some (last.schedulerAfter.deficits.map some)
            schedulerVersion := schedulerVersion
            nextFencingToken := runtime.1.nextFencingToken + persisted.length }
        let firstToken := updated.nextFencingToken - persisted.length
        let leases ← leaseRows env capacityId now round rows persisted firstToken 0
        if ((runtime.2.leases ++ leases).map CapacityLease.id).Nodup then
          .ok (⟨persisted, stale⟩,
            writeGrants now
              { runtime.2 with schedulers := runtime.2.schedulers.set capacityId updated }
              persisted leases)
        else .error .uniqueViolation

/-! ## One admission pass -/

/-- Between two rounds of reading, planning and writing. -/
structure AdmitState where
  round : Nat
  store : Store

/-- Read, plan and write once; only a stale winner asks for another round. -/
def admitRound (options : FillOptions) (st : AdmitState) :
    Except StoreError (LoopStep Bool AdmitState) :=
  match readAdmissionSnapshot env.localeCompare g st.store capacityId now
      options.creatingRequestId options.lastChanceWaiterIds with
  | (none, s) => .ok (.stop false ⟨st.round, s⟩)
  | (some read, s) => do
      let plan ← (planGrants env.localeCompare read.snapshot now options.planner).mapError .range
      let outcome ← persistGrants env capacityId now st.round read.rows plan read.userId s
      let granted := options.requestId.any (fun requestId =>
        outcome.1.grants.any (fun grant => decide (grant.admissionRequestId = requestId)))
      if granted || !outcome.1.stale || decide (st.round ≥ read.snapshot.waiters.length) then
        .ok (.stop granted ⟨st.round, outcome.2⟩)
      else .ok (.next ⟨st.round + 1, outcome.2⟩)

/-- One admission pass on one capacity: whether `requestId` was granted here. -/
def admitCapacity (options : FillOptions) (s : Store) : Except StoreError (Bool × Store) :=
  if options.requestId.isNone && env.armedAtStart capacityId then .ok (false, s)
  else do
    let result ← BoundedLoop.run false (admitRound env g capacityId now options)
      (s.waiters.length + 1) ⟨0, s⟩
    .ok (result.1, result.2.store)

end

/-- A pass on each capacity in turn. -/
def admitCapacities (env : FillEnv) (g : Graph) (now : Instant) (options : FillOptions) :
    List String → Store → Except StoreError Store
  | [], s => .ok s
  | capacityId :: capacityIds, s => do
      let result ← admitCapacity env g capacityId now options s
      admitCapacities env g now options capacityIds result.2

/-! ## Leases -/

/-- A lease as its owner knows it. -/
structure CapacityLeaseHandle where
  leaseId : String
  attemptId : String
  capacityId : String
  executionTargetId : String
  poolMemberId : Option String
  fencingToken : Int
  expiresAt : Instant
  reservationClass : Option Int
  borrowed : Option Bool
deriving DecidableEq, Repr

/-- The handle of a lease. -/
def leaseHandle (lease : CapacityLease) : CapacityLeaseHandle where
  leaseId := lease.id
  attemptId := lease.attemptId
  capacityId := lease.capacityId
  executionTargetId := lease.executionTargetId
  poolMemberId := present lease.poolMemberId
  fencingToken := lease.fencingToken
  expiresAt := lease.expiresAt
  reservationClass := some lease.reservationClass
  borrowed := some lease.borrowed

/-- End a lease. -/
def CapacityLease.retire (state : CapacityLeaseState) (now : Instant) (reason : String)
    (l : CapacityLease) : CapacityLease :=
  { l with state := state, releasedAt := some now, releaseReason := some reason }

/-- The active row of an id and fencing token. -/
def CapacityLease.isActive (id : String) (fencingToken : Int) (l : CapacityLease) : Bool :=
  decide (l.id = id) && decide (l.fencingToken = fencingToken) && decide (l.state = .active)

/-- The active row of an id and fencing token, expired at `now`. -/
def CapacityLease.isExpired (id : String) (fencingToken : Int) (now : Instant)
    (l : CapacityLease) : Bool :=
  l.isActive id fencingToken && decide (l.expiresAt ≤ now)

/-- The single-row update of a heartbeat; `extensionMs` is none when not finite. -/
def heartbeat (now : Instant) (lease : CapacityLeaseHandle) (extensionMs : Option Int)
    (s : Store) : Except RangeError (Bool × Store) :=
  match extensionMs with
  | none => .error ⟨"Capacity lease extension must be a positive duration."⟩
  | some extensionMs =>
    if extensionMs ≤ 0 then .error ⟨"Capacity lease extension must be a positive duration."⟩
    else
      let live := fun l : CapacityLease =>
        l.isActive lease.leaseId lease.fencingToken && decide (l.expiresAt > now)
      .ok (decide (s.leases.countP live = 1), s.updateLeases live (fun l =>
        { l with heartbeatAt := now, expiresAt := now + min extensionMs (5 * 60000) }))

/-- A lease is given back and its slot filled. -/
def release (env : FillEnv) (g : Graph) (now : Instant) (lease : CapacityLeaseHandle)
    (s : Store) : Except StoreError (Bool × Store) :=
  let held := CapacityLease.isActive lease.leaseId lease.fencingToken
  let count := s.leases.countP held
  if count = 0 then .ok (false, s)
  else do
    let released := (s.updateLeases held (CapacityLease.retire .released now "released")
      ).updateRequests
        (fun r => decide (r.attemptId = lease.attemptId) && decide (r.state = .admitted))
        (fun r => { r with state := .terminal, terminalAt := some now })
    let result ← admitCapacity env g lease.capacityId now {} released
    .ok (decide (count = 1), result.2)

/-- The transaction of `reclaimExpired` for one lease; `lease` is the row its scan
read before the transaction. -/
def reclaimLease (env : FillEnv) (g : Graph) (lockedNow : Instant) (lease : CapacityLease)
    (s : Store) : Except StoreError (Nat × Store) :=
  let expired := CapacityLease.isExpired lease.id lease.fencingToken lockedNow
  let count := s.leases.countP expired
  if count = 0 then .ok (0, s)
  else do
    let reclaimed := (s.updateLeases expired (CapacityLease.retire .reclaimed lockedNow "expired")
      ).updateRequests
        (fun r => decide (r.id = lease.admissionRequestId) && decide (r.state = .admitted))
        (AdmissionRequest.close .terminal lockedNow "lease_expired")
    let result ← admitCapacity env g lease.capacityId lockedNow {} reclaimed
    .ok (count, result.2)

/-! ## Ending attempts -/

/-- How a caller or a sweep ends a waiting attempt. -/
inductive Ending
  | cancelled
  | expired
deriving DecidableEq, Repr

/-- The state of an ended request. -/
def Ending.request : Ending → AdmissionRequestState
  | .cancelled => .cancelled
  | .expired => .expired

/-- The state of an ended waiter. -/
def Ending.waiter : Ending → CapacityWaiterState
  | .cancelled => .cancelled
  | .expired => .expired

/-- End a request and every waiter of it that still waits. -/
def endRequest (s : Store) (id : String) (ending : Ending) (now : Instant) (reason : String) :
    Store :=
  (s.updateRequests (fun r => decide (r.id = id))
      (AdmissionRequest.close ending.request now reason)
    ).updateWaiters
      (fun w => decide (w.admissionRequestId = id) && decide (w.state = .waiting))
      (CapacityWaiter.close ending.waiter now (some reason))

/-- The answer of `terminalizeAttempt`. -/
inductive AdmissionTerminalizationResult
  | admitted (lease : CapacityLeaseHandle)
  | waiting (requestId : String)
  | cancelled
  | expired
  | terminal
  | missing
deriving DecidableEq, Repr

/-- The answer where the attempt is ended. -/
def Ending.result : Ending → AdmissionTerminalizationResult
  | .cancelled => .cancelled
  | .expired => .expired

/-- An attempt is ended, unless it was admitted. -/
def terminalizeAttempt (now : Instant) (attemptId : String) (state : Ending) (s : Store) :
    AdmissionTerminalizationResult × Store :=
  match s.requestOfAttempt? attemptId with
  | none => (.missing, s)
  | some request =>
    match request.state with
    | .admitted =>
      match s.leaseOf? request.id with
      | some lease => if lease.state = .active then (.admitted (leaseHandle lease), s)
          else (.terminal, s)
      | none => (.terminal, s)
    | .cancelled => (.cancelled, s)
    | .expired => (.expired, s)
    | .terminal => (.terminal, s)
    | .waiting =>
      -- the caller's clock may run ahead of the database's
      if state = .expired ∧ reached request.deadlineAt now = false then
        (.waiting request.id, s)
      else
        (state.result, endRequest s request.id state now
          (if state = .cancelled then "cancelled" else "deadline"))

/-- The transaction of `sweepAbandoned` for one request: the capacities it waited
on, when it was swept. -/
def sweepAbandonedRequest (lockedNow : Instant) (graceMs : Int) (id : String) (s : Store) :
    List String × Store :=
  match s.request? id with
  | none => ([], s)
  | some current =>
    let expired := reached current.deadlineAt lockedNow
    if current.state ≠ .waiting ∨ (expired = false ∧ current.heartbeatAt ≥ lockedNow - graceMs)
    then ([], s)
    else
      (((s.waitersOf current.id).map CapacityWaiter.capacityId).eraseDups,
        if expired then endRequest s current.id .expired lockedNow "deadline"
        else endRequest s current.id .cancelled lockedNow "connection_abandoned")

/-! ## Orphans -/

/-- Cancel the waiting waiters of a request that nothing carries any more; the
capacities they waited on. -/
def cancelOrphans (g : Graph) (now : Instant) (ownerGone : Bool) :
    List CapacityWaiter → Store → List String × Store
  | [], s => ([], s)
  | waiter :: waiters, s =>
    if waiter.state ≠ .waiting ∨
        (ownerGone = false ∧ waiterGraphIsLive g waiter waiter.capacityId = true) then
      cancelOrphans g now ownerGone waiters s
    else
      let rest := cancelOrphans g now ownerGone waiters (cancelOrphanedWaiter s waiter now)
      (waiter.capacityId :: rest.1, rest.2)

/-- Release an active lease whose target, capacity or owner is gone. -/
def releaseOrphan (g : Graph) (now : Instant) (ownerGone : Bool) (id : String)
    (lease : CapacityLease) (s : Store) : List String × Store :=
  let held := CapacityLease.isActive lease.id lease.fencingToken
  if ((g.target? lease.executionTargetId).isNone || (g.instance? lease.capacityId).isNone ||
      ownerGone) && s.leases.any held then
    ([lease.capacityId],
      (s.updateLeases held (CapacityLease.retire .released now orphanedReason)).updateRequests
        (fun r => decide (r.id = id) && decide (r.state = .admitted))
        (AdmissionRequest.close .terminal now orphanedReason))
  else ([], s)

/-- What the orphan sweep ends of one request: how many requests or leases, and the
capacities it touched. -/
def endOrphans (g : Graph) (now : Instant) (request : AdmissionRequest) (s : Store) :
    Except StoreError ((Nat × List String) × Store) :=
  let ownerGone := (g.user? request.userId).isNone
  match request.state with
  | .waiting =>
    let swept := cancelOrphans g now ownerGone (s.waitersOf request.id) s
    match swept.2.request? request.id with
    | none => .error .notFound
    | some after => .ok ((if after.state ≠ .waiting then 1 else 0, swept.1), swept.2)
  | .admitted =>
    match s.leaseOf? request.id with
    | some lease =>
      if lease.state = .active then
        let swept := releaseOrphan g now ownerGone request.id lease s
        .ok ((swept.1.length, swept.1), swept.2)
      else .ok ((0, []), s)
    | none => .ok ((0, []), s)
  | _ => .ok ((0, []), s)

/-- The transaction of `sweepOrphans` for one request; a busy fence leaves it to
the next run. -/
def sweepOrphanedRequest (env : FillEnv) (g : Graph) (now : Instant) (busy : Bool) (id : String)
    (s : Store) : Except StoreError ((Nat × List String) × Store) :=
  match s.request? id with
  | none => .ok ((0, []), s)
  | some request =>
    if busy then .ok ((0, []), s)
    else do
      let ended ← endOrphans g now request s
      let touched := ended.1.2.eraseDups
      let filled ← admitCapacities env g now {} (env.sortOrder.sort touched) ended.2
      .ok ((ended.1.1, touched), filled)

end ModelProxy.Capacity
