import ModelProxy.Scheduler

/-! # The tables of the capacity store

The hot-path rows the store writes (`admission_request`, `capacity_waiter`,
`capacity_lease`, `capacity_scheduler`) and the graph rows it reads without a
lock.  A table is the list of its rows in the order they were inserted, so an
`UPDATE` is a map over the list and an `INSERT` an append.
-/
namespace ModelProxy.Capacity

/-! ## Hot-path rows -/

/-- What an admission is for. -/
inductive AdmissionSourceKind
  | pool
  | test
deriving DecidableEq, Repr

/-- How a request for admission stands. -/
inductive AdmissionRequestState
  | waiting
  | admitted
  | cancelled
  | expired
  | terminal
deriving DecidableEq, Repr

/-- How a waiter stands. -/
inductive CapacityWaiterState
  | waiting
  | admitted
  | cancelled
  | expired
deriving DecidableEq, Repr

/-- How a lease stands. -/
inductive CapacityLeaseState
  | active
  | released
  | expired
  | reclaimed
deriving DecidableEq, Repr

/-- A request for admission. -/
structure AdmissionRequest where
  id : String
  userId : String
  requestId : String
  relayRequestId : Option String
  attemptId : String
  sourceKind : AdmissionSourceKind
  poolId : Option String
  testTargetId : Option String
  basePriority : Int
  priorityShareId : Option String
  warmSessionIds : List String
  enqueueSequence : Int
  enqueuedAt : Instant
  deadlineAt : Option Instant
  connectionOwner : String
  heartbeatAt : Instant
  state : AdmissionRequestState
  terminalAt : Option Instant
  terminalReason : Option String
  metricFailOpen : Bool
deriving DecidableEq, Repr

/-- A request's place in one capacity's queue. -/
structure CapacityWaiter where
  id : String
  userId : String
  admissionRequestId : String
  requestId : String
  attemptId : String
  enqueueSequence : Int
  capacityId : String
  executionTargetId : String
  poolId : Option String
  poolMemberId : Option String
  candidateOrder : Int
  deadlineAt : Option Instant
  notBefore : Option Instant
  effectivePriority : Int
  effectiveConcurrencyLimit : Option Int
  effectiveConcurrencyScope : String
  effectiveConcurrencyScopeId : String
  effectiveReservedSlots : Int
  effectiveBorrowReserved : Bool
  effectivePoolConcurrencyLimit : Option Int
  state : CapacityWaiterState
  stateChangedAt : Instant
  terminalReason : Option String
deriving DecidableEq, Repr

/-- A slot given to a request. -/
structure CapacityLease where
  id : String
  userId : String
  admissionRequestId : String
  requestId : String
  attemptId : String
  capacityId : String
  executionTargetId : String
  poolId : Option String
  poolMemberId : Option String
  priority : Int
  reservationClass : Int
  borrowed : Bool
  fencingToken : Int
  state : CapacityLeaseState
  ownerServerInstance : String
  heartbeatAt : Instant
  expiresAt : Instant
  releasedAt : Option Instant
  releaseReason : Option String
deriving DecidableEq, Repr

/-- The deficits are a JSON value: `none` is no array, an entry `none` no number. -/
structure CapacityScheduler where
  userId : String
  schedulerCursor : Int
  schedulerDeficits : Option (List (Option Rat))
  schedulerVersion : Int
  nextFencingToken : Int
deriving DecidableEq, Repr

/-- The hot-path tables and the enqueue sequence. -/
structure Store where
  requests : List AdmissionRequest
  waiters : List CapacityWaiter
  leases : List CapacityLease
  schedulers : OrderedMap String CapacityScheduler
  enqueueSequence : Int

namespace Store

/-- A store without rows. -/
def empty : Store := ⟨[], [], [], OrderedMap.empty, 0⟩

/-- `UPDATE admission_request SET … WHERE …`. -/
def updateRequests (s : Store) (where_ : AdmissionRequest → Bool)
    (data : AdmissionRequest → AdmissionRequest) : Store :=
  { s with requests := s.requests.map (fun r => if where_ r then data r else r) }

/-- `UPDATE capacity_waiter SET … WHERE …`. -/
def updateWaiters (s : Store) (where_ : CapacityWaiter → Bool)
    (data : CapacityWaiter → CapacityWaiter) : Store :=
  { s with waiters := s.waiters.map (fun w => if where_ w then data w else w) }

/-- `UPDATE capacity_lease SET … WHERE …`. -/
def updateLeases (s : Store) (where_ : CapacityLease → Bool)
    (data : CapacityLease → CapacityLease) : Store :=
  { s with leases := s.leases.map (fun l => if where_ l then data l else l) }

/-- The request with an id. -/
def request? (s : Store) (id : String) : Option AdmissionRequest :=
  s.requests.find? (fun r => decide (r.id = id))

/-- The request of an attempt. -/
def requestOfAttempt? (s : Store) (attemptId : String) : Option AdmissionRequest :=
  s.requests.find? (fun r => decide (r.attemptId = attemptId))

/-- The lease with an id. -/
def lease? (s : Store) (id : String) : Option CapacityLease :=
  s.leases.find? (fun l => decide (l.id = id))

/-- The `Lease` relation of a request. -/
def leaseOf? (s : Store) (requestId : String) : Option CapacityLease :=
  s.leases.find? (fun l => decide (l.admissionRequestId = requestId))

/-- The `Waiters` relation of a request. -/
def waitersOf (s : Store) (requestId : String) : List CapacityWaiter :=
  s.waiters.filter (fun w => decide (w.admissionRequestId = requestId))

/-- How many active leases a capacity has. -/
def activeCount (s : Store) (capacityId : String) : Nat :=
  s.leases.countP (fun l => decide (l.capacityId = capacityId) && decide (l.state = .active))

end Store

/-- `column <= instant`, which no null column satisfies. -/
def reached (at_ : Option Instant) (now : Instant) : Bool :=
  match at_ with
  | none => false
  | some deadlineAt => decide (deadlineAt ≤ now)

/-! ## Graph rows -/

/-- The engines an instance may run. -/
inductive Engine
  | vllm
  | sglang
  | llamaCpp
  | ollama
  | lmStudio
  | other
deriving DecidableEq, Repr

/-- The health of a target. -/
inductive TargetHealth
  | unknown
  | healthy
  | degraded
  | halfOpen
  | unhealthy
deriving DecidableEq, Repr

/-- Where a pool's member runs. -/
inductive MemberKind
  | onNode
  | cloud
deriving DecidableEq, Repr

/-- Whether a member takes requests. -/
inductive MemberState
  | active
  | disabled
deriving DecidableEq, Repr

/-- What the routing rules say of a member. -/
inductive RoutingVerdictValue
  | none
  | avoid
  | full
deriving DecidableEq, Repr

/-- An instance, with the limit and engine of its version. -/
structure RuntimeInstance where
  id : String
  userId : String
  engineSlots : Option Int
  concurrencyLimit : Option Int
  engine : Option Engine
deriving DecidableEq, Repr

/-- What a request can be sent to. -/
structure ExecutionTarget where
  id : String
  userId : String
  instanceId : Option String
  runtimeModelId : Option String
  health : TargetHealth
  nextRetryAt : Option Instant
deriving DecidableEq, Repr

/-- A member of a pool. -/
structure PoolMember where
  id : String
  poolId : String
  kind : MemberKind
  runtimeModelId : Option String
  state : MemberState
  weight : Int
  shareId : Option String
deriving DecidableEq, Repr

/-- A pool's routing settings. -/
structure PoolRouting where
  priorityClass : PriorityClass
  concurrencyLimit : Option Int
  keptSlots : Int
  borrowKept : Bool
deriving DecidableEq, Repr

/-- A pool of members. -/
structure Pool where
  id : String
  userId : String
  routing : Option PoolRouting
deriving DecidableEq, Repr

/-- A pool shared with another user. -/
structure Share where
  id : String
  poolId : String
  ownerUserId : String
  granteeUserId : String
  canContribute : Bool
  priorityClass : Option PriorityClass
deriving DecidableEq, Repr

/-- What admission reads of a user. -/
structure User where
  id : String
  banned : Option Bool
  banExpires : Option Instant
  deletionRequestedAt : Option Instant
deriving DecidableEq, Repr

/-- The routing rules' verdict on a member. -/
structure RoutingVerdict where
  poolMemberId : String
  executionTargetId : String
  verdict : RoutingVerdictValue
  expiresAt : Instant
deriving DecidableEq, Repr

/-- The graph as a transaction sees it. -/
structure Graph where
  instances : List RuntimeInstance
  targets : List ExecutionTarget
  members : List PoolMember
  pools : List Pool
  shares : List Share
  users : List User
  verdicts : List RoutingVerdict

namespace Graph

/-- The instance with an id. -/
def instance? (g : Graph) (id : String) : Option RuntimeInstance :=
  g.instances.find? (fun i => decide (i.id = id))

/-- The target with an id. -/
def target? (g : Graph) (id : String) : Option ExecutionTarget :=
  g.targets.find? (fun t => decide (t.id = id))

/-- The member with an id. -/
def member? (g : Graph) (id : String) : Option PoolMember :=
  g.members.find? (fun m => decide (m.id = id))

/-- The pool with an id. -/
def pool? (g : Graph) (id : String) : Option Pool := g.pools.find? (fun p => decide (p.id = id))

/-- The share with an id. -/
def share? (g : Graph) (id : String) : Option Share := g.shares.find? (fun s => decide (s.id = id))

/-- The user with an id. -/
def user? (g : Graph) (id : String) : Option User := g.users.find? (fun u => decide (u.id = id))

end Graph

end ModelProxy.Capacity
