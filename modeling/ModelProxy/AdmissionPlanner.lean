import ModelProxy.Scheduler
import ModelProxy.SkipQueue
import ModelProxy.BoundedLoop

/-! # The admission planner

`planGrants` decides who gets the free slots of one physical capacity.  It takes
one snapshot of the capacity and applies the admission decision repeatedly in
memory: eligibility (`notBefore`, deadlines with the creating-request and
last-chance exceptions, scope limits, physical limit, borrowing of kept slots),
then one pick of the scheduler, then the grant is applied and the next step is
planned.

The planner keeps indexes that survive the steps: one queue per class, one per
owner with unmet kept slots, and the unmet slots themselves.  Objects of the
source that steps mutate are explicit state here.
-/
namespace ModelProxy.Capacity
open OrderedMap

/-- A concurrency ceiling, counted against the active leases of its key. -/
structure ScopeLimit where
  key : String
  limit : Int
deriving DecidableEq, Repr

/-- What the deadline filter reads of a waiter. -/
structure WindowWaiter where
  waiterId : String
  admissionRequestId : String
  deadlineAt : Option Instant
  requestDeadlineAt : Option Instant
deriving DecidableEq, Repr

/-- What the planner reads of a waiter. -/
structure PlannerWaiter extends WindowWaiter where
  candidateOrder : Int
  /-- Durable FIFO position of the waiter's request. -/
  enqueueSequence : Int
  priority : Int
  /-- Spill-over instant; a waiter before it is not grantable. -/
  notBefore : Option Instant
  /-- The owner of reservation accounting. -/
  ownerKey : String
  scopeLimits : List ScopeLimit
  /-- May take a slot another owner keeps, while that owner has no waiter. -/
  borrowReserved : Bool
  /-- Scope keys whose active count grows by one when this waiter is granted. -/
  leaseScopeKeys : List String
deriving DecidableEq, Repr

/-- What a plan is made from. -/
structure AdmissionSnapshot where
  /-- Physical limit (`none` = unlimited). -/
  capacityLimit : Option Int
  active : Nat
  activeByOwner : OrderedMap String Nat
  reservationsByOwner : OrderedMap String Int
  scopeActive : OrderedMap String Nat
  waiters : List PlannerWaiter
  scheduler : SchedulerState

/-- How a plan is to be made. -/
structure PlannerOptions where
  /-- Offer mode: stop right after this request is granted. -/
  requestId : Option String := none
  /-- The attempt created in this transaction. -/
  creatingRequestId : Option String := none
  /-- Deferred waiters owed one check past their deadline. -/
  lastChanceWaiterIds : Option (List String) := none
  maxGrants : Option Int := none
deriving DecidableEq, Repr

/-- A grant of a plan. -/
structure PlannedGrant where
  waiterId : String
  admissionRequestId : String
  borrowed : Bool
  reservationClass : Int
  /-- Scheduler state right after this grant. -/
  schedulerAfter : SchedulerState
deriving DecidableEq, Repr

/-- Why a plan has no further grant. -/
inductive StoppedBy
  | requested
  | none
  | limit
  | maxGrants
  | progress
deriving DecidableEq, Repr

/-- The grants, and where the scheduler stands after them. -/
structure GrantPlan where
  grants : List PlannedGrant
  scheduler : SchedulerState
  stoppedBy : StoppedBy
deriving DecidableEq, Repr

/-- A waiter and what the scheduler sees of it. -/
structure Entry where
  waiter : PlannerWaiter
  candidate : SchedulerCandidate
deriving DecidableEq, Repr

/-- The waiter passes the deadline filter of one admission pass at `now`. -/
def inWindow (waiter : WindowWaiter) (now : Instant) (creatingRequestId : Option String)
    (lastChance : List String) : Bool :=
  let creating := decide (creatingRequestId = some waiter.admissionRequestId)
  let waiterOpen :=
    match waiter.deadlineAt with
    | .none => true
    | .some deadlineAt =>
      decide (deadlineAt > now) || (creating && decide (deadlineAt ≥ now)) ||
        decide (waiter.waiterId ∈ lastChance)
  -- the request's absolute deadline still ends a waiter, last chance included
  let requestOpen :=
    match waiter.requestDeadlineAt with
    | .none => true
    | .some requestDeadlineAt => decide (requestDeadlineAt > now) || creating
  waiterOpen && requestOpen

/-- The waiter's spill-over instant has come. -/
def due (waiter : PlannerWaiter) (now : Instant) : Bool :=
  match waiter.notBefore with
  | .none => true
  | .some notBefore => decide (notBefore ≤ now)

/-- The entry of a waiter. -/
def entryOf (waiter : PlannerWaiter) : Entry where
  waiter := waiter
  candidate :=
    { admissionRequestId := waiter.admissionRequestId
      waiterId := waiter.waiterId
      candidateOrder := waiter.candidateOrder
      priority := waiter.priority
      enqueueSequence := waiter.enqueueSequence
      eligible := true }

/-- `Number.MAX_SAFE_INTEGER` -/
def maxSafeInteger : Int := 9007199254740991

/-- What a plan has done so far, and the counts each grant advances. -/
structure PlanState where
  active : Nat
  activeByOwner : OrderedMap String Nat
  scopeActive : OrderedMap String Nat
  scheduler : SchedulerState
  grants : List PlannedGrant

namespace PlanState

/-- The state a plan starts from. -/
def ofSnapshot (snapshot : AdmissionSnapshot) : PlanState :=
  ⟨snapshot.active, snapshot.activeByOwner, snapshot.scopeActive, snapshot.scheduler, []⟩

/-- The slots an owner holds. -/
def ownerActive (s : PlanState) (owner : String) : Nat := (s.activeByOwner.get owner).getD 0

/-- None of the waiter's limits is reached. -/
def scopeHasRoom (s : PlanState) (waiter : PlannerWaiter) : Bool :=
  waiter.scopeLimits.all (fun l => decide (((s.scopeActive.get l.key).getD 0 : Int) < l.limit))

/-- One more lease on a scope that is counted at all. -/
def countScope (scopeActive : OrderedMap String Nat) (key : String) : OrderedMap String Nat :=
  if scopeActive.has key then scopeActive.set key ((scopeActive.get key).getD 0 + 1)
  else scopeActive

/-- A grant counted in every scope. -/
def countScopes (scopeActive : OrderedMap String Nat) (keys : List String) :
    OrderedMap String Nat :=
  keys.foldl countScope scopeActive

/-- Record a grant and advance the counts. -/
def grant (s : PlanState) (winner : PlannerWaiter) (borrowed : Bool)
    (scheduler : SchedulerState) : PlanState where
  active := s.active + 1
  activeByOwner := s.activeByOwner.set winner.ownerKey (s.ownerActive winner.ownerKey + 1)
  scopeActive := countScopes s.scopeActive winner.leaseScopeKeys
  scheduler := scheduler
  grants := s.grants ++ [⟨winner.waiterId, winner.admissionRequestId, borrowed, winner.priority,
    scheduler⟩]

theorem grant_ownerActive (s : PlanState) (win : PlannerWaiter) (borrowed : Bool)
    (sched : SchedulerState) (o : String) :
    (s.grant win borrowed sched).ownerActive o =
      s.ownerActive o + if win.ownerKey = o then 1 else 0 := by
  simp only [ownerActive, grant, get_set]
  split
  next h => rw [← h]; rfl
  · rfl

theorem le_countScope (counts : OrderedMap String Nat) (k key : String) :
    (counts.get key).getD 0 ≤ ((countScope counts k).get key).getD 0 := by
  unfold countScope
  split
  · rw [get_set]
    split
    next h => simp [h]
    · exact le_refl _
  · exact le_refl _

theorem le_countScopes (key : String) : ∀ (keys : List String) (counts : OrderedMap String Nat),
    (counts.get key).getD 0 ≤ ((countScopes counts keys).get key).getD 0
  | [], _ => le_refl _
  | k :: keys, counts =>
    le_trans (le_countScope counts k key) (le_countScopes key keys (countScope counts k))

/-- A grant leaves no scope more room. -/
theorem scopeHasRoom_of_grant {s : PlanState} {win w : PlannerWaiter} {borrowed : Bool}
    {sched : SchedulerState}
    (h : (s.grant win borrowed sched).scopeHasRoom w = true) :
    s.scopeHasRoom w = true := by
  simp only [scopeHasRoom, List.all_eq_true, decide_eq_true_eq] at h ⊢
  intro l hl
  have hle := le_countScopes l.key win.leaseScopeKeys s.scopeActive
  have hlt := h l hl
  simp only [grant] at hlt
  omega

end PlanState

/-- The waiter would take a slot another owner keeps: its own owner keeps none unmet, and
no more slots are free than the others keep. -/
def borrows (limit : Option Int) (active : Nat) (reservedRemainingTotal ownerRemaining : Int) :
    Bool :=
  let reservedForOthers := min (limit.getD maxSafeInteger) (reservedRemainingTotal - ownerRemaining)
  match limit with
  | .none => false
  | .some limit =>
    decide (ownerRemaining = 0) && decide (reservedForOthers > 0) &&
      decide (limit - active ≤ reservedForOthers)

/-- The `borrowed` flag of every eligible waiter, by waiter id. -/
def borrowedByWaiter (eligible : List Entry) (borrowed : Entry → Bool) : OrderedMap String Bool :=
  eligible.foldl (fun flags entry => flags.set entry.waiter.waiterId (borrowed entry))
    OrderedMap.empty

/-! ## The indexed planner -/

/-- The indexes the planner keeps beside the counts. -/
structure PlannerState extends PlanState where
  classes : OrderedMap Int (SkipQueue Entry)
  ownerQueues : OrderedMap String (SkipQueue Entry)
  takenRequests : List String
  /-- Unmet kept slots, of the owners that have any. -/
  remaining : OrderedMap String Int
  reservedRemainingTotal : Int

/-- Push an entry on a queue of the map, which is created when missing. -/
def pushEntry {κ : Type} [DecidableEq κ] (queues : OrderedMap κ (SkipQueue Entry)) (key : κ)
    (entry : Entry) : OrderedMap κ (SkipQueue Entry) :=
  queues.set key (((queues.get key).getD SkipQueue.empty).push entry)

section Planner
variable (localeCompare : Comparator String) (snapshot : AdmissionSnapshot) (now : Instant)
  (options : PlannerOptions)

/-- The waiters whose deadline is near. -/
def lastChance : List String := options.lastChanceWaiterIds.getD []

/-- The waiters of this pass, sorted once. -/
def plannerEntries : List Entry :=
  ((fifo localeCompare).comap Entry.candidate).sort
    ((snapshot.waiters.filter (fun waiter =>
      inWindow waiter.toWindowWaiter now options.creatingRequestId (lastChance options) &&
        due waiter now)).map entryOf)

/-- The unmet kept slots at the start, and their sum. -/
def initialRemaining : OrderedMap String Int × Int :=
  snapshot.reservationsByOwner.entries.foldl (fun acc e =>
    let slots : Int := max 0 (e.2 - (PlanState.ofSnapshot snapshot).ownerActive e.1)
    (if slots > 0 then acc.1.set e.1 slots else acc.1, acc.2 + slots)) (OrderedMap.empty, 0)

/-- The class queues and the queues of the owners with unmet kept slots. -/
def initialQueues (remaining : OrderedMap String Int) (entries : List Entry) :
    OrderedMap Int (SkipQueue Entry) × OrderedMap String (SkipQueue Entry) :=
  entries.foldl (fun acc entry =>
    (pushEntry acc.1 entry.waiter.priority entry,
      if remaining.has entry.waiter.ownerKey then pushEntry acc.2 entry.waiter.ownerKey entry
      else acc.2)) (OrderedMap.empty, OrderedMap.empty)

/-- The planner before its first round. -/
def initialState : PlannerState :=
  let remaining := initialRemaining snapshot
  let queues := initialQueues remaining.1 (plannerEntries localeCompare snapshot now options)
  { PlanState.ofSnapshot snapshot with
    classes := queues.1
    ownerQueues := queues.2
    takenRequests := []
    remaining := remaining.1
    reservedRemainingTotal := remaining.2 }

namespace PlannerState

/-- Granted, or out of scope room: now and for the rest of the plan. -/
def dead (s : PlannerState) (entry : Entry) : Bool :=
  decide (entry.waiter.admissionRequestId ∈ s.takenRequests) || !s.scopeHasRoom entry.waiter

/-- The owner queues, and the owners found needy, at most two, once someone asked. -/
structure OwnerScan where
  ownerQueues : OrderedMap String (SkipQueue Entry)
  needyOwners : Option (List String)

/-- The owners with unmet kept slots and a live waiter; the search ends at the second. -/
def findNeedyOwners (dead : Entry → Bool) : List String →
    OrderedMap String (SkipQueue Entry) → List String →
      OrderedMap String (SkipQueue Entry) × List String
  | [], queues, needyOwners => (queues, needyOwners)
  | owner :: owners, queues, needyOwners =>
    match queues.get owner with
    | .none => findNeedyOwners dead owners queues needyOwners
    | .some queue =>
      let pruned := queue.pruneHead dead
      if pruned.entries[pruned.head]?.isSome then
        if (needyOwners ++ [owner]).length = 2 then
          (queues.set owner pruned, needyOwners ++ [owner])
        else findNeedyOwners dead owners (queues.set owner pruned) (needyOwners ++ [owner])
      else findNeedyOwners dead owners (queues.set owner pruned) needyOwners

/-- Whether another owner waits for its own slots. -/
def ownerWaitingBesides (s : PlannerState) (ownerKey : String) (scan : OwnerScan) :
    Bool × OwnerScan :=
  match scan.needyOwners with
  | .some needyOwners => (needyOwners.any (fun owner => decide (owner ≠ ownerKey)), scan)
  | .none =>
    let found := findNeedyOwners s.dead s.remaining.keys scan.ownerQueues []
    (found.2.any (fun owner => decide (owner ≠ ownerKey)), ⟨found.1, some found.2⟩)

/-- Whether the grant borrows a slot kept for another owner. -/
def borrowed (s : PlannerState) (entry : Entry) : Bool :=
  borrows snapshot.capacityLimit s.active s.reservedRemainingTotal
    ((s.remaining.get entry.waiter.ownerKey).getD 0)

/-- A borrower that may not borrow, or whose slot a needy owner waits for, is passed over
in this step. -/
def blocked (s : PlannerState) (entry : Entry) (scan : OwnerScan) : Bool × OwnerScan :=
  if s.borrowed snapshot entry then
    if entry.waiter.borrowReserved then s.ownerWaitingBesides entry.waiter.ownerKey scan
    else (true, scan)
  else (false, scan)

/-- The first eligible entry of one class, after those of the classes before it. -/
def scanClass (s : PlannerState) (queue : SkipQueue Entry) (found : List Entry × OwnerScan) :
    SkipQueue Entry × List Entry × OwnerScan :=
  let pruned := queue.pruneHead s.dead
  let result := pruned.scan s.dead (s.blocked snapshot) pruned.entries.length .none pruned.head
    found.2
  (result.2.1, found.1 ++ result.1.toList, result.2.2)

/-- The eligible entries of a step, one a class, and the queues the scans leave. -/
def collectEligible (s : PlannerState) : List Entry × PlannerState :=
  let result := s.classes.mapAccumulate (s.scanClass snapshot) ([], ⟨s.ownerQueues, .none⟩)
  (result.2.1, { s with classes := result.1, ownerQueues := result.2.2.ownerQueues })

/-- One kept slot of the owner is met. -/
def takeKept (s : PlannerState) (owner : String) : PlannerState :=
  let slots := (s.remaining.get owner).getD 0
  if slots > 0 then
    { s with
      reservedRemainingTotal := s.reservedRemainingTotal - 1
      remaining :=
        if slots = 1 then s.remaining.delete owner else s.remaining.set owner (slots - 1) }
  else s

/-- Record a grant and advance the counts and indexes. -/
def applyGrant (s : PlannerState) (winner : PlannerWaiter) (borrowed : Bool)
    (scheduler : SchedulerState) : PlannerState :=
  let kept := s.takeKept winner.ownerKey
  { kept with
    toPlanState := s.toPlanState.grant winner borrowed scheduler
    takenRequests := s.takenRequests ++ [winner.admissionRequestId] }

end PlannerState

/-- The grant cap of the options is reached. -/
def grantsReached (maxGrants : Option Int) (grants : List PlannedGrant) : Bool :=
  match maxGrants with
  | .none => false
  | .some maxGrants => decide ((grants.length : Int) ≥ maxGrants)

/-- The physical limit is reached. -/
def limitReached (limit : Option Int) (active : Nat) : Bool :=
  match limit with
  | .none => false
  | .some limit => decide ((active : Int) ≥ limit)

/-- One round of the planning loop. -/
def planStep (s : PlannerState) : Except RangeError (LoopStep StoppedBy PlannerState) :=
  if grantsReached options.maxGrants s.grants then .ok (.stop .maxGrants s)
  else if limitReached snapshot.capacityLimit s.active then .ok (.stop .limit s)
  else if (plannerEntries localeCompare snapshot now options).isEmpty then .ok (.stop .none s)
  else
    let eligible := (s.collectEligible snapshot).1
    let scanned := (s.collectEligible snapshot).2
    if eligible.isEmpty then .ok (.stop .none scanned)
    else do
      let decision ← scheduleWeightedDeficitRoundRobin localeCompare Entry.candidate eligible
        s.scheduler defaultPriorityQuanta
      match decision.winner with
      | .none => .ok (.stop .none scanned)
      | .some winner =>
        let flag := ((borrowedByWaiter eligible (s.borrowed snapshot)).get
          winner.waiter.waiterId).getD false
        let granted := scanned.applyGrant winner.waiter flag decision.state
        if options.requestId = some winner.waiter.admissionRequestId then
          .ok (.stop .requested granted)
        else .ok (.next granted)

/-- The plan: rounds until nothing can be granted. -/
def planGrants : Except RangeError GrantPlan := do
  let result ← BoundedLoop.run .progress (planStep localeCompare snapshot now options)
    (snapshot.waiters.length + 1) (initialState localeCompare snapshot now options)
  pure ⟨result.2.grants, result.2.scheduler, result.1⟩

end Planner

end ModelProxy.Capacity
