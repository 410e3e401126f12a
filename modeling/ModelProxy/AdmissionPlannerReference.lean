import ModelProxy.AdmissionPlanner

/-! # The reference planner

`referencePlanGrants` states the planner's rules without indexes: every step
rescans the waiters that are left.  It is the oracle the indexed planner is
tested against, and the level at which properties of a plan are proved.
-/
namespace ModelProxy.Capacity

/-- The counts, and the waiters still queued. -/
structure ReferenceState extends PlanState where
  entries : List Entry

section Reference
variable (localeCompare : Comparator String) (snapshot : AdmissionSnapshot) (now : Instant)
  (options : PlannerOptions)

/-- The waiters in their window, due or not, sorted once. -/
def referenceEntries : List Entry :=
  ((fifo localeCompare).comap Entry.candidate).sort
    ((snapshot.waiters.filter (fun waiter =>
      inWindow waiter.toWindowWaiter now options.creatingRequestId (lastChance options))).map
        entryOf)

namespace ReferenceState

/-- The waiter may be granted now. -/
def grantable (entry : Entry) : Bool := due entry.waiter now

/-- The owner's unmet kept slots. -/
def remaining (s : PlanState) (owner : String) : Int :=
  max 0 ((snapshot.reservationsByOwner.get owner).getD 0 - s.ownerActive owner)

/-- What is left of the reservations. -/
def reservedRemainingTotal (s : PlanState) : Int :=
  (snapshot.reservationsByOwner.keys.map (remaining snapshot s)).sum

/-- The entry's owner has unmet kept slots and this grantable waiter, whose scope has room. -/
def addNeedyOwner (s : ReferenceState) (needy : List String) (entry : Entry) : List String :=
  if !grantable now entry then needy
  else if (snapshot.reservationsByOwner.get entry.waiter.ownerKey).getD 0 ≤
    s.ownerActive entry.waiter.ownerKey then needy
  else if !s.scopeHasRoom entry.waiter then needy
  else needy.insert entry.waiter.ownerKey

/-- The owners with a waiter that still needs a place. -/
def needyOwners (s : ReferenceState) : List String :=
  s.entries.foldl (s.addNeedyOwner snapshot now) []

/-- Another owner waits too. -/
def ownerWaitingBesides (s : ReferenceState) (ownerKey : String) : Bool :=
  (s.needyOwners snapshot now).any (fun owner => decide (owner ≠ ownerKey))

/-- The grant uses what is reserved for others. -/
def borrowed (s : PlanState) (entry : Entry) : Bool :=
  borrows snapshot.capacityLimit s.active (reservedRemainingTotal snapshot s)
    (remaining snapshot s entry.waiter.ownerKey)

/-- The entry passes every rule of this step. -/
def eligible (s : ReferenceState) (entry : Entry) : Bool :=
  grantable now entry && s.scopeHasRoom entry.waiter &&
    !(borrowed snapshot s.toPlanState entry &&
      s.ownerWaitingBesides snapshot now entry.waiter.ownerKey) &&
    !(borrowed snapshot s.toPlanState entry && !entry.waiter.borrowReserved)

/-- The entries that pass every rule of this step. -/
def eligibleEntries (s : ReferenceState) : List Entry := s.entries.filter (s.eligible snapshot now)

/-- The flag recorded for the winner of a step. -/
def winnerBorrowed (s : ReferenceState) (winner : Entry) : Bool :=
  ((borrowedByWaiter (s.eligibleEntries snapshot now) (borrowed snapshot s.toPlanState)).get
    winner.waiter.waiterId).getD false

/-- Record a grant; the winner's request leaves the queue. -/
def applyGrant (s : ReferenceState) (winner : PlannerWaiter) (borrowed : Bool)
    (scheduler : SchedulerState) : ReferenceState where
  toPlanState := s.toPlanState.grant winner borrowed scheduler
  entries := s.entries.filter
    (fun entry => decide (entry.waiter.admissionRequestId ≠ winner.admissionRequestId))

end ReferenceState

/-- One round of the planning loop. -/
def referencePlanStep (s : ReferenceState) :
    Except RangeError (LoopStep StoppedBy ReferenceState) :=
  if grantsReached options.maxGrants s.grants then .ok (.stop .maxGrants s)
  else if limitReached snapshot.capacityLimit s.active then .ok (.stop .limit s)
  else if s.entries.isEmpty then .ok (.stop .none s)
  else
    if (s.eligibleEntries snapshot now).isEmpty then .ok (.stop .none s)
    else do
      let decision ← scheduleWeightedDeficitRoundRobin localeCompare Entry.candidate
        (s.eligibleEntries snapshot now) s.scheduler defaultPriorityQuanta
      match decision.winner with
      | .none => .ok (.stop .none s)
      | .some winner =>
        let granted := s.applyGrant winner.waiter (s.winnerBorrowed snapshot now winner)
          decision.state
        if options.requestId = some winner.waiter.admissionRequestId then
          .ok (.stop .requested granted)
        else .ok (.next granted)

/-- The state before the first pass. -/
def referenceInitial : ReferenceState where
  toPlanState := PlanState.ofSnapshot snapshot
  entries := referenceEntries localeCompare snapshot now options

/-- The reference's plan. -/
def referencePlanGrants : Except RangeError GrantPlan := do
  let result ← BoundedLoop.run .progress (referencePlanStep localeCompare snapshot now options)
    (snapshot.waiters.length + 1) (referenceInitial localeCompare snapshot now options)
  pure ⟨result.2.grants, result.2.scheduler, result.1⟩

end Reference

end ModelProxy.Capacity
