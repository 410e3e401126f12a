import Mathlib.Data.Int.Basic
import ModelProxy.CrashPrograms

/-! # The circuit breaker of an execution target

The health columns of a target are its breaker.  Requests and recovery probes claim the half-open
trial of a target that is due; the time of the claim stands in the row, and is the fence of the
writes that end the trial.  A call is a program over two statements of the database, a read of the
row and an update of it under a condition.
-/
namespace ModelProxy.Breaker

/-- TARGET_UNHEALTHY_AFTER_RETRYABLE_FAILURES -/
def targetUnhealthyAfterRetryableFailures : ℕ := 3

/-- TARGET_HEALTH_COOLDOWN_MS -/
def targetHealthCooldownMs : ℤ := 60000

/-- TARGET_HALF_OPEN_LEASE_MS -/
def targetHalfOpenLeaseMs : ℤ := 16 * 60000

/-- TARGET_RECOVERY_BACKOFF_MS -/
def targetRecoveryBackoffMs : List ℤ := [1000, 3000, 5000, 10000, 15000, 20000, 30000]

/-- The health a target's row records. -/
inductive TargetHealthStatus
  | unknown | healthy | halfOpen | degraded | unhealthy
deriving DecidableEq

/-- The failures a target's row records. -/
inductive TargetFailureClass
  | transport | relayTimeout | websocketDisconnected | staleSession | upstream5xx
deriving DecidableEq

/-- The node is away. -/
def nodeUnavailableFailureClasses : List TargetFailureClass :=
  [.websocketDisconnected, .staleSession]

/-- How a relayed request fails. -/
inductive RelayFailureClass
  | transport | timeout | disconnected | upstream5xx | upstream4xx | unsupportedCapability
  | notFound | accessDenied | rateLimited | requestTooLarge | cancelled | protocolError | unknown

/-- The health columns of a target. -/
structure Target where
  health : TargetHealthStatus
  lastFailureClass : Option TargetFailureClass
  consecutiveRetryableFailures : ℕ
  lastFailureAt : Option ℤ
  nextRetryAt : Option ℤ
  halfOpenTrialStartedAt : Option ℤ

/-- What the failure of an attempt says of its target; `none` for nothing. -/
def targetFailureClassForRelayFailure : RelayFailureClass → Option TargetFailureClass
  | .transport => some .transport
  | .timeout => some .relayTimeout
  | .disconnected => some .websocketDisconnected
  | .upstream5xx => some .upstream5xx
  | .protocolError => some .transport
  | _ => none

/-! ## The state of the breaker -/

/-- The trial's lease has not run out. -/
def targetTrialLive (startedAt : Option ℤ) (now : ℤ) : Bool :=
  startedAt.any fun startedAt => now - targetHalfOpenLeaseMs < startedAt

/-- `trial` is the time of the claim and whether its lease lasts. -/
inductive TargetBreakerState
  | closed
  | degraded (retryAt : Option ℤ) (due : Bool)
  | opened (retryAt : Option ℤ) (due : Bool)
  | halfOpen (trial : Option (ℤ × Bool))

/-- The breaker a row stands for. -/
def targetBreakerState (target : Target) (now : ℤ) : TargetBreakerState :=
  let due := target.nextRetryAt.any fun retryAt => retryAt ≤ now
  match target.health with
  | .healthy | .unknown => .closed
  | .halfOpen => .halfOpen (target.halfOpenTrialStartedAt.map fun startedAt =>
      (startedAt, targetTrialLive (some startedAt) now))
  | .degraded => .degraded target.nextRetryAt due
  | .unhealthy => .opened target.nextRetryAt due

/-- A trial is running. -/
def targetTrialInFlight : TargetBreakerState → Bool
  | .halfOpen (some (_, live)) => live
  | _ => false

/-- The trial of the stamp is the target's. -/
def targetTrialHeldBy (state : TargetBreakerState) (trialStartedAt : ℤ) : Bool :=
  match state with
  | .halfOpen (some (startedAt, _)) => startedAt = trialStartedAt
  | _ => false

/-! ## Conditions on a row -/

/-- A trial begun by then has lapsed. -/
def lapsedTrialCutoff (now : ℤ) : ℤ := now - targetHalfOpenLeaseMs

/-- A null is not before any time. -/
def lte (column : Option ℤ) (time : ℤ) : Bool := column.any fun value => value ≤ time

/-- The row has no running trial. -/
def targetNoTrialInFlightWhere (now : ℤ) (row : Target) : Bool :=
  row.health ≠ .halfOpen || row.halfOpenTrialStartedAt = none ||
    lte row.halfOpenTrialStartedAt (lapsedTrialCutoff now)

/-- The row is due for a recovery trial. -/
def targetDueWhere (now : ℤ) (row : Target) : Bool :=
  (row.health = .degraded || row.health = .unhealthy) && lte row.nextRetryAt now

/-- The row waits for its retry time. -/
def targetCoolingDownWhere (now : ℤ) (row : Target) : Bool :=
  (row.health = .degraded || row.health = .unhealthy) &&
    (row.nextRetryAt = none || row.nextRetryAt.any fun retryAt => now < retryAt)

/-- A request may claim the row's trial. -/
def targetHalfOpenClaimableWhere (now : ℤ) (allowDegraded : Bool) (row : Target) : Bool :=
  row.health = .unhealthy && lte row.nextRetryAt now ||
    row.health = .halfOpen && row.halfOpenTrialStartedAt = none ||
    row.health = .halfOpen && lte row.halfOpenTrialStartedAt (lapsedTrialCutoff now) ||
    allowDegraded && row.health = .degraded && lte row.nextRetryAt now

/-- The condition of whoever claimed the trial at a time. -/
def trialWhere (trialStartedAt : ℤ) (row : Target) : Bool :=
  row.health = .halfOpen && row.halfOpenTrialStartedAt = some trialStartedAt

/-- The rows an outcome may write: of its trial, or without one. -/
def targetOutcomeFence (trialStartedAt : Option ℤ) (now : ℤ) : Target → Bool :=
  match trialStartedAt with
  | some trialStartedAt => trialWhere trialStartedAt
  | none => targetNoTrialInFlightWhere now

theorem trialWhere_iff {trialStartedAt : ℤ} {row : Target} : trialWhere trialStartedAt row = true ↔
    row.health = .halfOpen ∧ row.halfOpenTrialStartedAt = some trialStartedAt := by
  simp [trialWhere]

/-- In memory as in the database. -/
theorem trialHeldBy_iff {row : Target} {now started : ℤ} :
    targetTrialHeldBy (targetBreakerState row now) started = true ↔
      trialWhere started row = true := by
  unfold targetBreakerState trialWhere
  cases row.health <;> cases row.halfOpenTrialStartedAt <;> simp [targetTrialHeldBy]

/-! ## What is written -/

/-- The row of a target that works. -/
def resetTargetHealth : Target := ⟨.healthy, none, 0, none, none, none⟩

/-- The wait after so many failures. -/
def targetRecoveryDelayMs (consecutiveFailures : ℕ) : ℤ :=
  let index := min (consecutiveFailures - 1) (targetRecoveryBackoffMs.length - 1)
  targetRecoveryBackoffMs.getD index targetHealthCooldownMs

/-- The row after a failure. -/
def transitionTargetHealthAfterRetryableFailure (target : Target)
    (failureClass : TargetFailureClass) (now : ℤ) : Target :=
  let consecutiveRetryableFailures := target.consecutiveRetryableFailures + 1
  let failedHalfOpenTrial :=
    match targetBreakerState target now with
    | .halfOpen _ => true
    | .opened _ due => due
    | _ => false
  { health :=
      if failedHalfOpenTrial ||
          targetUnhealthyAfterRetryableFailures ≤ consecutiveRetryableFailures then .unhealthy
      else .degraded
    lastFailureClass := some failureClass
    consecutiveRetryableFailures
    lastFailureAt := some now
    nextRetryAt := some (now + targetRecoveryDelayMs consecutiveRetryableFailures)
    halfOpenTrialStartedAt := none }

/-- The row after its node is lost. -/
def transitionTargetHealthForNodeUnavailable (failureClass : TargetFailureClass) (now : ℤ) :
    Target where
  health := .unhealthy
  lastFailureClass := some failureClass
  consecutiveRetryableFailures := targetUnhealthyAfterRetryableFailures
  lastFailureAt := some now
  nextRetryAt := some (now + targetHealthCooldownMs)
  halfOpenTrialStartedAt := none

/-! ## The calls -/

/-- Statements on the row of the target. -/
inductive Query
  | findUnique
  | updateMany (keeps : Target → Bool) (data : Target → Target)

/-- An update gives the number of its rows. -/
def Query.Reply : Query → Type
  | .findUnique => Target
  | .updateMany _ _ => ℕ

/-- A call: statements on the target's row. -/
abbrev Call := Program Query Query.Reply

/-- Reads the row. -/
def findUnique : Call Target := .act .findUnique .done

/-- Writes the row if it is as expected, and counts it. -/
def updateMany (keeps : Target → Bool) (data : Target → Target) : Call ℕ :=
  .act (.updateMany keeps data) .done

/-- What a claim writes. -/
def claimedAt (now : ℤ) (row : Target) : Target :=
  { row with health := .halfOpen, halfOpenTrialStartedAt := some now }

/-- A request claims the trial. -/
def markTargetHalfOpenTrial (allowDegradedFallback : Bool) (now : ℤ) : Call ℕ :=
  updateMany (targetHalfOpenClaimableWhere now allowDegradedFallback) (claimedAt now)

/-- A probe claims the trial. -/
def claimTargetRecoveryTrial (now : ℤ) : Call (Option ℤ) := do
  let count ← updateMany (targetDueWhere now) (claimedAt now)
  return if count = 1 then some now else none

/-- A trial that was not made is given back. -/
def returnTargetTrial (trialStartedAt now : ℤ) : Call Unit := do
  let target ← findUnique
  let _ ← updateMany (trialWhere trialStartedAt) fun row =>
    { row with
      health := .unhealthy
      halfOpenTrialStartedAt := none
      nextRetryAt := some (now + targetRecoveryDelayMs target.consecutiveRetryableFailures) }

/-- A trial ends without an outcome. -/
def releaseTargetHalfOpenTrial (trialStartedAt : ℤ) : Call Bool := do
  let count ← updateMany (trialWhere trialStartedAt) fun row =>
    { row with halfOpenTrialStartedAt := none }
  return count = 1

/-- The caller may record an outcome. -/
def owned (trialStartedAt : Option ℤ) (breaker : TargetBreakerState) : Bool :=
  match trialStartedAt with
  | some trialStartedAt => targetTrialHeldBy breaker trialStartedAt
  | none => !targetTrialInFlight breaker

/-- The loop of `recordTargetRelayFailure`: whether a retry makes sense, and what was written. -/
def failureAttempts (failureClass : TargetFailureClass) (trialStartedAt : Option ℤ) (now : ℤ) :
    ℕ → Call (Bool × Option Target)
  | 0 => return (true, none)
  | attempts + 1 => do
    let target ← findUnique
    if owned trialStartedAt (targetBreakerState target now) then do
      let update := transitionTargetHealthAfterRetryableFailure target failureClass now
      let count ← updateMany
        (fun row => row.health = target.health &&
          row.halfOpenTrialStartedAt = target.halfOpenTrialStartedAt &&
          row.consecutiveRetryableFailures = target.consecutiveRetryableFailures &&
          (trialStartedAt.isSome || targetOutcomeFence none now row))
        fun _ => update
      if count = 1 then return (true, some update)
      else failureAttempts failureClass trialStartedAt now attempts
    else return (true, none)

/-- A failed request is recorded. -/
def recordTargetRelayFailure (failure : RelayFailureClass) (trialStartedAt : Option ℤ) (now : ℤ) :
    Call (Bool × Option Target) :=
  match targetFailureClassForRelayFailure failure with
  | none => do
    -- nothing is said of the target: a trial waits out its backoff
    if let some trialStartedAt := trialStartedAt then returnTargetTrial trialStartedAt now
    return (false, none)
  | some .websocketDisconnected => do
    if let some trialStartedAt := trialStartedAt then
      let _ ← releaseTargetHalfOpenTrial trialStartedAt
    return (true, none)
  | some failureClass => failureAttempts failureClass trialStartedAt now 3

/-- A request that succeeded is recorded. -/
def markTargetRelaySuccess (trialStartedAt : Option ℤ) (now : ℤ) : Call Unit := do
  let _ ← updateMany (targetOutcomeFence trialStartedAt now) fun _ => resetTargetHealth

/-- A probe's outcome is recorded. -/
def settleTargetRecoveryTrial (trialStartedAt : ℤ) (healthy : Bool) (now : ℤ) : Call Bool := do
  let target ← findUnique
  if targetTrialHeldBy (targetBreakerState target now) trialStartedAt then do
    let count ← updateMany (trialWhere trialStartedAt) fun _ =>
      if healthy then resetTargetHealth
      else transitionTargetHealthAfterRetryableFailure target .transport now
    return count = 1
  else return false

/-- A probe gives its trial up; the target is due at once. -/
def abandonTargetRecoveryTrial (trialStartedAt now : ℤ) : Call Bool := do
  let count ← updateMany (trialWhere trialStartedAt) fun row =>
    { row with health := .unhealthy, nextRetryAt := some now, halfOpenTrialStartedAt := none }
  return count = 1

/-- The update of one target, in the transaction that marks the node offline.  A target that cools
down for a failure of its own keeps it. -/
def markTargetsForNodeUnavailable (failureClass : TargetFailureClass) (now : ℤ) : Call ℕ :=
  updateMany
    (fun row => !(targetCoolingDownWhere now row &&
      row.lastFailureClass.any fun failureClass => failureClass ∉ nodeUnavailableFailureClasses))
    fun _ => transitionTargetHealthForNodeUnavailable failureClass now

end ModelProxy.Breaker
