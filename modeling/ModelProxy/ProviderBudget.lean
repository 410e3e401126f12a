import ModelProxy.HostValues
import ModelProxy.RevisionLog
import Mathlib.Algebra.Order.Ring.Rat
import Mathlib.Data.String.Basic

/-! # Cloud spend admission and accounting

A cloud attempt reserves its liability against every cap that applies before any
provider I/O (`admitProviderBudget`).  Afterwards each delivery of usage appends
one ledger revision, settles the reservations and ends the attempt
(`reconcileProviderBudget`), and a crashed attempt is settled at its liability by
the repair sweep (`repairExpiredAttempt`).  Amounts are exact.  Each transaction is
a function of the spend tables; what it takes from outside (the database clock,
generated ids, string functions and the payload hash of the host) is a parameter.
-/
namespace ModelProxy.Spend

/-! ## Rows -/

/-- Where an attempt runs. -/
inductive AttemptKind
  | onNode
  | cloud
deriving DecidableEq, Repr

/-- How an attempt stands. -/
inductive AttemptState
  | active
  | completed
  | failed
  | cancelled
  | expired
deriving DecidableEq, Repr

/-- Why an attempt ended. -/
inductive TerminalReason
  | completed
  | failed
  | cancelled
  | timeout
  | crashRecovery
deriving DecidableEq, Repr

/-- A reservation is open until it is settled. -/
inductive ReservationState
  | reserved
  | settled
deriving DecidableEq, Repr

/-- What a cap limits: an account, or one share of it. -/
inductive SpendCapScope
  | providerAccount
  | share
deriving DecidableEq, Repr

/-- A provider attempt's row. -/
structure Attempt where
  id : String
  userId : String
  requestId : String
  kind : AttemptKind
  state : AttemptState
  fencingToken : Int
  expiresAt : Instant
  terminalAt : Option Instant
  terminalReason : Option TerminalReason
  poolId : Option String
  providerAccountId : Option String
  providerModelId : Option String
  credentialId : Option String
  shareId : Option String
  liabilityTokens : Option Int
  liabilitySpend : Option Rat
  liabilityCurrency : Option String
  pricingVersion : Option String
  accountingVersion : Option String
deriving DecidableEq, Repr

/-- A usage revision's row. -/
structure UsageLedger where
  createdAt : Instant
  userId : String
  providerAccountId : String
  providerModelId : String
  credentialId : Option String
  poolId : Option String
  shareId : Option String
  requestId : String
  attemptId : String
  fencingToken : Int
  settledCost : Option Rat
  currency : Option String
  costKnown : Bool
  revisionSequence : Int
  revisionKind : RevisionKind
  payloadHash : String
  terminalReason : TerminalReason
deriving DecidableEq, Repr

/-- The revision a ledger row records. -/
def UsageLedger.revision (l : UsageLedger) : Revision Rat :=
  ⟨l.revisionSequence, l.revisionKind, l.settledCost⟩

/-- The row that holds an attempt's liability against a cap. -/
structure SpendReservation where
  id : String
  userId : String
  capId : String
  capVersion : Int
  requestId : String
  attemptId : String
  fencingToken : Int
  window : MonthWindow
  reservedValue : Rat
  currency : String
  expiresAt : Instant
  state : ReservationState
  settledValue : Option Rat
  settledAt : Option Instant
deriving DecidableEq, Repr

/-- The row that settles a reservation. -/
structure SpendSettlement where
  userId : String
  reservationId : String
  attemptId : String
  fencingToken : Int
  sourceVersion : String
  revisionSequence : Int
  revisionKind : RevisionKind
  payloadHash : String
  pricingVersion : Option String
  settledValue : Rat
  currency : String
  reason : TerminalReason
deriving DecidableEq, Repr

/-- The revision a settlement row records. -/
def SpendSettlement.revision (row : SpendSettlement) : Revision Rat :=
  ⟨row.revisionSequence, row.revisionKind, some row.settledValue⟩

/-- A monthly limit in one currency. -/
structure SpendCap where
  id : String
  userId : String
  scope : SpendCapScope
  providerAccountId : Option String
  shareId : Option String
  monthlyLimit : Rat
  currency : String
  version : Int
deriving DecidableEq, Repr

/-- A provider model with the switches of its account. -/
structure ProviderModel where
  id : String
  userId : String
  providerAccountId : String
  enabled : Bool
  deleted : Bool
  accountEnabled : Bool
  accountDeleted : Bool
deriving DecidableEq, Repr

/-- A pricing version is drafted, in force, then retired. -/
inductive PricingStatus
  | draft
  | active
  | retired
deriving DecidableEq, Repr

/-- A pricing version's row. -/
structure ProviderPricingVersion where
  userId : String
  providerAccountId : String
  providerModelId : String
  version : String
  currency : String
  status : PricingStatus
  activatedAt : Option Instant
  effectiveAt : Instant
  retiredAt : Option Instant
deriving DecidableEq, Repr

/-- The configuration a transaction reads without a lock. -/
structure SpendGraph where
  caps : List SpendCap
  models : List ProviderModel
  pricings : List ProviderPricingVersion

/-- The tables the budget writes. -/
structure SpendStore where
  attempts : List Attempt
  ledger : List UsageLedger
  reservations : List SpendReservation
  settlements : List SpendSettlement
deriving DecidableEq, Repr

namespace SpendStore

/-- A store without rows. -/
def empty : SpendStore := ⟨[], [], [], []⟩

/-- The attempt with an id. -/
def attempt? (s : SpendStore) (id : String) : Option Attempt :=
  s.attempts.find? (fun a => decide (a.id = id))

/-- The ledger revisions of an attempt fence. -/
def revisionsOf (s : SpendStore) (attemptId : String) (fencingToken : Int) : List UsageLedger :=
  s.ledger.filter (fun l =>
    decide (l.attemptId = attemptId) && decide (l.fencingToken = fencingToken))

end SpendStore

/-! ## What a subject has spent -/

/-- The subject of a cap. -/
inductive SpendSubject
  | account (providerAccountId : String)
  | share (shareId : String)
deriving DecidableEq, Repr

namespace SpendSubject

/-- The revisions a subject pays for. -/
def ledger : SpendSubject → UsageLedger → Bool
  | .account providerAccountId, l => decide (l.providerAccountId = providerAccountId)
  | .share shareId, l => decide (l.shareId = some shareId)

/-- The attempts a subject pays for. -/
def attempt : SpendSubject → Attempt → Bool
  | .account providerAccountId, a => decide (a.providerAccountId = some providerAccountId)
  | .share shareId, a => decide (a.shareId = some shareId)

end SpendSubject

section Usage
variable (s : SpendStore)

/-- The attempt of this fence has its first revision in the window. -/
def firstInWindow (subject : SpendSubject) (window : MonthWindow) (attemptId : String)
    (fencingToken : Int) : Bool :=
  (s.revisionsOf attemptId fencingToken).any
      (fun l => subject.ledger l && window.contains l.createdAt) &&
    !(s.revisionsOf attemptId fencingToken).any (fun l => decide (l.createdAt < window.start))

/-- The revision counts toward its attempt's settled total. -/
def countedRevision (l : UsageLedger) : Bool :=
  Revision.counted ((s.revisionsOf l.attemptId l.fencingToken).map UsageLedger.revision) l.revision

/-- Settled cost of the attempts whose first revision falls in the window. -/
def settledLedger (subject : SpendSubject) (currency : String) (window : MonthWindow) : Rat :=
  ((s.ledger.filter (fun l => firstInWindow s subject window l.attemptId l.fencingToken &&
    decide (l.currency = some currency) && countedRevision s l)).map
      (fun l => l.settledCost.getD 0)).sum

/-- Active, and not a revision yet. -/
def inFlight (a : Attempt) : Bool :=
  decide (a.kind = .cloud) && decide (a.state = .active) &&
    (s.revisionsOf a.id a.fencingToken).isEmpty

/-- Liability of the attempts in flight. -/
def reservedAttempts (subject : SpendSubject) (currency : String) : Rat :=
  ((s.attempts.filter (fun a => subject.attempt a &&
    decide (a.liabilityCurrency = some currency) && inFlight s a)).map
      (fun a => a.liabilitySpend.getD 0)).sum

/-- What counts against a cap. -/
structure SpendUsage where
  spentThisMonth : Rat
  reservedNow : Rat
deriving DecidableEq, Repr

/-- What a subject has spent this month and has reserved. -/
def spendUsage (calendar : Calendar) (subject : SpendSubject) (currency : String)
    (now : Instant) : SpendUsage where
  spentThisMonth := settledLedger s subject currency (calendar.window now)
  reservedNow := reservedAttempts s subject currency

end Usage

/-! ## Text and amounts -/

/-- How a call of the budget fails. -/
inductive SpendError
  | configuration (message : String)
  | uniqueViolation
deriving DecidableEq, Repr

/-- How a usage number was found. -/
inductive UsageConfidence
  | reported
  | calculated
  | estimated
deriving DecidableEq, Repr

/-- Usage as a delivery reports it.  A cost that is no finite decimal is `some none`. -/
structure RawProviderUsage where
  inputTokens : Option Int
  outputTokens : Option Int
  cacheReadTokens : Option Int
  cacheWriteTokens : Option Int
  reasoningTokens : Option Int
  toolTokens : Option Int
  rawUsage : Option String
  additionalBillableTokens : Option Int
  authoritativeBillableTokens : Option Int
  reportedTotalTokens : Option Int
  categoriesComplete : Option Bool
  observationComplete : Option Bool
  reportedCost : Option (Option Rat)
  reportedCostCurrency : Option String
  reportedCostPricingVersion : Option String
  reportedCostSource : Option String
  calculatedCost : Option (Option Rat)
  calculatedCostCurrency : Option String
  calculatedCostPricingVersion : Option String
  calculatedCostSource : Option String
  calculatedCostConfidence : Option UsageConfidence
  currency : Option String
  pricingVersion : Option String
  accountingVersion : String
  confidence : UsageConfidence
deriving DecidableEq, Repr

/-- A delivery of usage for an attempt. -/
structure ProviderBudgetTerminal where
  userId : String
  providerAccountId : String
  providerModelId : String
  credentialId : Option String
  poolId : Option String
  requestId : String
  attemptId : String
  fencingToken : Int
  reason : TerminalReason
  /-- Explicit proof that provider I/O never began. -/
  notSent : Bool
  sourceVersion : Option String
  revisionSequence : Int
  revisionKind : RevisionKind
  usageSource : Option String
  observationComplete : Option Bool
  usage : Option RawProviderUsage
  crashExpiredAt : Option Instant
deriving DecidableEq, Repr

/-- Functions of the host language and its libraries.  The payload hash reads the
delivery, its source version, its usage source and its completeness. -/
structure Host where
  trim : String → String
  toUpperCase : String → String
  terminalPayloadHash : ProviderBudgetTerminal → String → String → Option Bool → String

/-- The largest value of a database's `bigint`. -/
def maxSignedBigint : Int := 9223372036854775807

/-- A finite amount that is not negative. -/
def decimal : Option Rat → Except SpendError Rat
  | none => .error (.configuration "Invalid amount")
  | some value => if value < 0 then .error (.configuration "Invalid amount") else .ok value

/-- A token count the database can hold. -/
def validToken : Option Int → Bool
  | none => true
  | some value => decide (0 ≤ value) && decide (value ≤ maxSignedBigint)

section Text
variable (host : Host)

/-- A version's text, trimmed and not empty. -/
def normalizedVersion (value : Option String) (label : String) : Except SpendError String :=
  match present (value.map host.trim) with
  | some normalized => .ok normalized
  | none => .error (.configuration (label ++ " is required"))

/-- Three capital letters. -/
def isCurrency (s : String) : Bool :=
  decide (s.length = 3) && s.toList.all (fun c => decide ('A' ≤ c) && decide (c ≤ 'Z'))

/-- A currency's text, trimmed and in capitals. -/
def normalizedCurrency : Option String → Except SpendError (Option String)
  | none => .ok none
  | some value =>
    let normalized := host.toUpperCase (host.trim value)
    if isCurrency normalized then .ok (some normalized)
    else .error (.configuration "Invalid currency")

/-- A version, checked when it is given. -/
def optionalVersion (value : Option String) (label : String) :
    Except SpendError (Option String) :=
  optional (fun version => normalizedVersion host (some version) label) value

/-- The usage a delivery may carry. -/
def assertUsage : Option RawProviderUsage → Except SpendError Unit
  | none => .ok ()
  | some usage =>
    let tokens := [usage.inputTokens, usage.outputTokens, usage.cacheReadTokens,
      usage.cacheWriteTokens, usage.reasoningTokens, usage.toolTokens,
      usage.additionalBillableTokens, usage.authoritativeBillableTokens,
      usage.reportedTotalTokens]
    if !tokens.all validToken then .error (.configuration "Invalid token usage")
    else if usage.authoritativeBillableTokens.isSome &&
        decide (usage.categoriesComplete = some true) then
      .error (.configuration "Ambiguous token accounting semantics")
    else do
      let _ ← optional decimal usage.reportedCost
      let _ ← optional decimal usage.calculatedCost
      let _ ← normalizedVersion host (some usage.accountingVersion) "accountingVersion"
      let _ ← optionalVersion host usage.pricingVersion "pricingVersion"
      let _ ← normalizedCurrency host usage.currency
      let _ ← normalizedCurrency host usage.reportedCostCurrency
      let _ ← normalizedCurrency host usage.calculatedCostCurrency
      let _ ← optionalVersion host usage.reportedCostPricingVersion "reportedCostPricingVersion"
      let _ ← optionalVersion host usage.calculatedCostPricingVersion "calculatedCostPricingVersion"
      let _ ← optionalVersion host usage.reportedCostSource "reportedCostSource"
      let _ ← optionalVersion host usage.calculatedCostSource "calculatedCostSource"
      .ok ()

end Text

/-! ## Admission -/

/-- What an attempt may cost at most, as the caller gives it. -/
structure ProviderLiability where
  tokens : Option Int
  spend : Option (Option Rat)
  currency : Option String
  pricingVersion : Option String
  accountingVersion : String
deriving DecidableEq, Repr

/-- What a caller asks to admit. -/
structure ProviderBudgetAttempt where
  userId : String
  providerAccountId : String
  providerModelId : String
  credentialId : Option String
  poolId : Option String
  shareId : Option String
  requestId : String
  attemptId : String
  fencingToken : Int
  liability : ProviderLiability
  expiresAt : Instant
deriving DecidableEq, Repr

/-- Why an attempt is not admitted. -/
inductive DenialReason
  | budgetExceeded
  | granteeBudgetExceeded
  | granteeCapUnpriceable
  | currencyUnavailable
  | pricingUnavailable
deriving DecidableEq, Repr

/-- The answer of an admission. -/
inductive ProviderBudgetAdmission
  | admitted (providerAttemptId : String) (reservationIds : List String)
  | denied (reason : DenialReason) (capId : String)
deriving DecidableEq, Repr

/-- Why a cap refuses. -/
inductive CapRefusal
  | exceeded
  | currency
  | pricing
deriving DecidableEq, Repr

/-- The denial a cap gives. -/
def capDenial (cap : SpendCap) (refusal : CapRefusal) : ProviderBudgetAdmission :=
  .denied
    (match cap.scope, refusal with
      | .share, .exceeded => .granteeBudgetExceeded
      | .share, _ => .granteeCapUnpriceable
      | .providerAccount, .exceeded => .budgetExceeded
      | .providerAccount, .currency => .currencyUnavailable
      | .providerAccount, .pricing => .pricingUnavailable)
    cap.id

/-- A liability with its text normalized. -/
structure CheckedLiability where
  spend : Option Rat
  currency : Option String
  pricingVersion : Option String
  accountingVersion : String
deriving DecidableEq, Repr

section Admission
variable (host : Host)

/-- What an admission checks of the attempt and its liability. -/
def checkLiability (attempt : ProviderBudgetAttempt) : Except SpendError CheckedLiability :=
  if attempt.fencingToken ≤ 0 ∨ attempt.fencingToken > maxSignedBigint ∨
      validToken attempt.liability.tokens = false then
    .error (.configuration "Invalid provider attempt identity")
  else do
    let accountingVersion ←
      normalizedVersion host (some attempt.liability.accountingVersion) "accountingVersion"
    let currency ← normalizedCurrency host attempt.liability.currency
    let pricingVersion ← optionalVersion host attempt.liability.pricingVersion "pricingVersion"
    let spend ← optional decimal attempt.liability.spend
    if spend.isSome && (currency.isNone || pricingVersion.isNone) then
      .error (.configuration "A spend liability needs its currency and pricing version")
    else .ok ⟨spend, currency, pricingVersion, accountingVersion⟩

/-- The cap binds the attempt. -/
def SpendCap.binds (cap : SpendCap) (attempt : ProviderBudgetAttempt) : Bool :=
  (decide (cap.scope = .providerAccount) &&
      decide (cap.providerAccountId = some attempt.providerAccountId)) ||
    (decide (cap.scope = .share) && (present attempt.shareId).isSome &&
      decide (cap.shareId = attempt.shareId))

/-- Account caps first, then by id. -/
def capOrder : Comparator SpendCap :=
  (Comparator.sign.comap (fun cap : SpendCap => decide (cap.scope = .share))).thenBy
    (Comparator.sign.comap SpendCap.id)

/-- The caps that bind an attempt. -/
def readCaps (graph : SpendGraph) (attempt : ProviderBudgetAttempt) :
    Except SpendError (List SpendCap) :=
  let caps := graph.caps.filter (fun cap => cap.binds attempt)
  if caps.any (fun cap => decide (cap.userId ≠ attempt.userId)) then
    .error (.configuration "A spend cap is not paid by the attempt's payer")
  else .ok (capOrder.sort caps)

/-- The subject a cap limits, for this attempt. -/
def SpendCap.subject (cap : SpendCap) (attempt : ProviderBudgetAttempt) : SpendSubject :=
  match cap.scope with
  | .share => .share (attempt.shareId.getD "")
  | .providerAccount => .account attempt.providerAccountId

/-- A replay of the attempt that was admitted. -/
def exactReplay (anchor : Attempt) (attempt : ProviderBudgetAttempt)
    (liability : CheckedLiability) : Bool :=
  decide (anchor.kind = .cloud) && decide (anchor.fencingToken = attempt.fencingToken) &&
    decide (anchor.userId = attempt.userId) && decide (anchor.requestId = attempt.requestId) &&
    decide (anchor.providerAccountId = some attempt.providerAccountId) &&
    decide (anchor.providerModelId = some attempt.providerModelId) &&
    decide (anchor.credentialId = attempt.credentialId) &&
    decide (anchor.poolId = attempt.poolId) && decide (anchor.shareId = attempt.shareId) &&
    decide (anchor.liabilityTokens = attempt.liability.tokens) &&
    decide (anchor.liabilitySpend = liability.spend) &&
    decide (anchor.liabilityCurrency = liability.currency) &&
    decide (anchor.pricingVersion = liability.pricingVersion) &&
    decide (anchor.accountingVersion = some liability.accountingVersion)

/-- The answer to an attempt that was admitted before. -/
def replayAdmission (now : Instant) (anchor : Attempt) (attempt : ProviderBudgetAttempt)
    (liability : CheckedLiability) (s : SpendStore) : Except SpendError ProviderBudgetAdmission :=
  if exactReplay anchor attempt liability = false then
    .error (.configuration "Attempt identity conflict")
  else if decide (anchor.state ≠ .active) || decide (anchor.expiresAt ≤ now) ||
      !(s.revisionsOf attempt.attemptId attempt.fencingToken).isEmpty then
    .error (.configuration "Provider attempt is no longer replayable")
  else
    let replay := s.reservations.filter (fun row => decide (row.attemptId = attempt.attemptId) &&
      decide (row.fencingToken = attempt.fencingToken))
    if replay.any (fun row => decide (row.state ≠ .reserved)) then
      .error (.configuration "Provider attempt is no longer replayable")
    else .ok (.admitted anchor.id ((Comparator.sign.sort (replay.map SpendReservation.id))))

/-- The attempt's model exists and is switched on. -/
def modelAvailable (graph : SpendGraph) (attempt : ProviderBudgetAttempt) : Bool :=
  graph.models.any (fun m => decide (m.id = attempt.providerModelId) &&
    decide (m.userId = attempt.userId) &&
    decide (m.providerAccountId = attempt.providerAccountId) && m.enabled && !m.deleted &&
    m.accountEnabled && !m.accountDeleted)

/-- The pricing version is in effect now. -/
def pricingInEffect (graph : SpendGraph) (attempt : ProviderBudgetAttempt)
    (version currency : String) (now : Instant) : Bool :=
  graph.pricings.any (fun p => decide (p.userId = attempt.userId) &&
    decide (p.providerAccountId = attempt.providerAccountId) &&
    decide (p.providerModelId = attempt.providerModelId) && decide (p.version = version) &&
    decide (p.currency = currency) && decide (p.status ≠ .draft) && p.activatedAt.isSome &&
    decide (p.effectiveAt ≤ now) &&
    p.retiredAt.all (fun retiredAt => decide (retiredAt > now)))

/-- The first cap the liability does not fit under. -/
def exceededCap (calendar : Calendar) (s : SpendStore) (attempt : ProviderBudgetAttempt)
    (currency : String) (spend : Rat) (now : Instant) (caps : List SpendCap) : Option SpendCap :=
  caps.find? (fun cap =>
    let usage := spendUsage s calendar (cap.subject attempt) currency now
    decide (usage.spentThisMonth + usage.reservedNow + spend > cap.monthlyLimit))

/-- Why the caps refuse the liability, if they do. -/
def capsDenial (calendar : Calendar) (graph : SpendGraph) (now : Instant) (s : SpendStore)
    (attempt : ProviderBudgetAttempt) (liability : CheckedLiability) :
    List SpendCap → Option ProviderBudgetAdmission
  | [] => none
  | first :: rest =>
    match liability.spend, liability.currency, liability.pricingVersion with
    | some spend, some currency, some version =>
      match (first :: rest).find? (fun cap => decide (cap.currency ≠ currency)) with
      | some mismatched => some (capDenial mismatched .currency)
      | none =>
        if pricingInEffect graph attempt version currency now then
          (exceededCap calendar s attempt currency spend now (first :: rest)).map
            (fun cap => capDenial cap .exceeded)
        else some (capDenial first .pricing)
    | _, _, _ => some (capDenial first .pricing)

/-- The row of an admitted attempt. -/
def newAttempt (attempt : ProviderBudgetAttempt) (liability : CheckedLiability) : Attempt where
  id := attempt.attemptId
  userId := attempt.userId
  requestId := attempt.requestId
  kind := .cloud
  state := .active
  fencingToken := attempt.fencingToken
  expiresAt := attempt.expiresAt
  terminalAt := none
  terminalReason := none
  poolId := attempt.poolId
  providerAccountId := some attempt.providerAccountId
  providerModelId := some attempt.providerModelId
  credentialId := attempt.credentialId
  shareId := attempt.shareId
  liabilityTokens := attempt.liability.tokens
  liabilitySpend := liability.spend
  liabilityCurrency := liability.currency
  pricingVersion := liability.pricingVersion
  accountingVersion := some liability.accountingVersion

/-- The row that reserves the liability against a cap. -/
def newReservation (window : MonthWindow) (attempt : ProviderBudgetAttempt)
    (liability : CheckedLiability) (cap : SpendCap) (id : String) : SpendReservation where
  id := id
  userId := attempt.userId
  capId := cap.id
  capVersion := cap.version
  requestId := attempt.requestId
  attemptId := attempt.attemptId
  fencingToken := attempt.fencingToken
  window := window
  reservedValue := liability.spend.getD 0
  currency := cap.currency
  expiresAt := attempt.expiresAt
  state := .reserved
  settledValue := none
  settledAt := none

/-- One reservation for every cap, in the window of the admission. -/
def newReservations (window : MonthWindow) (reservationId : String → String)
    (attempt : ProviderBudgetAttempt) (liability : CheckedLiability) (caps : List SpendCap) :
    List SpendReservation :=
  caps.map (fun cap => newReservation window attempt liability cap (reservationId cap.id))

/-- An admitted attempt with its reservations. -/
def SpendStore.insertAttempt (s : SpendStore) (a : Attempt) (rows : List SpendReservation) :
    SpendStore :=
  { s with attempts := s.attempts ++ [a], reservations := s.reservations ++ rows }

/-- Reserve the attempt's liability against every cap that applies, or refuse it. -/
def admitProviderBudget (calendar : Calendar) (graph : SpendGraph) (now : Instant)
    (reservationId : String → String) (attempt : ProviderBudgetAttempt) (s : SpendStore) :
    Except SpendError (ProviderBudgetAdmission × SpendStore) := do
  let liability ← checkLiability host attempt
  let caps ← readCaps graph attempt
  if attempt.expiresAt ≤ now then
    .error (.configuration "Provider attempt expiry is not in the future")
  else
    match s.attempt? attempt.attemptId with
    | some anchor => (replayAdmission now anchor attempt liability s).map (fun reply => (reply, s))
    | none =>
      if modelAvailable graph attempt = false then
        .error (.configuration "Provider model is unavailable")
      else
        match capsDenial calendar graph now s attempt liability caps with
        | some denial => .ok (denial, s)
        | none =>
          let rows := newReservations (calendar.window now) reservationId attempt liability caps
          if ((s.reservations ++ rows).map SpendReservation.id).Nodup then
            .ok (.admitted attempt.attemptId
                (Comparator.sign.sort (rows.map SpendReservation.id)),
              s.insertAttempt (newAttempt attempt liability) rows)
          else .error .uniqueViolation

end Admission

/-! ## Reconciliation -/

/-- An attempt's settled total: its latest snapshot plus every delta after it. -/
def revisionTotal (revisions : List UsageLedger) : Option Rat :=
  Revision.total ((Comparator.sign.comap Revision.sequence).sort
    (revisions.map UsageLedger.revision))

/-- The state a reason leaves an attempt in. -/
def terminalState : TerminalReason → AttemptState
  | .completed => .completed
  | .cancelled => .cancelled
  | .crashRecovery => .expired
  | .failed => .failed
  | .timeout => .failed

/-- What a delivery says about itself, with its text normalized. -/
structure CheckedTerminal where
  observationComplete : Option Bool
  sourceVersion : String
  usageSource : String
  payloadHash : String
deriving DecidableEq, Repr

/-- What a revision settles. -/
structure RevisionCost where
  cost : Option Rat
  currency : Option String
  costKnown : Bool
deriving DecidableEq, Repr

section Reconcile
variable (host : Host)

/-- What a reconcile checks of a delivery. -/
def checkTerminal (terminal : ProviderBudgetTerminal) : Except SpendError CheckedTerminal :=
  if terminal.fencingToken ≤ 0 ∨ terminal.fencingToken > maxSignedBigint ∨
      terminal.revisionSequence < 0 ∨ terminal.revisionSequence > maxSignedBigint then
    .error (.configuration "Invalid fencing token")
  else if terminal.notSent = true ∧ (terminal.usage.isSome = true ∨
      terminal.reason = .completed ∨ terminal.reason = .crashRecovery ∨
      terminal.revisionKind ≠ .snapshot) then
    .error (.configuration
      "Not-sent settlement requires a failed/cancelled snapshot without usage")
  else do
    assertUsage host terminal.usage
    let usageComplete := terminal.usage.bind RawProviderUsage.observationComplete
    if terminal.observationComplete.isSome && usageComplete.isSome &&
        decide (terminal.observationComplete ≠ usageComplete) then
      .error (.configuration "Conflicting terminal observation completeness")
    else do
      let observationComplete := terminal.observationComplete <|> usageComplete
      let crash := decide (terminal.reason = .crashRecovery)
      let sourceVersion ← normalizedVersion host
        (some (terminal.sourceVersion.getD (if crash then "crash-recovery-v1" else "terminal-v1")))
        "sourceVersion"
      let usageSource ← normalizedVersion host
        (some (terminal.usageSource.getD (if crash then "crash-repair" else "terminal")))
        "usageSource"
      .ok ⟨observationComplete, sourceVersion, usageSource,
        host.terminalPayloadHash terminal sourceVersion usageSource observationComplete⟩

/-- A cost counts only in the attempt's own price: its pricing version and currency. -/
def priceMatches (anchor : Attempt) (cost : Option (Option Rat)) (pricingVersion : Option String)
    (currency : Option String) : Bool :=
  cost.isSome && (present anchor.pricingVersion).isSome &&
    (present anchor.liabilityCurrency).isSome && decide (pricingVersion = anchor.pricingVersion) &&
    decide (currency = anchor.liabilityCurrency)

/-- The cost a delivery supplies in the attempt's own price, reported before calculated. -/
def suppliedCost (anchor : Attempt) (usage : Option RawProviderUsage)
    (reportedCurrency calculatedCurrency : Option String) : Option (Option Rat) :=
  let reportedCost := usage.bind RawProviderUsage.reportedCost
  let calculatedCost := usage.bind RawProviderUsage.calculatedCost
  let reportedPricingVersion :=
    (usage.bind (fun u => u.reportedCostPricingVersion <|> u.pricingVersion)).map host.trim
  let calculatedPricingVersion :=
    (usage.bind (fun u => u.calculatedCostPricingVersion <|> u.pricingVersion)).map host.trim
  if priceMatches anchor reportedCost reportedPricingVersion reportedCurrency then reportedCost
  else if priceMatches anchor calculatedCost calculatedPricingVersion calculatedCurrency then
    calculatedCost
  else none

/-- An unknown cost keeps the admitted liability: a snapshot states it, a delta tops
the total up to it. -/
def keptLiability (kind : RevisionKind) (liability : Rat) (priorTotal : Option Rat) : Rat :=
  match kind with
  | .snapshot => liability
  | .delta => max 0 (liability - priorTotal.getD 0)

/-- What an unknown cost settles; an unpriced attempt keeps the provider's own figure. -/
def unknownCost (anchor : Attempt) (terminal : ProviderBudgetTerminal)
    (reportedCurrency : Option String) (priorTotal : Option Rat) :
    Except SpendError RevisionCost :=
  match anchor.liabilitySpend with
  | some liability =>
    .ok ⟨some (keptLiability terminal.revisionKind liability priorTotal),
      anchor.liabilityCurrency, false⟩
  | none =>
    match terminal.usage.bind RawProviderUsage.reportedCost, reportedCurrency with
    | some reported, some currency =>
      (decimal reported).map (fun cost => ⟨some cost, some currency, false⟩)
    | _, _ => .ok ⟨none, anchor.liabilityCurrency, false⟩

/-- The amount of a new revision: nothing if the request was never sent, the cost if
it is known. -/
def revisionCost (anchor : Attempt) (terminal : ProviderBudgetTerminal)
    (observationComplete : Option Bool) (priorTotal : Option Rat) :
    Except SpendError RevisionCost := do
  let usage := terminal.usage
  let reportedCurrency ← normalizedCurrency host
    (usage.bind (fun u => u.reportedCostCurrency <|> u.currency))
  let calculatedCurrency ← normalizedCurrency host
    (usage.bind (fun u => u.calculatedCostCurrency <|> u.currency))
  if terminal.notSent then .ok ⟨some 0, anchor.liabilityCurrency, false⟩
  else
    match suppliedCost host anchor usage reportedCurrency calculatedCurrency,
        observationComplete with
    | some supplied, some true =>
      (decimal supplied).map (fun cost => ⟨some cost, anchor.liabilityCurrency, true⟩)
    | _, _ => unknownCost anchor terminal reportedCurrency priorTotal

/-- An attempt under this fence ends if it is still active. -/
def Attempt.finalized (attemptId : String) (fencingToken : Int) (reason : TerminalReason)
    (now : Instant) (a : Attempt) : Attempt :=
  if a.id = attemptId ∧ a.fencingToken = fencingToken ∧ a.state = .active then
    { a with
      state := terminalState reason
      terminalAt := some now
      terminalReason := some reason }
  else a

/-- The attempt is ended. -/
def finalize (s : SpendStore) (attemptId : String) (fencingToken : Int) (reason : TerminalReason)
    (now : Instant) : SpendStore :=
  { s with
    attempts := s.attempts.map (Attempt.finalized attemptId fencingToken reason now) }

/-- The settlement row that mirrors a ledger revision for one reservation. -/
def newSettlement (anchor : Attempt) (terminal : ProviderBudgetTerminal)
    (checked : CheckedTerminal) (cost : Option Rat) (reservation : SpendReservation) :
    SpendSettlement where
  userId := reservation.userId
  reservationId := reservation.id
  attemptId := terminal.attemptId
  fencingToken := terminal.fencingToken
  sourceVersion := checked.sourceVersion
  revisionSequence := terminal.revisionSequence
  revisionKind := terminal.revisionKind
  payloadHash := checked.payloadHash
  pricingVersion := anchor.pricingVersion
  settledValue := cost.getD 0
  currency := reservation.currency
  reason := terminal.reason

/-- The row of a recorded revision. -/
def newLedgerRow (anchor : Attempt) (terminal : ProviderBudgetTerminal)
    (checked : CheckedTerminal) (cost : RevisionCost) (createdAt : Instant) : UsageLedger where
  createdAt := createdAt
  userId := anchor.userId
  providerAccountId := terminal.providerAccountId
  providerModelId := terminal.providerModelId
  credentialId := anchor.credentialId
  poolId := anchor.poolId
  shareId := anchor.shareId
  requestId := anchor.requestId
  attemptId := terminal.attemptId
  fencingToken := terminal.fencingToken
  settledCost := cost.cost
  currency := if cost.cost.isSome then cost.currency else none
  costKnown := cost.costKnown
  revisionSequence := terminal.revisionSequence
  revisionKind := terminal.revisionKind
  payloadHash := checked.payloadHash
  terminalReason := terminal.reason

/-- The reservations of an attempt fence, in the order of their ids. -/
def SpendStore.reservationsOf (s : SpendStore) (attemptId : String) (fencingToken : Int) :
    List SpendReservation :=
  (Comparator.sign.comap SpendReservation.id).sort (s.reservations.filter (fun row =>
    decide (row.attemptId = attemptId) && decide (row.fencingToken = fencingToken)))

/-- A reservation of this fence is settled if it is still open. -/
def SpendReservation.settle (attemptId : String) (fencingToken : Int) (total : Rat)
    (now : Instant) (row : SpendReservation) : SpendReservation :=
  if row.attemptId = attemptId ∧ row.fencingToken = fencingToken ∧ row.state = .reserved then
    { row with state := .settled, settledValue := some total, settledAt := some now }
  else row

/-- Record a revision: a settlement row for every reservation, the reservations
settled at the total, one ledger row. -/
def recordRevision (anchor : Attempt) (terminal : ProviderBudgetTerminal)
    (checked : CheckedTerminal) (cost : RevisionCost) (priorTotal : Option Rat)
    (now createdAt : Instant) (s : SpendStore) : SpendStore :=
  let total := Revision.apply priorTotal
    ⟨terminal.revisionSequence, terminal.revisionKind, cost.cost⟩
  { s with
    settlements := s.settlements ++
      (s.reservationsOf terminal.attemptId terminal.fencingToken).map
        (newSettlement anchor terminal checked cost.cost)
    reservations := s.reservations.map
      (SpendReservation.settle terminal.attemptId terminal.fencingToken (total.getD 0) now)
    ledger := s.ledger ++ [newLedgerRow anchor terminal checked cost createdAt] }

/-- The delivery names the attempt it was admitted as. -/
def sameIdentity (anchor : Attempt) (terminal : ProviderBudgetTerminal) : Bool :=
  decide (anchor.userId = terminal.userId) &&
    decide (anchor.providerAccountId = some terminal.providerAccountId) &&
    decide (anchor.providerModelId = some terminal.providerModelId) &&
    decide (anchor.poolId = terminal.poolId) &&
    decide (anchor.credentialId = terminal.credentialId) &&
    decide (anchor.requestId = terminal.requestId)

/-- The attempt a delivery is for: a cloud attempt under the delivery's fence. -/
def SpendStore.anchor? (s : SpendStore) (terminal : ProviderBudgetTerminal) : Option Attempt :=
  (s.attempt? terminal.attemptId).filter (fun a =>
    decide (a.kind = .cloud) && decide (a.fencingToken = terminal.fencingToken))

/-- A crash settlement of an attempt that has not expired, or was renewed since. -/
def notExpired (anchor : Attempt) (terminal : ProviderBudgetTerminal) (now : Instant) : Bool :=
  decide (terminal.reason = .crashRecovery) && (decide (anchor.expiresAt > now) ||
    terminal.crashExpiredAt.any (fun cutoff => decide (anchor.expiresAt > cutoff)))

/-- Append one accounting revision for an admitted attempt, settle its reservations
and end the attempt. -/
def reconcileProviderBudget (now createdAt : Instant) (terminal : ProviderBudgetTerminal)
    (s : SpendStore) : Except SpendError SpendStore := do
  let checked ← checkTerminal host terminal
  match s.anchor? terminal with
  | none => .error (.configuration "No admitted provider attempt exists")
  | some anchor =>
    if notExpired anchor terminal now then .ok s
    else if sameIdentity anchor terminal = false then
      .error (.configuration "Terminal attempt identity conflict")
    else
      let previous := s.revisionsOf terminal.attemptId terminal.fencingToken
      match previous.find? (fun row =>
          decide (row.revisionSequence = terminal.revisionSequence)) with
      | some duplicate =>
        if duplicate.payloadHash ≠ checked.payloadHash ∨
            duplicate.revisionKind ≠ terminal.revisionKind then
          .error (.configuration "Accounting revision conflict")
        else
          .ok (finalize s terminal.attemptId terminal.fencingToken terminal.reason now)
      | none =>
        -- a terminal observation that committed first wins a crash sweep
        if terminal.reason = .crashRecovery ∧ previous ≠ [] then .ok s
        else if previous.any (fun row =>
            decide (row.revisionSequence > terminal.revisionSequence)) then
          .error (.configuration "Stale accounting revision")
        else do
          let priorTotal := revisionTotal previous
          let cost ← revisionCost host anchor terminal checked.observationComplete priorTotal
          .ok (finalize
            (recordRevision anchor terminal checked cost priorTotal now createdAt s)
            terminal.attemptId terminal.fencingToken terminal.reason now)

/-! ## Crash repair -/

/-- A row of the repair scan. -/
structure ExpiredRow where
  id : String
  userId : String
  requestId : String
  fencingToken : Int
  providerAccountId : Option String
  providerModelId : Option String
  credentialId : Option String
  poolId : Option String
deriving DecidableEq, Repr

/-- The crash settlement of a scanned attempt. -/
def crashTerminal (row : ExpiredRow) (providerAccountId providerModelId : String)
    (cutoff : Instant) : ProviderBudgetTerminal where
  userId := row.userId
  providerAccountId := providerAccountId
  providerModelId := providerModelId
  credentialId := row.credentialId
  poolId := row.poolId
  requestId := row.requestId
  attemptId := row.id
  fencingToken := row.fencingToken
  reason := .crashRecovery
  notSent := false
  sourceVersion := none
  revisionSequence := 0
  revisionKind := .snapshot
  usageSource := none
  observationComplete := none
  usage := none
  crashExpiredAt := some cutoff

/-- An attempt with a revision only has its state ended; one without is settled at
its liability. -/
def repairExpiredAttempt (row : ExpiredRow) (cutoff now createdAt : Instant) (s : SpendStore) :
    Except SpendError SpendStore :=
  match present row.providerAccountId, present row.providerModelId with
  | some providerAccountId, some providerModelId =>
    let latest := ((Comparator.sign.comap UsageLedger.revisionSequence).flip.sort
      (s.revisionsOf row.id row.fencingToken)).head?
    match latest with
    | some latest => .ok (finalize s row.id row.fencingToken latest.terminalReason now)
    | none =>
      reconcileProviderBudget host now createdAt
        (crashTerminal row providerAccountId providerModelId cutoff) s
  | _, _ => .ok s

end Reconcile

/-! ## Histories -/

/-- One transaction, with the database clock it reads and what it takes from outside. -/
inductive SpendStep
  | admission (now : Instant) (graph : SpendGraph) (reservationId : String → String)
      (attempt : ProviderBudgetAttempt)
  | reconcile (now createdAt : Instant) (terminal : ProviderBudgetTerminal)
  | repair (now createdAt cutoff : Instant) (row : ExpiredRow)

namespace SpendStep

/-- The time of a step. -/
def now : SpendStep → Instant
  | .admission now _ _ _ => now
  | .reconcile now _ _ => now
  | .repair now _ _ _ => now

/-- The time a ledger row of the transaction is stamped with. -/
def createdAt : SpendStep → Instant
  | .admission now _ _ _ => now
  | .reconcile _ createdAt _ => createdAt
  | .repair _ createdAt _ _ => createdAt

end SpendStep

section Run
variable (calendar : Calendar) (host : Host)

/-- What a step does. -/
def SpendStep.run (s : SpendStore) : SpendStep → Except SpendError SpendStore
  | .admission now graph reservationId attempt =>
    (admitProviderBudget host calendar graph now reservationId attempt s).map Prod.snd
  | .reconcile now createdAt terminal => reconcileProviderBudget host now createdAt terminal s
  | .repair now createdAt cutoff row => repairExpiredAttempt host row cutoff now createdAt s

/-- What a transaction commits: a failed one is rolled back. -/
def SpendStep.commit (s : SpendStore) (step : SpendStep) : SpendStore :=
  match step.run calendar host s with
  | .ok s' => s'
  | .error _ => s

/-- A history of committed transactions. -/
def executeSpend (s : SpendStore) (history : List SpendStep) : SpendStore :=
  history.foldl (SpendStep.commit calendar host) s

end Run

end ModelProxy.Spend
