import ModelProxy.JsStrings
import ModelProxy.OrderedMap

/-! # Usage rollups

A finished request adds one increment to the minute table, in the transaction that moved it
out of `PENDING`; minutes past their time are moved to the hour table.  Increments with one
key are merged before they are written, and writing adds to the row that is there.

Rows are kept under their key, the owner's and requester's ids, what served the request and
its source.  Texts of the database have no NUL, which separates the parts of `rollupKeyString`.
-/
namespace ModelProxy.Usage

/-- The separator of key texts. -/
def nul : Char := '\x00'

/-- A text the database can store. -/
abbrev DbText := {text : List Char // nul ∉ text}

/-- The empty text, which stands for no value. -/
def DbText.empty : DbText := ⟨[], List.not_mem_nil⟩

/-- `Date.toISOString`: distinct times have distinct texts. -/
structure IsoText where
  text : ℤ → List Char
  injective : Function.Injective text
  nulFree : ∀ time, nul ∉ text time

/-- Where a request came from. -/
inductive RequestSource
  | apiKey | test | agentTest | sidecar
deriving DecidableEq

/-- The source as the database writes it. -/
def RequestSource.text : RequestSource → List Char
  | .apiKey => "API_KEY".toList
  | .test => "TEST".toList
  | .agentTest => "AGENT_TEST".toList
  | .sidecar => "SIDECAR".toList

/-- A request is pending until it ends. -/
inductive RequestStatus
  | pending | succeeded | failed | canceled
deriving DecidableEq

/-- What the rollup reads of a request.  Times are in milliseconds. -/
structure RelayRollupRow where
  id : DbText
  userId : DbText
  route : Option (List Char)
  external : Bool
  rejection : Option (List Char)
  status : RequestStatus
  source : RequestSource
  startedAt : ℤ
  completedAt : Option ℤ
  durationMs : Option ℤ
  firstClientByteAt : Option ℤ
  queueWaitMs : Option ℤ
  poolId : Option DbText
  runtimeModelId : Option DbText
  selectedInstanceId : Option DbText
  selectedVersionId : Option DbText
  selectedNodeId : Option DbText
  selectedProviderModelId : Option DbText
  attemptCount : ℤ
  promptTokens : Option ℤ
  completionTokens : Option ℤ
  cacheReadTokens : Option ℤ
  cacheWriteTokens : Option ℤ
  usageKnown : Bool
  affinityOutcome : Option (List Char)
  operation : Option (List Char)
  audioInputMs : Option ℤ
  contextTokenCount : Option ℤ
  resourceOwnerUserId : Option DbText

/-- What rollup rows are kept by. -/
structure UsageRollupKey where
  bucketStart : ℤ
  ownerUserId : DbText
  requesterUserId : DbText
  poolId : DbText
  runtimeId : DbText
  versionId : DbText
  nodeId : DbText
  instanceId : DbText
  runtimeModelId : DbText
  providerModelId : DbText
  source : RequestSource
deriving DecidableEq

/-! ## Counters and histograms -/

/-- The counters of a rollup row. -/
inductive Counter
  | requests | successes | errors | cancels | retries | cloudRequests
  | rejectedCapacity | rejectedContext | rejectedSpend | rejectedOther
  | usageKnownRequests | inputTokens | outputTokens | cacheReadTokens | cacheWriteTokens
  | cacheKnownRequests | cacheKnownInputTokens
  | continuationRequests | continuationInputTokens | continuationCacheReadTokens
  | durationCount | durationSumMs | ttftCount | ttftSumMs | queueWaitCount | queueWaitSumMs
  | generationTokens | generationMs | prefillTokens | prefillMs | audioInputMs
deriving DecidableEq

/-- USAGE_ROLLUP_COUNTERS -/
def usageRollupCounters : List Counter :=
  [.requests, .successes, .errors, .cancels, .retries, .cloudRequests,
    .rejectedCapacity, .rejectedContext, .rejectedSpend, .rejectedOther,
    .usageKnownRequests, .inputTokens, .outputTokens, .cacheReadTokens, .cacheWriteTokens,
    .cacheKnownRequests, .cacheKnownInputTokens,
    .continuationRequests, .continuationInputTokens, .continuationCacheReadTokens,
    .durationCount, .durationSumMs, .ttftCount, .ttftSumMs, .queueWaitCount, .queueWaitSumMs,
    .generationTokens, .generationMs, .prefillTokens, .prefillMs, .audioInputMs]

/-- The counters stored as `BIGINT`, and held as `bigint`. -/
def bigRollupCounters : List Counter :=
  [.inputTokens, .outputTokens, .cacheReadTokens, .cacheWriteTokens, .cacheKnownInputTokens,
    .continuationInputTokens, .continuationCacheReadTokens, .durationSumMs, .ttftSumMs,
    .queueWaitSumMs, .generationTokens, .generationMs, .prefillTokens, .prefillMs, .audioInputMs]

/-- The histograms of a rollup row. -/
inductive Histogram
  | latencyHistogram | ttftHistogram | queueWaitHistogram
deriving DecidableEq

/-- USAGE_ROLLUP_HISTOGRAMS -/
def usageRollupHistograms : List Histogram :=
  [.latencyHistogram, .ttftHistogram, .queueWaitHistogram]

/-- A counter of the program is a `number` or a `bigint`. -/
inductive CounterValue
  | number (n : ℤ)
  | big (n : ℤ)
deriving DecidableEq

/-- The number, whatever its kind. -/
def CounterValue.toInt : CounterValue → ℤ
  | .number n => n
  | .big n => n

/-- What an increment adds. -/
structure UsageRollupCounters where
  count : Counter → CounterValue
  histogram : Histogram → List ℤ

/-- A row's key and what is added to it. -/
structure UsageRollupIncrement where
  key : UsageRollupKey
  counters : UsageRollupCounters

/-- LATENCY_HISTOGRAM_BOUNDS_MS -/
def latencyHistogramBoundsMs : List ℤ :=
  [10, 20, 30, 50, 75, 100, 150, 200, 300, 500, 750, 1000, 1500, 2000, 3000, 5000, 7500, 10000,
    15000, 20000, 30000, 60000, 120000, 300000]

/-- The buckets between the bounds and above the last one. -/
def latencyHistogramBuckets : ℕ := latencyHistogramBoundsMs.length + 1

/-- A histogram that counts nothing. -/
def emptyLatencyHistogram : List ℤ := List.replicate latencyHistogramBuckets 0

/-- The bucket a duration falls in. -/
def latencyBucketIndex (durationMs : ℤ) : ℕ :=
  (latencyHistogramBoundsMs.takeWhile fun bound => bound ≤ max 0 durationMs).length

/-- A histogram with one measurement, or none. -/
def histogramOf (value : Option ℤ) : List ℤ :=
  match value with
  | none => emptyLatencyHistogram
  | some value => emptyLatencyHistogram.modify (latencyBucketIndex value) (· + 1)

/-- The sum bucket by bucket, over at least `length` buckets; a missing bucket counts 0. -/
def sumBuckets (length : ℕ) (left right : List ℤ) : List ℤ :=
  (List.range (max (max left.length right.length) length)).map fun i =>
    left.getD i 0 + right.getD i 0

/-- `addHistograms`: never shorter than the layout. -/
def addHistograms (left right : List ℤ) : List ℤ :=
  sumBuckets latencyHistogramBuckets left right

/-- The sum as the database takes it: `unnest` pads the shorter array. -/
def histogramMerge (left right : List ℤ) : List ℤ := sumBuckets 0 left right

/-! ## The increment of a request -/

/-- A minute in milliseconds. -/
def minuteMs : ℤ := 60000

/-- An hour in milliseconds. -/
def hourMs : ℤ := 60 * minuteMs

/-- The start of a time's minute. -/
def truncateToMinute (time : ℤ) : ℤ := time / minuteMs * minuteMs

/-- The start of a time's hour. -/
def truncateToHour (time : ℤ) : ℤ := time / hourMs * hourMs

/-- Whether a request went where its cache was. -/
def isMatchedAffinityOutcome (value : Option (List Char)) : Bool :=
  value = some "PREDICTED_MATCH".toList || value = some "HOLDER_WAITED".toList

/-- The operation whose latency is not counted. -/
def realtimeTranscriptionOperation : List Char := "audio.realtime_transcription".toList

/-- Whose usage a request is. -/
def resourceOwnerUserId (row : RelayRollupRow) : DbText :=
  if row.route = some "own_key".toList then row.userId
  else row.resourceOwnerUserId.getD row.userId

/-- One if the test holds. -/
def flag (b : Bool) : ℤ := if b then 1 else 0

/-- The measures of a request that its counters use. -/
structure RequestMeasures where
  durationMs : Option ℤ
  ttftMs : Option ℤ
  generationMs : Option ℤ
  prefillMs : Option ℤ
  cacheKnown : Bool
  continuation : Bool
  outputTokens : ℤ

/-- What a finished request measures. -/
def requestMeasures (row : RelayRollupRow) : RequestMeasures :=
  let realtime := row.operation = some realtimeTranscriptionOperation
  let ttftMs := row.firstClientByteAt.map fun first => max 0 (first - row.startedAt)
  let cacheKnown := row.usageKnown && row.cacheReadTokens.isSome
  { durationMs := if realtime then none else row.durationMs
    ttftMs
    generationMs :=
      if realtime then none
      else
        match row.firstClientByteAt, row.completedAt with
        | some first, some completed => some (max 0 (completed - first))
        | _, _ => none
    prefillMs :=
      match ttftMs, row.queueWaitMs with
      | some ttft, some wait => some (max 0 (ttft - wait))
      | _, _ => none
    cacheKnown
    continuation := cacheKnown && isMatchedAffinityOutcome row.affinityOutcome
    outputTokens := if row.usageKnown then row.completionTokens.getD 0 else 0 }

/-- What a finished request adds to each counter. -/
def requestCount (row : RelayRollupRow) : Counter → CounterValue :=
  let m := requestMeasures row
  let rejected := row.rejection.getD []
  let rejectedFor (family : String) : Bool := family.toList.isPrefixOf rejected
  fun
  | .requests => .number 1
  | .successes => .number (flag (row.status = .succeeded))
  | .errors => .number (flag (row.status = .failed))
  | .cancels => .number (flag (row.status = .canceled))
  | .retries => .number (max 0 (row.attemptCount - 1))
  | .cloudRequests => .number (flag row.external)
  | .rejectedCapacity => .number (flag (rejectedFor "capacity"))
  | .rejectedContext => .number (flag (rejectedFor "context"))
  | .rejectedSpend => .number (flag (rejectedFor "spend"))
  | .rejectedOther => .number (flag (rejected ≠ [] && !rejectedFor "capacity" &&
      !rejectedFor "context" && !rejectedFor "spend"))
  | .usageKnownRequests => .number (flag row.usageKnown)
  | .inputTokens => .big (if row.usageKnown then row.promptTokens.getD 0 else 0)
  | .outputTokens => .big m.outputTokens
  | .cacheReadTokens => .big (if m.cacheKnown then row.cacheReadTokens.getD 0 else 0)
  | .cacheWriteTokens => .big (if row.usageKnown then row.cacheWriteTokens.getD 0 else 0)
  | .cacheKnownRequests => .number (flag m.cacheKnown)
  | .cacheKnownInputTokens => .big (if m.cacheKnown then row.promptTokens.getD 0 else 0)
  | .continuationRequests => .number (flag m.continuation)
  | .continuationInputTokens => .big (if m.continuation then row.promptTokens.getD 0 else 0)
  | .continuationCacheReadTokens =>
    .big (if m.continuation then row.cacheReadTokens.getD 0 else 0)
  | .durationCount => .number (flag m.durationMs.isSome)
  | .durationSumMs => .big (m.durationMs.getD 0)
  | .ttftCount => .number (flag m.ttftMs.isSome)
  | .ttftSumMs => .big (m.ttftMs.getD 0)
  | .queueWaitCount => .number (flag row.queueWaitMs.isSome)
  | .queueWaitSumMs => .big (row.queueWaitMs.getD 0)
  | .generationTokens => .big (if m.generationMs.isNone then 0 else m.outputTokens)
  | .generationMs => .big (if m.outputTokens = 0 then 0 else m.generationMs.getD 0)
  | .prefillTokens => .big (if m.prefillMs.isNone then 0 else row.contextTokenCount.getD 0)
  | .prefillMs => .big (if row.contextTokenCount.getD 0 = 0 then 0 else m.prefillMs.getD 0)
  | .audioInputMs => .big (row.audioInputMs.getD 0)

/-- The single increment of a finished request. -/
def rollupIncrementForRequest (row : RelayRollupRow) (now : ℤ) : Option UsageRollupIncrement :=
  if row.status = .pending then none
  else
    let ownKey := row.route = some "own_key".toList
    some
      { key :=
          { bucketStart := truncateToMinute (row.completedAt.getD now)
            ownerUserId := resourceOwnerUserId row
            requesterUserId := row.userId
            poolId := if ownKey then .empty else row.poolId.getD .empty
            runtimeId := .empty
            versionId := row.selectedVersionId.getD .empty
            nodeId := row.selectedNodeId.getD .empty
            instanceId := row.selectedInstanceId.getD .empty
            runtimeModelId := row.runtimeModelId.getD .empty
            providerModelId := row.selectedProviderModelId.getD .empty
            source := row.source }
        counters :=
          { count := requestCount row
            histogram := fun
              | .latencyHistogram => histogramOf (requestMeasures row).durationMs
              | .ttftHistogram => histogramOf (requestMeasures row).ttftMs
              | .queueWaitHistogram => histogramOf row.queueWaitMs } }

/-! ## Merging increments -/

section
variable (iso : IsoText)

/-- The parts of a key's text. -/
def rollupKeyParts (key : UsageRollupKey) : List (List Char) :=
  [iso.text key.bucketStart, key.ownerUserId, key.requesterUserId, key.poolId, key.runtimeId,
    key.versionId, key.nodeId, key.instanceId, key.runtimeModelId, key.providerModelId,
    key.source.text]

/-- The text increments are merged by. -/
def rollupKeyString (key : UsageRollupKey) : List Char := [nul].intercalate (rollupKeyParts iso key)

/-- Adds two values of one kind; anything else leaves the target as it is. -/
def addCounter : CounterValue → CounterValue → CounterValue
  | .big current, .big delta => .big (current + delta)
  | .number current, .number delta => .number (current + delta)
  | current, _ => current

/-- The sum of two increments' counters. -/
def addRollupCounters (target add : UsageRollupCounters) : UsageRollupCounters where
  count c := addCounter (target.count c) (add.count c)
  histogram h := addHistograms (target.histogram h) (add.histogram h)

/-- Two increments of one key as one. -/
def addIncrement (existing add : UsageRollupIncrement) : UsageRollupIncrement :=
  { existing with counters := addRollupCounters existing.counters add.counters }

/-- Groups increments by key. -/
def mergeRollupIncrements (increments : List UsageRollupIncrement) : List UsageRollupIncrement :=
  (increments.foldl (fun merged increment =>
    merged.upsert addIncrement (rollupKeyString iso increment.key) increment)
    OrderedMap.empty).values

/-! ## The tables -/

/-- The counters and histograms of a row. -/
structure StoredCounters where
  count : Counter → ℤ
  histogram : Histogram → List ℤ

/-- A rollup table by its primary key. -/
abbrev RollupTable := OrderedMap UsageRollupKey StoredCounters

/-- Whether a column of the table can hold the value. -/
def Counter.holds (c : Counter) (n : ℤ) : Bool :=
  if c ∈ bigRollupCounters then -2 ^ 63 ≤ n && n < 2 ^ 63 else -2 ^ 31 ≤ n && n < 2 ^ 31

/-- Every counter is within its column's range. -/
def StoredCounters.fits (row : StoredCounters) : Bool :=
  usageRollupCounters.all (fun c => c.holds (row.count c)) &&
    usageRollupHistograms.all fun h => (row.histogram h).all fun n => -2 ^ 31 ≤ n && n < 2 ^ 31

/-- The counters as columns. -/
def UsageRollupCounters.stored (counters : UsageRollupCounters) : StoredCounters where
  count c := (counters.count c).toInt
  histogram := counters.histogram

/-- A row with an increment added. -/
def StoredCounters.merge (row add : StoredCounters) : StoredCounters where
  count c := row.count c + add.count c
  histogram h := histogramMerge (row.histogram h) (add.histogram h)

/-- Strings of the program are compared by their code units. -/
def byKeyString : Comparator UsageRollupIncrement :=
  (Comparator.byNumber id).lex.comap fun increment =>
    CommandOutput.textUnits (rollupKeyString iso increment.key)

variable (users : DbText → Bool)

/-- The additive upsert of one increment, skipped for an owner that does not exist.  `none`
is the database's refusal of a value out of range. -/
def rollupUpsert (table : RollupTable) (increment : UsageRollupIncrement) : Option RollupTable :=
  if users increment.key.ownerUserId then
    let add := increment.counters.stored
    let table' := table.upsert .merge increment.key add
    if add.fits && (table'.get increment.key).all StoredCounters.fits then some table' else none
  else some table

/-- Increments merged, sorted by key and upserted. -/
def writeRollupIncrements (table : RollupTable) (increments : List UsageRollupIncrement) :
    Option RollupTable :=
  ((byKeyString iso).sort (mergeRollupIncrements iso increments)).foldlM (rollupUpsert users) table

/-- The rollups of requests that have just ended. -/
def recordRelayRequestRollups (minute : RollupTable) (rows : List RelayRollupRow) (now : ℤ) :
    Option RollupTable :=
  writeRollupIncrements iso users minute
    (rows.filterMap fun row => rollupIncrementForRequest row now)

/-! ## Transactions -/

/-- The requests and the rollup tables. -/
structure UsageDb where
  requests : OrderedMap DbText RelayRollupRow
  minute : RollupTable
  hour : RollupTable

/-- What a finalizer writes: any columns, and a terminal status. -/
structure TerminalData where
  apply : RelayRollupRow → RelayRollupRow
  keepsId : ∀ row, (apply row).id = row.id
  terminal : ∀ row, (apply row).status ≠ .pending

/-- The status-guarded update of one request: the row if it was pending. -/
def claimRequest (requests : OrderedMap DbText RelayRollupRow) (id : DbText)
    (data : TerminalData) : Option RelayRollupRow :=
  ((requests.get id).filter fun row => row.status = .pending).map data.apply

/-- **The terminal transition of a request**: whether this finalizer won. -/
def transitionRelayRequestTerminal (db : UsageDb) (id : DbText) (data : TerminalData) (now : ℤ) :
    Option (UsageDb × Bool) :=
  match claimRequest db.requests id data with
  | none => some (db, false)
  | some row => do
    let minute ← recordRelayRequestRollups iso users db.minute [row] now
    return ({ db with requests := db.requests.set id row, minute }, true)

/-- Guarded updates of several requests, with the ids whose update this transaction did. -/
def claimRequests (data : TerminalData) :
    List DbText → OrderedMap DbText RelayRollupRow → OrderedMap DbText RelayRollupRow × List DbText
  | [], requests => (requests, [])
  | id :: ids, requests =>
    match claimRequest requests id data with
    | none => claimRequests data ids requests
    | some row =>
      let rest := claimRequests data ids (requests.set id row)
      (rest.1, id :: rest.2)

/-- `recordRollupsForTransitionedRequests`: the rows are read back by their ids. -/
def transitionedRows (requests : OrderedMap DbText RelayRollupRow) (ids : List DbText) :
    List RelayRollupRow :=
  requests.values.filter fun row => row.id ∈ ids && row.status ≠ .pending

/-- Ends pending requests and rolls them up. -/
def transitionRequests (db : UsageDb) (ids : List DbText) (data : TerminalData) (now : ℤ) :
    Option (UsageDb × List RelayRollupRow) := do
  let claimed := claimRequests data ids db.requests
  let rows := transitionedRows claimed.1 claimed.2
  let minute ← recordRelayRequestRollups iso users db.minute rows now
  return ({ db with requests := claimed.1, minute }, rows)

/-- A moved minute row, re-keyed onto its hour. -/
def hourIncrement (row : UsageRollupKey × StoredCounters) : UsageRollupIncrement where
  key := { row.1 with bucketStart := truncateToHour row.1.bucketStart }
  counters :=
    { count := fun c =>
        if c ∈ bigRollupCounters then .big (row.2.count c) else .number (row.2.count c)
      histogram := row.2.histogram }

/-- The increments of moved minutes. -/
def hourIncrementsFromMinuteRows (rows : List (UsageRollupKey × StoredCounters)) :
    List UsageRollupIncrement :=
  rows.map hourIncrement

/-- The minutes a batch takes: the oldest ones before the cutoff that nobody holds locked. -/
def pickMinutes (minute : RollupTable) (cutoff : ℤ) (batch : ℕ) (locked : UsageRollupKey → Bool) :
    List (UsageRollupKey × StoredCounters) :=
  let eligible := minute.entries.filter fun row => row.1.bucketStart < cutoff && !locked row.1
  ((Comparator.difference.comap fun row => row.1.bucketStart).sort eligible).take batch

/-- One batch of `compactMinuteRollups`. -/
def compactBatch (db : UsageDb) (cutoff : ℤ) (batch : ℕ) (locked : UsageRollupKey → Bool) :
    Option UsageDb := do
  let rows := pickMinutes db.minute cutoff batch locked
  let hour ← writeRollupIncrements iso users db.hour (hourIncrementsFromMinuteRows rows)
  return { db with minute := rows.foldl (fun table row => table.delete row.1) db.minute, hour }

end

end ModelProxy.Usage
