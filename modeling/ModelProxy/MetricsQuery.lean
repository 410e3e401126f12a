import Mathlib.Data.List.Dedup
import Mathlib.Data.Set.Semiring
import ModelProxy.UsageConservation

/-! # Metrics over the rollup tables

A metrics query sums rollup rows by group, and by group and step.  Hour and day steps read the
minute and the hour table together.  The order of rows that a query does not ask for is the
database's: `Answers` relates the tables to every answer that some order of them gives.

A row that compaction moves to its hour stays in its group and its step.  It stays in the range
unless the range ends inside its hour, for the range's start is rounded to the step and its end is
not.  So answers stay as they were exactly where no minute past the cutoff follows the end of the
range in its hour (`compaction_invisible_iff`).
-/
namespace ModelProxy.Usage

/-! ## The contract -/

/-- The tables a metric is read from. -/
inductive MetricFamily
  | request | load | node
deriving DecidableEq

/-- The metrics of the contract. -/
inductive Metric
  | requests | errors | rejections | rejectionsCapacity | rejectionsContext | rejectionsSpend
  | rejectionsOther | ttftP50 | ttftP95 | latencyP50 | latencyP95 | queueWaitP50 | queueWaitP95
  | decodeTps | prefillTps | inputTokens | outputTokens | cacheHitRate | cloudShare
  | kvUsageAvg | kvUsageMax | runningMax | waitingMax | fullRatio
  | cpuPct | memoryAvailableGb | acceleratorFreeGb | gpuUtilPct | gpuTempC
  | custom (name : List Char)
deriving DecidableEq

/-- The family of a metric. -/
def metricFamily : Metric → MetricFamily
  | .kvUsageAvg | .kvUsageMax | .runningMax | .waitingMax | .fullRatio => .load
  | .cpuPct | .memoryAvailableGb | .acceleratorFreeGb | .gpuUtilPct | .gpuTempC | .custom _ => .node
  | _ => .request

/-- The histogram a percentile is read from. -/
def Metric.histogramOf : Metric → Option Histogram
  | .latencyP50 | .latencyP95 => some .latencyHistogram
  | .ttftP50 | .ttftP95 => some .ttftHistogram
  | .queueWaitP50 | .queueWaitP95 => some .queueWaitHistogram
  | _ => none

/-- What an answer may be grouped by. -/
inductive GroupBy
  | runtime | version | node | inst | model | member | source
deriving DecidableEq

/-- The scope after its lookup; a pool may be one shared with the caller. -/
inductive ResolvedScope
  | pool (id : DbText) (shared : Bool)
  | runtime (id : DbText)
  | version (id : DbText)
  | node (id : DbText)
  | inst (id : DbText)

/-- The groupings a scope allows for a family. -/
def groupByByScope : ResolvedScope → MetricFamily → List GroupBy
  | .pool _ _, .request => [.runtime, .version, .node, .inst, .model, .member, .source]
  | .pool _ _, .load => [.runtime, .version, .node, .inst]
  | .runtime _, .request => [.version, .node, .inst, .model, .source]
  | .runtime _, .load => [.version, .node, .inst]
  | .version _, .request => [.node, .inst, .model, .source]
  | .version _, .load => [.node, .inst]
  | .node _, .request => [.runtime, .version, .inst, .model, .source]
  | .node _, .load => [.runtime, .version, .inst]
  | .inst _, .request => [.model, .source]
  | .inst _, .load => []
  | .pool _ _, .node | .runtime _, .node | .version _, .node => [.node]
  | .node _, .node | .inst _, .node => []

/-- A day in milliseconds. -/
def dayMs : ℤ := 24 * hourMs

/-- The steps of the contract. -/
inductive MetricStep
  | m1 | m5 | h1 | d1

/-- A step in milliseconds. -/
def MetricStep.ms : MetricStep → ℤ
  | .m1 => minuteMs
  | .m5 => 5 * minuteMs
  | .h1 => hourMs
  | .d1 => dayMs

/-- A range back from now, or between two times. -/
inductive MetricRange
  | last1h | last24h | last7d | last30d
  | between (fromMs toMs : ℤ)

/-- How long a range is. -/
def MetricRange.ms : MetricRange → ℤ
  | .last1h => hourMs
  | .last24h => dayMs
  | .last7d => 7 * dayMs
  | .last30d => 30 * dayMs
  | .between fromMs toMs => toMs - fromMs

/-- A query, its scope resolved. -/
structure MetricsQueryInput where
  scope : ResolvedScope
  metrics : List Metric
  range : MetricRange
  step : MetricStep
  groupBy : Option GroupBy
  includeTests : Bool

/-- USAGE_ROLLUP_MINUTE_RETENTION_DAYS -/
def usageRollupMinuteRetentionDays : ℤ := 30

/-- USAGE_ROLLUP_HOUR_RETENTION_DAYS -/
def usageRollupHourRetentionDays : ℤ := 395

/-- How far back a family is kept, for minute steps and for any step. -/
def rangeLimitMs : MetricFamily → ℤ × ℤ
  | .request => (usageRollupMinuteRetentionDays * dayMs, usageRollupHourRetentionDays * dayMs)
  | .load => (8 * dayMs, 8 * dayMs)
  | .node => (7 * dayMs, 7 * dayMs)

/-- `Math.ceil` of the quotient. -/
def ceilDiv (a b : ℤ) : ℤ := -(-a / b)

/-- The checks of `metricsQueryInputSchema`. -/
def MetricsQueryInput.accepted (input : MetricsQueryInput) (now : ℤ) : Bool :=
  let rangeMs := input.range.ms
  let points := ceilDiv rangeMs input.step.ms + 1
  let reachMs :=
    match input.range with
    | .between fromMs _ => max rangeMs (now - fromMs)
    | _ => rangeMs
  let maxMs (metric : Metric) :=
    let limit := rangeLimitMs (metricFamily metric)
    if input.step.ms < hourMs then limit.1 else limit.2
  1 ≤ input.metrics.length && input.metrics.length ≤ 16 &&
    input.groupBy.all (fun groupBy => input.metrics.all fun metric =>
      decide (groupBy ∈ groupByByScope input.scope (metricFamily metric))) &&
    decide (0 < rangeMs) && decide (points ≤ 720) &&
    decide (points * input.metrics.length ≤ 2880) &&
    input.metrics.all fun metric => decide (reachMs ≤ maxMs metric)

/-! ## The rows of a query -/

/-- The times of a query. -/
structure Window where
  fromMs : ℤ
  toMs : ℤ
  stepMs : ℤ

/-- The start is rounded down to the step, the end is not. -/
def windowOf (input : MetricsQueryInput) (now : ℤ) : Window :=
  let stepMs := input.step.ms
  let toMs :=
    match input.range with
    | .between _ toMs => toMs
    | _ => now
  ⟨(toMs - input.range.ms) / stepMs * stepMs, toMs, stepMs⟩

/-- Which request sources a query reads. -/
inductive SourceFilter
  | all | real | tests

/-- Whether a source is a test. -/
def testTraffic (source : RequestSource) : Bool := source = .test || source = .agentTest

/-- The sources a filter keeps. -/
def SourceFilter.keeps : SourceFilter → RequestSource → Bool
  | .all, _ => true
  | .real, source => !testTraffic source
  | .tests, source => testTraffic source

section Query

-- Versions give their runtime and the user it belongs to; `userId` is the caller.
variable (versions : DbText → Option (DbText × DbText)) (userId : DbText)

/-- A version is one of the runtime's. -/
def versionOf (versionId runtimeId : DbText) : Bool :=
  (versions versionId).any fun version => version.1 = runtimeId

/-- The rows of a scope that the caller may see. -/
def inScope (scope : ResolvedScope) (key : UsageRollupKey) : Bool :=
  match scope with
  | .pool id shared => key.poolId = id &&
      (if shared then key.requesterUserId = userId else key.ownerUserId = userId)
  | .runtime id => key.ownerUserId = userId &&
      (key.runtimeId = id || versionOf versions key.versionId id)
  | .version id => key.ownerUserId = userId && key.versionId = id
  | .node id => key.ownerUserId = userId && key.nodeId = id
  | .inst id => key.ownerUserId = userId && key.instanceId = id

/-- The rows a query keeps. -/
def requestWhere (scope : ResolvedScope) (window : Window) (sources : SourceFilter)
    (key : UsageRollupKey) : Bool :=
  window.fromMs ≤ key.bucketStart && key.bucketStart < window.toMs &&
    sources.keeps key.source && inScope versions userId scope key

/-- In a pool, where a member of somebody else runs is not told. -/
def own (pool : Bool) (key : UsageRollupKey) (text : List Char) : List Char :=
  if pool && !(versions key.versionId).any (fun version => version.2 = userId) then [] else text

/-- The group of a row. -/
def requestGroup (groupBy : Option GroupBy) (pool : Bool) (key : UsageRollupKey) : List Char :=
  let model := if key.runtimeModelId = .empty then key.providerModelId else key.runtimeModelId
  let own (text : List Char) := own versions userId pool key text
  match groupBy with
  | none => []
  | some .runtime =>
    own (if key.runtimeId = .empty then ((versions key.versionId).map (·.1)).getD .empty
      else key.runtimeId).1
  | some .version => own key.versionId
  | some .node => own key.nodeId
  | some .inst => own key.instanceId
  | some .model => model
  | some .member =>
    model ++ own (if key.instanceId = .empty then [] else '/' :: (key.instanceId : List Char))
  | some .source => key.source.text

/-- A row of a rollup table. -/
abbrev RollupRow := UsageRollupKey × StoredCounters

/-- The rows a query reads: hour and day steps also read the hours. -/
def requestRows (db : UsageDb) (window : Window) (keeps : UsageRollupKey → Bool) :
    List RollupRow :=
  (if hourMs ≤ window.stepMs then db.minute.entries ++ db.hour.entries
    else db.minute.entries).filter fun row => keeps row.1

/-- REQUEST_COUNTERS -/
def requestCounters : List Counter :=
  [.requests, .errors, .cloudRequests, .rejectedCapacity, .rejectedContext, .rejectedSpend,
    .rejectedOther, .inputTokens, .outputTokens, .cacheReadTokens, .cacheKnownInputTokens,
    .generationTokens, .generationMs, .prefillTokens, .prefillMs]

/-- The sums of a query: every counter, and the buckets of the histograms asked for. -/
def requestAggregates (metrics : List Metric) : Reading → Bool
  | .inl c => c ∈ requestCounters
  | .inr (h, i) => h ∈ metrics.filterMap Metric.histogramOf && i < latencyHistogramBuckets

/-- The sums of a group's rows. -/
abbrev Sums := Reading → ℤ

/-- `SUM` of a column, where the query asks for it. -/
def sumRows (aggregates : Reading → Bool) (rows : List RollupRow) (reading : Reading) : ℤ :=
  if aggregates reading then (rows.map fun row => row.2.read reading).sum else 0

/-- `GROUP BY`: one row for each group that occurs. -/
def groupRows {κ : Type} [DecidableEq κ] (aggregates : Reading → Bool) (group : UsageRollupKey → κ)
    (rows : List RollupRow) : List (κ × Sums) :=
  (rows.map fun row => group row.1).dedup.map fun k =>
    (k, sumRows aggregates (rows.filter fun row => group row.1 = k))

/-- `date_bin` from the epoch. -/
def bucketExpr (stepMs : ℤ) (key : UsageRollupKey) : ℤ := key.bucketStart / stepMs * stepMs

/-! ## Answers -/

/-- The rows of the load and the node family, of other tables. -/
structure Elsewhere (ρ : Type) where
  totals : MetricFamily → List (List Char × ρ)
  series : MetricFamily → Option (List (List Char)) → List ((ℤ × List Char) × ρ)

/-- An answer before its values are computed from sums and rounded. -/
structure MetricsAnswer (ρ : Type) where
  start : ℤ
  series : List (List Char × List (ℤ × List (MetricFamily × (Sums ⊕ ρ))))
  totals : MetricFamily → List (Sums ⊕ ρ)
  tests : ℤ
  truncated : Bool

/-- How a query is refused. -/
inductive MetricsError
  | forbidden

/-- What the database gives for the request family. -/
structure RequestData where
  totals : List (List Char × Sums)
  tests : ℤ
  series : Option (List (List Char)) → List ((ℤ × List Char) × Sums)

variable {ρ : Type} (elsewhere : Elsewhere ρ) (input : MetricsQueryInput) (now : ℤ)

/-- The families of the metrics, in their order. -/
def MetricsQueryInput.families : List MetricFamily := (input.metrics.map metricFamily).eraseDups

/-- A shared pool gives request metrics only, ungrouped or by source. -/
def MetricsQueryInput.forbidden : Bool :=
  match input.scope with
  | .pool _ true => input.families.any (· ≠ .request) ||
      input.groupBy.any fun groupBy => groupBy ≠ .source
  | _ => false

/-- The scope is a pool. -/
def MetricsQueryInput.isPool : Bool :=
  match input.scope with
  | .pool _ _ => true
  | _ => false

/-- How many steps a window has. -/
def metricBuckets (window : Window) : ℤ :=
  max 1 (ceilDiv (window.toMs - window.fromMs / window.stepMs * window.stepMs) window.stepMs)

/-- `Math.round` of the quotient. -/
def bucketIndex (window : Window) (t : ℤ) : ℤ :=
  (2 * (t - window.fromMs) + window.stepMs) / (2 * window.stepMs)

/-- How many groups an answer may hold. -/
def maxGroups (points metrics : ℤ) : ℕ := (max 1 (min 10 (8000 / (points * metrics)))).toNat

/-- Totals of several groups of the request family. -/
def mergeRows (rows : List (List Char × Sums)) : List Sums :=
  if rows.isEmpty then [] else [fun reading => (rows.map fun row => row.2 reading).sum]

/-- The groups of a family, by weight. -/
def totalsOf (data : RequestData) : MetricFamily → List (List Char)
  | .request => data.totals.map Prod.fst
  | family => (elsewhere.totals family).map Prod.fst

/-- The series of a family for the kept groups. -/
def seriesOf (data : RequestData) (keys : Option (List (List Char))) :
    MetricFamily → List ((ℤ × List Char) × (Sums ⊕ ρ))
  | .request => (data.series keys).map fun row => (row.1, .inl row.2)
  | family => (elsewhere.series family keys).map fun row => (row.1, .inr row.2)

/-- The totals of a family over every group. -/
def mergedOf (data : RequestData) : MetricFamily → List (Sums ⊕ ρ)
  | .request => (mergeRows data.totals).map .inl
  | family => (elsewhere.totals family).map fun row => .inr row.2

/-- The answer made of what the database gives. -/
def runMetricsQuery (data : RequestData) : Except MetricsError (MetricsAnswer ρ) :=
  if input.forbidden then .error .forbidden
  else
    -- the request tables are read for a request metric only
    let data := if .request ∈ input.families then data else ⟨[], 0, fun _ => []⟩
    let window := windowOf input now
    let points := metricBuckets window
    let ordered := (input.families.flatMap (totalsOf elsewhere data)).eraseDups
    let most := maxGroups points input.metrics.eraseDups.length
    let keys := if input.groupBy.isSome then some (ordered.take most) else none
    let rows := (input.families.flatMap fun family =>
      (seriesOf elsewhere data keys family).map fun row => (family, row)).filter fun row =>
        0 ≤ bucketIndex window row.2.1.1 && bucketIndex window row.2.1.1 < points
    let cell (key : List Char) (bucket : ℤ) := (rows.filter fun row =>
      row.2.1.2 = key && bucketIndex window row.2.1.1 = bucket).map fun row => (row.1, row.2.2)
    let order := keys.getD (rows.map fun row => row.2.1.2).eraseDups
    .ok
      { start := window.fromMs
        series := order.filterMap fun key =>
          let buckets := ((List.range points.toNat).map fun (n : ℕ) => ((n : ℤ), cell key n)).filter
            fun bucket => !bucket.2.isEmpty
          if buckets.isEmpty then none else some (key, buckets)
        totals := fun family =>
          if family ∈ input.families then mergedOf elsewhere data family else []
        tests := if input.includeTests then 0 else data.tests
        truncated := input.groupBy.isSome && most < ordered.length }

/-- `requestWhere` of the query. -/
def MetricsQueryInput.reads (sources : SourceFilter) : UsageRollupKey → Bool :=
  requestWhere versions userId input.scope (windowOf input now) sources

/-- The group of a row in the query. -/
def MetricsQueryInput.group : UsageRollupKey → List Char :=
  requestGroup versions userId input.groupBy input.isPool

/-- The rows of `requestPlan`. -/
def planRows (db : UsageDb) : List RollupRow :=
  requestRows db (windowOf input now)
    (input.reads versions userId now (if input.includeTests then .all else .real))

/-- What the queries of the request family may give: totals by weight, else in any order. -/
structure RequestData.From (db : UsageDb) (data : RequestData) : Prop where
  totals : data.totals.Perm (groupRows (requestAggregates input.metrics)
    (input.group versions userId) (planRows versions userId input now db))
  ordered : data.totals.Pairwise fun first second =>
    second.2 (.inl .requests) ≤ first.2 (.inl .requests)
  tests : data.tests = sumRows (fun _ => true) (requestRows db (windowOf input now)
    (input.reads versions userId now .tests)) (.inl .requests)
  series : ∀ keys, (data.series keys).Perm (groupRows (requestAggregates input.metrics)
    (fun key => (bucketExpr input.step.ms key, input.group versions userId key))
    ((planRows versions userId input now db).filter fun row =>
      keys.all fun keys => decide (input.group versions userId row.1 ∈ keys)))

/-- The answers a database may give. -/
def Answers (db : UsageDb) (answer : Except MetricsError (MetricsAnswer ρ)) : Prop :=
  ∃ data, RequestData.From versions userId input now db data ∧
    runMetricsQuery elsewhere input now data = answer

end Query

/-! ## What compaction keeps -/

section Compaction

/-- Batches have moved minutes past the cutoff to their hours. -/
def Compacted (iso : IsoText) (users : DbText → Bool) (cutoff : ℤ) : UsageDb → UsageDb → Prop :=
  Relation.ReflTransGen fun db db' => ∃ past batch locked, past ≤ cutoff ∧
    compactBatch iso users db past batch locked = some db'

variable {iso : IsoText} {users : DbText → Bool} {cutoff : ℤ} {Q : UsageRollupKey → Prop}
  {db db' : UsageDb}

/-- Compaction keeps a total that adds up over an hour. -/
theorem compacted_total {M : Type} [AddCommMonoid M] {f : UsageRollupKey → StoredCounters → M}
    (hf : AddsUp f)
    (hmove : ∀ key row, Q key → key.bucketStart < cutoff → f key.hourKey row = f key row)
    (howner : ∀ key, Q key → users key.ownerUserId = true) (hkeys : Keys Q db.minute)
    (h : Compacted iso users cutoff db db') :
    db'.minute.total f + db'.hour.total f = db.minute.total f + db.hour.total f := by
  have hboth : Keys Q db'.minute ∧
      db'.minute.total f + db'.hour.total f = db.minute.total f + db.hour.total f := by
    induction h with
    | refl => exact ⟨hkeys, rfl⟩
    | tail _ hstep ih =>
      obtain ⟨past, batch, locked, hpast, hran⟩ := hstep
      obtain ⟨-, hkeys', htotal⟩ := compactBatch_spec hf
        (fun key row hkey hlt => hmove key row hkey (lt_of_lt_of_le hlt hpast)) howner ih.1 hran
      exact ⟨hkeys', htotal.trans ih.2⟩
  exact hboth.2

/-- The rows of both tables whose keys are kept. -/
def kept (keeps : UsageRollupKey → Bool) (db : UsageDb) : List RollupRow :=
  (db.minute.entries ++ db.hour.entries).filter fun row => keeps row.1

theorem sum_filter {M : Type} [AddCommMonoid M] (keeps : UsageRollupKey → Bool)
    (f : StoredCounters → M) (rows : List RollupRow) :
    ((rows.filter fun row => keeps row.1).map fun row => f row.2).sum =
      (rows.map fun row => if keeps row.1 then f row.2 else 0).sum := by
  induction rows with
  | nil => rfl
  | cons row rows ih => by_cases h : keeps row.1 <;> simp [h, ih]

theorem sum_kept {M : Type} [AddCommMonoid M] (keeps : UsageRollupKey → Bool)
    (f : StoredCounters → M) (db : UsageDb) :
    ((kept keeps db).map fun row => f row.2).sum =
      db.minute.total (fun key row => if keeps key then f row else 0) +
        db.hour.total fun key row => if keeps key then f row else 0 := by
  rw [kept, sum_filter, List.map_append, List.sum_append]
  rfl

/-- Whether there are rows, as a sum: that of sets is their union. -/
theorem sum_occurs (rows : List RollupRow) :
    (rows.map fun _ => Set.up (Set.univ : Set Unit)).sum = 0 ↔ rows = [] := by
  cases rows with
  | nil => simp
  | cons row rows =>
    refine iff_of_false (fun h => ?_) nofun
    have hunion := congrArg SetSemiring.down h
    rw [List.map_cons, List.sum_cons, SetSemiring.down_add, SetSemiring.down_up,
      Set.univ_union] at hunion
    exact Set.univ_nonempty.ne_empty hunion

/-- No choice of keys in `C` tells the tables apart by what its rows sum to, or have none. -/
def Alike (C : (UsageRollupKey → Bool) → Prop) (db db' : UsageDb) : Prop :=
  ∀ keeps, C keeps →
    (∀ reading, ((kept keeps db').map fun row => row.2.read reading).sum =
      ((kept keeps db).map fun row => row.2.read reading).sum) ∧
    (kept keeps db' = [] ↔ kept keeps db = [])

/-- A moved row is chosen as it was. -/
def Stays (Q : UsageRollupKey → Prop) (cutoff : ℤ) (keeps : UsageRollupKey → Bool) : Prop :=
  ∀ key, Q key → key.bucketStart < cutoff → keeps key.hourKey = keeps key

theorem Stays.and {p q : UsageRollupKey → Bool} (hp : Stays Q cutoff p) (hq : Stays Q cutoff q) :
    Stays Q cutoff fun key => p key && q key := by
  intro key hkey hpast
  show (p key.hourKey && q key.hourKey) = _
  rw [hp key hkey hpast, hq key hkey hpast]

/-- Compaction keeps what reads whole hours. -/
theorem alike_of_compacted (howner : ∀ key, Q key → users key.ownerUserId = true)
    (hkeys : Keys Q db.minute) (h : Compacted iso users cutoff db db') :
    Alike (Stays Q cutoff) db db' := by
  intro keeps hstays
  constructor
  · intro reading
    rw [sum_kept keeps fun row => row.read reading, sum_kept keeps fun row => row.read reading]
    refine compacted_total ?_ ?_ howner hkeys h
    · intro key a b c hread
      by_cases hkeep : keeps key <;> simp [hkeep, hread reading]
    · intro key row hkey hpast
      rw [hstays key hkey hpast]
  · rw [← sum_occurs, ← sum_occurs, sum_kept keeps fun _ => Set.up Set.univ,
      sum_kept keeps fun _ => Set.up Set.univ]
    refine Eq.congr (compacted_total ?_ ?_ howner hkeys h) rfl
    · intro key a b c _
      exact (Set.union_self _).symm
    · intro key row hkey hpast
      rw [hstays key hkey hpast]

/-- Stores that are alike give the same groups. -/
theorem groupRows_perm {κ : Type} [DecidableEq κ] {C : (UsageRollupKey → Bool) → Prop}
    {aggregates : Reading → Bool} {keeps : UsageRollupKey → Bool} {group : UsageRollupKey → κ}
    (h : Alike C db db') (hC : ∀ k, C fun key => keeps key && group key = k) :
    (groupRows aggregates group (kept keeps db')).Perm
      (groupRows aggregates group (kept keeps db)) := by
  have hfilter (db : UsageDb) (k : κ) : ((kept keeps db).filter fun row => group row.1 = k) =
      kept (fun key => keeps key && group key = k) db := by
    simp only [kept, List.filter_filter, Bool.and_comm]
  have hmem (db : UsageDb) (k : κ) : k ∈ ((kept keeps db).map fun row => group row.1).dedup ↔
      ¬ kept (fun key => keeps key && group key = k) db = [] := by
    rw [List.mem_dedup, List.mem_map, ← hfilter, List.filter_eq_nil_iff]
    simp
  have hrow : ∀ k, (k, sumRows aggregates ((kept keeps db').filter fun row => group row.1 = k)) =
      (k, sumRows aggregates ((kept keeps db).filter fun row => group row.1 = k)) := by
    intro k
    refine congrArg (Prod.mk k) (funext fun reading => ?_)
    rw [sumRows, sumRows, hfilter, hfilter, (h _ (hC k)).1]
  simp only [groupRows, hrow]
  refine List.Perm.map _ ((List.perm_ext_iff_of_nodup (List.nodup_dedup _)
    (List.nodup_dedup _)).mpr fun k => ?_)
  rw [hmem, hmem, (h _ (hC k)).2]

theorem Alike.symm {C : (UsageRollupKey → Bool) → Prop} (h : Alike C db db') : Alike C db' db :=
  fun keeps hC => ⟨fun reading => ((h keeps hC).1 reading).symm, (h keeps hC).2.symm⟩

variable {versions : DbText → Option (DbText × DbText)} {userId : DbText} {ρ : Type}
  {elsewhere : Elsewhere ρ} {input : MetricsQueryInput} {now : ℤ}

theorem requestRows_eq (hstep : hourMs ≤ input.step.ms) (keeps : UsageRollupKey → Bool) :
    requestRows db (windowOf input now) keeps = kept keeps db := by
  rw [requestRows, kept]
  exact congrArg _ (if_pos hstep)

/-- A day starts with an hour. -/
theorem bucketExpr_hourKey (hstep : hourMs ≤ input.step.ms) (key : UsageRollupKey) :
    bucketExpr input.step.ms key.hourKey = bucketExpr input.step.ms key := by
  simp only [bucketExpr, UsageRollupKey.hourKey, truncateToHour]
  cases hcase : input.step <;>
    simp only [hcase, MetricStep.ms, dayMs, hourMs, minuteMs] at hstep ⊢ <;> omega

/-- The queries of a request give the same rows where each of them chooses moved rows as before. -/
theorem From.of_alike {data : RequestData} (hstep : hourMs ≤ input.step.ms)
    (h : Alike (Stays Q cutoff) db db')
    (hreads : ∀ sources, Stays Q cutoff (input.reads versions userId now sources))
    (hdata : RequestData.From versions userId input now db data) :
    RequestData.From versions userId input now db' data := by
  constructor
  · refine hdata.totals.trans ?_
    rw [planRows, planRows, requestRows_eq hstep, requestRows_eq hstep]
    exact groupRows_perm h.symm fun k => (hreads _).and fun _ _ _ => rfl
  · exact hdata.ordered
  · rw [hdata.tests, requestRows_eq hstep, requestRows_eq hstep, sumRows, sumRows,
      (h _ (hreads .tests)).1]
  · intro keys
    refine (hdata.series keys).trans ?_
    have hfilter (db : UsageDb) : ((planRows versions userId input now db).filter fun row =>
        keys.all fun keys => decide (input.group versions userId row.1 ∈ keys)) =
        kept (fun key => input.reads versions userId now
          (if input.includeTests then .all else .real) key &&
          keys.all fun keys => decide (input.group versions userId key ∈ keys)) db := by
      rw [planRows, requestRows_eq hstep]
      simp only [kept, List.filter_filter, Bool.and_comm]
    rw [hfilter, hfilter]
    refine groupRows_perm h.symm fun k => ((hreads _).and fun _ _ _ => rfl).and ?_
    intro key _ _
    show decide ((bucketExpr input.step.ms key.hourKey, _) = k) = _
    rw [bucketExpr_hourKey hstep]
    rfl

theorem exists_from (db : UsageDb) :
    ∃ data, RequestData.From versions userId input now db data := by
  let weight : Comparator (List Char × Sums) :=
    (Comparator.difference.comap fun row => row.2 (.inl .requests)).flip
  refine ⟨⟨weight.sort _, _, fun _ => _⟩, weight.sort_perm _, ?_, rfl, fun _ => .refl _⟩
  refine (weight.sort_pairwise _).imp fun hle => ?_
  exact sub_nonpos.mp hle

/-! ## The end of the range -/

/-- Minutes before it may be moved. -/
def minuteCutoff (now : ℤ) : ℤ := now - usageRollupMinuteRetentionDays * dayMs

/-- The first minute from the end of the range on is in the hour of the end, and may be moved. -/
def MetricsQueryInput.splitsHour (input : MetricsQueryInput) (now : ℤ) : Bool :=
  let toMs := (windowOf input now).toMs
  let next := ceilDiv toMs minuteMs * minuteMs
  truncateToHour next < toMs && next < minuteCutoff now

/-- An increment of a finished request, within retention and of an owner that exists. -/
structure UsageIncrement (users : DbText → Bool) (now : ℤ) (increment : UsageRollupIncrement) :
    Prop where
  finished : ∃ row recorded, rollupIncrementForRequest row recorded = some increment
  retained : now - usageRollupHourRetentionDays * dayMs ≤ increment.key.bucketStart
  owner : users increment.key.ownerUserId = true

/-- The keys of usage increments. -/
structure MinuteKey (users : DbText → Bool) (key : UsageRollupKey) : Prop where
  minute : minuteMs ∣ key.bucketStart
  runtime : key.runtimeId = .empty
  owner : users key.ownerUserId = true

theorem UsageIncrement.fit {increment : UsageRollupIncrement}
    (h : UsageIncrement users now increment) : Fit (MinuteKey users) increment := by
  obtain ⟨row, recorded, hrow⟩ := h.finished
  refine ⟨(rollupIncrementForRequest_spec hrow).1, ?_, ?_, h.owner⟩
  all_goals
    rw [rollupIncrementForRequest] at hrow
    split at hrow
    · cases hrow
    · cases hrow
      first | exact Dvd.intro_left _ rfl | rfl

/-- A range that ends with an hour, or where no minute is moved yet, takes a row with its hour. -/
theorem reads_stays (hstep : hourMs ≤ input.step.ms) (hsplit : input.splitsHour now = false)
    (sources : SourceFilter) :
    Stays (MinuteKey users) (minuteCutoff now) (input.reads versions userId now sources) := by
  intro key hkey hpast
  have hstart : (windowOf input now).fromMs ≤ truncateToHour key.bucketStart ↔
      (windowOf input now).fromMs ≤ key.bucketStart := by
    simp only [windowOf, truncateToHour]
    cases hcase : input.step <;>
      simp only [hcase, MetricStep.ms, dayMs, hourMs, minuteMs] at hstep ⊢ <;> omega
  have hstop : truncateToHour key.bucketStart < (windowOf input now).toMs ↔
      key.bucketStart < (windowOf input now).toMs := by
    obtain ⟨n, hn⟩ := hkey.minute
    simp only [MetricsQueryInput.splitsHour, Bool.and_eq_false_iff, decide_eq_false_iff_not]
      at hsplit
    simp only [ceilDiv, truncateToHour, hourMs, minuteMs] at hsplit hn ⊢
    omega
  simp only [MetricsQueryInput.reads, requestWhere, UsageRollupKey.hourKey, hstart, hstop]
  rfl

/-- Nothing runs in a runtime without versions. -/
theorem reads_unserved {id : DbText} (hscope : input.scope = .runtime id) (hid : id ≠ .empty)
    (hnone : ∀ version, versionOf versions version id = false) (sources : SourceFilter) :
    Stays (MinuteKey users) cutoff (input.reads versions userId now sources) := by
  intro key hkey _
  have hout (key : UsageRollupKey) (hruntime : key.runtimeId = .empty) :
      input.reads versions userId now sources key = false := by
    simp [MetricsQueryInput.reads, requestWhere, hscope, inScope, hruntime, hid.symm, hnone]
  rw [hout key hkey.runtime, hout key.hourKey hkey.runtime]

/-- The answer shows what the tables have. -/
structure MetricsQueryInput.Shows (versions : DbText → Option (DbText × DbText))
    (input : MetricsQueryInput) : Prop where
  request : .request ∈ input.families
  allowed : input.forbidden = false
  served : ∀ id, input.scope = .runtime id → id = .empty ∨
    ∃ version, versionOf versions version id = true

theorem runMetricsQuery_congr (h : .request ∉ input.families ∨ input.forbidden = true)
    (data data' : RequestData) :
    runMetricsQuery elsewhere input now data = runMetricsQuery elsewhere input now data' := by
  rcases h with hnot | hforbidden
  · simp only [runMetricsQuery, if_neg hnot]
  · rw [runMetricsQuery, runMetricsQuery, if_pos hforbidden, if_pos hforbidden]

/-- Where nothing of the tables is shown, all tables give the same answers. -/
theorem answers_of_hidden {answer : Except MetricsError (MetricsAnswer ρ)}
    (h : .request ∉ input.families ∨ input.forbidden = true)
    (hanswers : Answers versions userId elsewhere input now db answer) :
    Answers versions userId elsewhere input now db' answer := by
  obtain ⟨data, -, rfl⟩ := hanswers
  obtain ⟨data', hdata'⟩ := exists_from _
  exact ⟨data', hdata', runMetricsQuery_congr h _ _⟩

/-- Tables that are alike to the query give the same answers. -/
theorem answers_of_alike {answer : Except MetricsError (MetricsAnswer ρ)}
    (hstep : hourMs ≤ input.step.ms) (h : Alike (Stays Q cutoff) db db')
    (hreads : ∀ sources, Stays Q cutoff (input.reads versions userId now sources))
    (hanswers : Answers versions userId elsewhere input now db answer) :
    Answers versions userId elsewhere input now db' answer := by
  obtain ⟨data, hdata, hanswer⟩ := hanswers
  exact ⟨data, From.of_alike hstep h hreads hdata, hanswer⟩

/-- **A range that takes rows with their hours does not see compaction.** -/
theorem answers_of_quiet {increments : List UsageRollupIncrement} {minute : RollupTable}
    (hstep : hourMs ≤ input.step.ms)
    (hquiet : ¬ input.Shows versions ∨ input.splitsHour now = false)
    (hincrements : ∀ increment ∈ increments, UsageIncrement users now increment)
    (hminute : writeRollupIncrements iso users .empty increments = some minute)
    (hcompacted : Compacted iso users (minuteCutoff now) ⟨.empty, minute, .empty⟩ db)
    (answer : Except MetricsError (MetricsAnswer ρ)) :
    Answers versions userId elsewhere input now db answer ↔
      Answers versions userId elsewhere input now ⟨.empty, minute, .empty⟩ answer := by
  have hkeys : Keys (MinuteKey users) minute :=
    (write_spec tally_addsUp (fun _ hkey => hkey.owner) (fun i hi => (hincrements i hi).fit)
      hminute).2 fun key row hget => by cases hget
  have halike := alike_of_compacted (fun _ hkey => hkey.owner) hkeys hcompacted
  have hcases : (.request ∉ input.families ∨ input.forbidden = true) ∨
      ∀ sources, Stays (MinuteKey users) (minuteCutoff now)
        (input.reads versions userId now sources) := by
    by_contra hnot
    simp only [not_or, not_not] at hnot
    obtain ⟨⟨hrequest, hallowed⟩, hmoves⟩ := hnot
    rcases hquiet with hshows | hsplit
    · refine hshows ⟨hrequest, Bool.not_eq_true _ ▸ hallowed, fun id hscope => ?_⟩
      by_contra hunserved
      simp only [not_or, not_exists, Bool.not_eq_true] at hunserved
      exact hmoves (reads_unserved hscope hunserved.1 hunserved.2)
    · exact hmoves (reads_stays hstep hsplit)
  rcases hcases with hhidden | hreads
  · exact ⟨answers_of_hidden hhidden, answers_of_hidden hhidden⟩
  · exact ⟨answers_of_alike hstep halike.symm hreads, answers_of_alike hstep halike hreads⟩

/-! ## A row that compaction brings into the range -/

/-- A request of the caller in the scope that finished at a time. -/
def usedRow (userId : DbText) (scope : ResolvedScope) (versionId : DbText) (time : ℤ) :
    RelayRollupRow :=
  { pendingRow with
    userId
    status := .succeeded
    completedAt := some time
    firstClientByteAt := none
    poolId := match scope with | .pool id _ => some id | _ => none
    selectedVersionId := match scope with | .version id => some id | _ => some versionId
    selectedNodeId := match scope with | .node id => some id | _ => none
    selectedInstanceId := match scope with | .inst id => some id | _ => none }

/-- A table of one row. -/
def oneRow (key : UsageRollupKey) (row : StoredCounters) : RollupTable :=
  ⟨[(key, row)], List.nodup_singleton _⟩

theorem write_one {increment : UsageRollupIncrement}
    (howner : users increment.key.ownerUserId = true)
    (hfits : increment.counters.stored.fits = true) :
    writeRollupIncrements iso users .empty [increment] =
      some (oneRow increment.key increment.counters.stored) := by
  have hone : (byKeyString iso).sort (mergeRollupIncrements iso [increment]) = [increment] := rfl
  rw [writeRollupIncrements, hone, List.foldlM_cons, rollupUpsert, if_pos howner]
  have hget : (OrderedMap.empty.upsert StoredCounters.merge increment.key
      increment.counters.stored).get increment.key = some increment.counters.stored :=
    OrderedMap.get_set_self _ _ _
  simp only [hget, hfits, Option.all_some, Bool.and_self, if_true]
  rfl

theorem compact_one {key : UsageRollupKey} {row : StoredCounters}
    (howner : users key.ownerUserId = true) (hfits : row.fits = true)
    (hpast : key.bucketStart < cutoff) :
    compactBatch iso users ⟨.empty, oneRow key row, .empty⟩ cutoff 1 (fun _ => false) =
      some ⟨.empty, .empty, oneRow key.hourKey row⟩ := by
  have hpick : pickMinutes (oneRow key row) cutoff 1 (fun _ => false) = [(key, row)] := by
    simp only [pickMinutes, oneRow, List.filter_cons, hpast, decide_true, Bool.not_false,
      Bool.and_self, if_true, List.filter_nil]
    rfl
  have hwrite := @write_one iso users (hourIncrement (key, row)) howner
    ((stored_hourIncrement (key, row)).symm ▸ hfits)
  simp only [stored_hourIncrement] at hwrite
  have hdelete : (oneRow key row).delete key = .empty :=
    OrderedMap.ext (by simp [OrderedMap.delete, oneRow, OrderedMap.empty])
  simp only [compactBatch, hpick, hourIncrementsFromMinuteRows, List.map_cons, List.map_nil, hwrite,
    List.foldl_cons, List.foldl_nil, hdelete]
  rfl

theorem totals_eq_nil {data : RequestData}
    (h : RequestData.From versions userId input now db data) :
    data.totals = [] ↔ planRows versions userId input now db = [] := by
  rw [← List.perm_nil, h.totals.congr_left, List.perm_nil, groupRows]
  simp [List.dedup_eq_nil]

theorem answer_totals {data : RequestData} (hrequest : .request ∈ input.families)
    (hallowed : input.forbidden = false) : ∃ answer : MetricsAnswer ρ,
      runMetricsQuery elsewhere input now data = .ok answer ∧
        (answer.totals .request = [] ↔ data.totals = []) := by
  refine ⟨_, if_neg (by simp [hallowed]), ?_⟩
  simp only [if_pos hrequest, mergedOf, List.map_eq_nil_iff, mergeRows]
  cases data.totals <;> simp

theorem usedRow_increment (userId : DbText) {scope : ResolvedScope} {versionId : DbText} (time : ℤ)
    (hserved : ∀ id, scope = .runtime id → id = .empty ∨ versionOf versions versionId id = true) :
    ∃ increment, rollupIncrementForRequest (usedRow userId scope versionId time) 0 =
        some increment ∧ increment.key.bucketStart = truncateToMinute time ∧
      increment.key.ownerUserId = userId ∧ increment.key.source = .apiKey ∧
      increment.counters.stored.fits = true ∧
      inScope versions userId scope increment.key = true := by
  refine ⟨_, rfl, rfl, rfl, rfl, rfl, ?_⟩
  cases scope with
  | runtime id =>
    rcases hserved id rfl with rfl | hversion
    · simp [inScope, usedRow, resourceOwnerUserId, pendingRow]
    · simp [inScope, usedRow, resourceOwnerUserId, pendingRow, hversion]
  | _ => simp [inScope, usedRow, resourceOwnerUserId, pendingRow]

/-- The range is not empty and does not start before what is kept. -/
theorem accepted_reach (haccepted : input.accepted now = true) (hstep : hourMs ≤ input.step.ms)
    (hrequest : .request ∈ input.families) : 0 < input.range.ms ∧
      now - usageRollupHourRetentionDays * dayMs ≤
        (windowOf input now).toMs - input.range.ms := by
  simp only [MetricsQueryInput.accepted, Bool.and_eq_true, decide_eq_true_eq,
    List.all_eq_true] at haccepted
  obtain ⟨⟨⟨⟨-, hpos⟩, -⟩, -⟩, hlimit⟩ := haccepted
  refine ⟨hpos, ?_⟩
  obtain ⟨metric, hmetric, hfamily⟩ := List.mem_map.mp (List.mem_eraseDups.mp hrequest)
  have hreach := hlimit metric hmetric
  rw [hfamily, if_neg (not_lt.mpr hstep)] at hreach
  cases hrange : input.range <;>
    simp only [hrange, windowOf, MetricRange.ms, rangeLimitMs] at hreach ⊢ <;> omega

/-- The first minute from the end of the range on, where the range splits its hour. -/
theorem minute_of_split {minute : ℤ} (haccepted : input.accepted now = true)
    (hstep : hourMs ≤ input.step.ms) (hrequest : .request ∈ input.families)
    (hsplit : input.splitsHour now = true)
    (hminute : minute =
      truncateToMinute (ceilDiv (windowOf input now).toMs minuteMs * minuteMs)) :
    (windowOf input now).toMs ≤ minute ∧
      (windowOf input now).fromMs ≤ truncateToHour minute ∧
      truncateToHour minute < (windowOf input now).toMs ∧ minute < minuteCutoff now ∧
      now - usageRollupHourRetentionDays * dayMs ≤ minute := by
  simp only [MetricsQueryInput.splitsHour, Bool.and_eq_true, decide_eq_true_eq] at hsplit
  obtain ⟨hpos, hreach⟩ := accepted_reach haccepted hstep hrequest
  have hfrom : (windowOf input now).fromMs =
    ((windowOf input now).toMs - input.range.ms) / input.step.ms * input.step.ms := rfl
  rw [hminute, hfrom]
  generalize (windowOf input now).toMs = toMs at *
  simp only [truncateToMinute, truncateToHour, ceilDiv, dayMs, hourMs, minuteMs] at *
  cases hcase : input.step <;>
    simp only [hcase, MetricStep.ms, dayMs, hourMs, minuteMs] at hstep ⊢ <;> omega

/-- A runtime that is shown has a version. -/
theorem MetricsQueryInput.Shows.exists_served (hshows : input.Shows versions) :
    ∃ versionId, ∀ id, input.scope = .runtime id →
      id = .empty ∨ versionOf versions versionId id = true := by
  cases hscope : input.scope with
  | runtime id =>
    rcases hshows.served id hscope with hid | ⟨versionId, hversion⟩
    · exact ⟨.empty, fun _ heq => .inl (by cases heq; exact hid)⟩
    · exact ⟨versionId, fun _ heq => .inr (by cases heq; exact hversion)⟩
  | _ => exact ⟨.empty, nofun⟩

/-- **Where the range splits an hour, a moved row comes into it.** -/
theorem answer_changes (elsewhere : Elsewhere ρ) (haccepted : input.accepted now = true)
    (hstep : hourMs ≤ input.step.ms) (huser : users userId = true)
    (hshows : input.Shows versions) (hsplit : input.splitsHour now = true) :
    ∃ increments minute db, (∀ increment ∈ increments, UsageIncrement users now increment) ∧
      writeRollupIncrements iso users .empty increments = some minute ∧
      Compacted iso users (minuteCutoff now) ⟨.empty, minute, .empty⟩ db ∧
      ∃ answer, Answers versions userId elsewhere input now db answer ∧
        ¬ Answers versions userId elsewhere input now ⟨.empty, minute, .empty⟩ answer := by
  obtain ⟨versionId, hserved⟩ := hshows.exists_served
  obtain ⟨increment, hfinished, htime, howner, hsource, hfits, hscope⟩ := usedRow_increment userId
    (ceilDiv (windowOf input now).toMs minuteMs * minuteMs) hserved
  have hown : users increment.key.ownerUserId = true := howner ▸ huser
  obtain ⟨hlate, hafter, hhour, hpast, hold⟩ :=
    minute_of_split haccepted hstep hshows.request hsplit htime
  have hseen : planRows versions userId input now
      ⟨.empty, .empty, oneRow increment.key.hourKey increment.counters.stored⟩ ≠ [] := by
    have hreads : input.reads versions userId now (if input.includeTests then .all else .real)
        increment.key.hourKey = true := by
      have hkeeps : (if input.includeTests then SourceFilter.all else .real).keeps
          increment.key.source = true := by
        rw [hsource]
        split <;> rfl
      simp only [MetricsQueryInput.reads, requestWhere, UsageRollupKey.hourKey, hafter, hhour,
        decide_true, hkeeps, Bool.true_and]
      exact hscope
    rw [planRows, requestRows_eq hstep]
    exact List.ne_nil_of_mem (List.mem_filter.mpr ⟨List.mem_singleton.mpr rfl, hreads⟩)
  have hunseen : planRows versions userId input now
      ⟨.empty, oneRow increment.key increment.counters.stored, .empty⟩ = [] := by
    rw [planRows, requestRows_eq hstep]
    refine List.filter_eq_nil_iff.mpr fun row hrow => ?_
    rw [List.mem_singleton.mp hrow]
    simp [MetricsQueryInput.reads, requestWhere, hlate]
  refine ⟨[increment], _, _, ?_, write_one hown hfits,
    .single ⟨_, 1, fun _ => false, le_rfl, compact_one hown hfits hpast⟩, ?_⟩
  · rw [List.forall_mem_singleton]
    exact ⟨⟨_, _, hfinished⟩, hold, hown⟩
  obtain ⟨data, hdata⟩ := exists_from _
  refine ⟨_, ⟨data, hdata, rfl⟩, ?_⟩
  rintro ⟨data', hdata', hsame⟩
  obtain ⟨answer, hanswer, htotals⟩ := answer_totals hshows.request hshows.allowed
  obtain ⟨answer', hanswer', htotals'⟩ := answer_totals hshows.request hshows.allowed
  rw [hanswer, hanswer'] at hsame
  cases hsame
  have hnone := htotals'.mp (htotals.mpr ((totals_eq_nil hdata').mpr hunseen))
  exact hseen ((totals_eq_nil hdata).mp hnone)

end Compaction

/-- **Compaction is invisible to hour and day metrics exactly where the range splits no hour of
minutes that may be moved**, or the answer shows no row of the request tables. -/
theorem compaction_invisible_iff {iso : IsoText} {users : DbText → Bool}
    {versions : DbText → Option (DbText × DbText)} {userId : DbText} {ρ : Type}
    (elsewhere : Elsewhere ρ) {input : MetricsQueryInput} {now : ℤ}
    (haccepted : input.accepted now = true) (hstep : input.step = .h1 ∨ input.step = .d1)
    (huser : users userId = true) :
    (∀ increments minute db, (∀ increment ∈ increments, UsageIncrement users now increment) →
      writeRollupIncrements iso users .empty increments = some minute →
      Compacted iso users (minuteCutoff now) ⟨.empty, minute, .empty⟩ db →
      ∀ answer, Answers versions userId elsewhere input now db answer ↔
        Answers versions userId elsewhere input now ⟨.empty, minute, .empty⟩ answer) ↔
      ¬ input.Shows versions ∨ input.splitsHour now = false := by
  have hhour : hourMs ≤ input.step.ms := by
    rcases hstep with h | h <;> rw [h] <;> decide
  constructor
  · intro hsame
    by_contra hnot
    simp only [not_or, not_not, Bool.not_eq_false] at hnot
    obtain ⟨increments, minute, db, hincrements, hminute, hcompacted, answer, hanswer, hnone⟩ :=
      answer_changes elsewhere haccepted hhour huser hnot.1 hnot.2
    exact hnone ((hsame increments minute db hincrements hminute hcompacted answer).mp hanswer)
  · intro hquiet increments minute db hincrements hminute hcompacted answer
    exact answers_of_quiet hhour hquiet hincrements hminute hcompacted answer

/-- A pool's requests by hour, over a range that ends after one hour and a half. -/
def pastQuery (toMs : ℤ) : MetricsQueryInput where
  scope := .pool ⟨['p'], by decide⟩ false
  metrics := [.requests]
  range := .between 0 toMs
  step := .h1
  groupBy := none
  includeTests := false

/-- A query of two whole hours. -/
theorem compaction_invisible_iff_two_hours :
    (pastQuery (2 * hourMs)).accepted (31 * dayMs) = true ∧
    ∀ increments minute db,
      (∀ increment ∈ increments, UsageIncrement (fun _ => true) (31 * dayMs) increment) →
      writeRollupIncrements unaryIso (fun _ => true) .empty increments = some minute →
      Compacted unaryIso (fun _ => true) (minuteCutoff (31 * dayMs)) ⟨.empty, minute, .empty⟩ db →
      ∀ answer, Answers (fun _ => none) pendingRow.userId (⟨fun _ => [], fun _ _ => []⟩ :
          Elsewhere Unit) (pastQuery (2 * hourMs)) (31 * dayMs) db answer ↔
        Answers (fun _ => none) pendingRow.userId ⟨fun _ => [], fun _ _ => []⟩
          (pastQuery (2 * hourMs)) (31 * dayMs) ⟨.empty, minute, .empty⟩ answer := by
  have haccepted : (pastQuery (2 * hourMs)).accepted (31 * dayMs) = true := by decide
  exact ⟨haccepted, (compaction_invisible_iff _ haccepted (.inl rfl) rfl).mpr (.inr (by decide))⟩

/-- A request of minute 90 is not in a range that ends with it, until its hour is. -/
theorem compaction_seen_after_half_hour :
    (pastQuery (90 * minuteMs)).accepted (31 * dayMs) = true ∧
    ∃ increments minute db,
      (∀ increment ∈ increments, UsageIncrement (fun _ => true) (31 * dayMs) increment) ∧
      writeRollupIncrements unaryIso (fun _ => true) .empty increments = some minute ∧
      Compacted unaryIso (fun _ => true) (minuteCutoff (31 * dayMs)) ⟨.empty, minute, .empty⟩ db ∧
      ∃ answer, Answers (fun _ => none) pendingRow.userId (⟨fun _ => [], fun _ _ => []⟩ :
          Elsewhere Unit) (pastQuery (90 * minuteMs)) (31 * dayMs) db answer ∧
        ¬ Answers (fun _ => none) pendingRow.userId ⟨fun _ => [], fun _ _ => []⟩
          (pastQuery (90 * minuteMs)) (31 * dayMs) ⟨.empty, minute, .empty⟩ answer := by
  have haccepted : (pastQuery (90 * minuteMs)).accepted (31 * dayMs) = true := by decide
  refine ⟨haccepted, answer_changes _ haccepted (by decide) rfl ⟨?_, rfl, nofun⟩ (by decide)⟩
  decide

end ModelProxy.Usage
