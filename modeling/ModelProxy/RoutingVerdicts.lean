import Mathlib.Data.List.MinMax
import Mathlib.Tactic.Linarith
import ModelProxy.HostValues
import ModelProxy.OrderedMap

/-! # Routing rules over metrics

A pool's rules avoid a member, or call it full, by an aggregate of its fresh metrics.  A verdict is
stored with the time until which it counts.  Series go stale one by one, and a series that drops
out can change a minimum, a maximum or an average either way.  The expiry of `full` and of no
verdict allows for that; the expiry of `avoid` does not look at the rules that say full.
-/
namespace ModelProxy.Routing

/-- How several series become one value. -/
inductive Aggregate
  | max | min | avg

/-- How a value is compared. -/
inductive Op
  | gt | ge | lt | le

/-- What a triggered rule says of a member. -/
inductive Effect
  | full | avoid
deriving DecidableEq

/-- A rule on a metric. -/
structure RoutingRule where
  metric : String
  labels : Option (OrderedMap String String)
  aggregate : Aggregate
  op : Op
  threshold : ℚ
  effect : Effect
  memberId : Option String
  excludeMemberId : Option String

/-- A series and the age of its value. -/
structure MetricSeries where
  name : String
  labels : OrderedMap String String
  value : ℚ
  ageMs : ℚ
  staleAfterMs : ℚ

/-- The value is too old. -/
def isStale (series : MetricSeries) : Bool := series.staleAfterMs < series.ageMs

/-- The series has the labels that are wanted. -/
def labelsMatch (series : OrderedMap String String) (wanted : Option (OrderedMap String String)) :
    Bool :=
  wanted.all fun wanted => wanted.entries.all fun entry => series.get entry.1 = some entry.2

/-- The value against the threshold. -/
def compare (value : ℚ) (op : Op) (threshold : ℚ) : Bool :=
  match op with
  | .gt => threshold < value
  | .ge => threshold ≤ value
  | .lt => value < threshold
  | .le => value ≤ threshold

/-- How long the value stays fresh. -/
def remainingMs (entry : MetricSeries) : ℚ := max 0 (entry.staleAfterMs - entry.ageMs)

/-- The rule is for this member. -/
def ruleAppliesToMember (rule : RoutingRule) (poolMemberId : Option String) : Bool :=
  match present rule.memberId, present rule.excludeMemberId with
  | some id, _ => poolMemberId = some id
  | none, some id => poolMemberId ≠ some id
  | none, none => true

/-- The aggregate of the series that match, if any, and until when its series are fresh. -/
def aggregateMatching (matching : List MetricSeries) (aggregate : Aggregate) (nowMs : ℚ) :
    Option (ℚ × ℚ) :=
  let used (best : MetricSeries) := (best.value, nowMs + remainingMs best)
  match aggregate with
  | .avg =>
    (matching.map fun entry => nowMs + remainingMs entry).min?.map fun earliest =>
      ((matching.map (·.value)).sum / matching.length, earliest)
  | .min => (matching.argmin (·.value)).map used
  | .max => (matching.argmax (·.value)).map used

/-- A series the rule reads. -/
def usable (rule : RoutingRule) (entry : MetricSeries) : Bool :=
  entry.name = rule.metric && labelsMatch entry.labels rule.labels && !isStale entry

/-- Whether a rule that applies and has fresh series is triggered, and the expiry of those. -/
def evaluateRule (series : List MetricSeries) (nowMs : ℚ) (poolMemberId : Option String)
    (rule : RoutingRule) : Option (Bool × ℚ) :=
  if ruleAppliesToMember rule poolMemberId then
    (aggregateMatching (series.filter (usable rule)) rule.aggregate nowMs).map
      fun (value, expiry) => (compare value rule.op rule.threshold, expiry)
  else none

/-- What a rule finds. -/
inductive RuleState
  | triggered | clear | stale

/-- `verdict` is `none` where no rule is triggered. -/
structure RoutingEvaluation where
  verdict : Option Effect
  ruleStates : List RuleState
  expiresAt : ℚ

/-- The expiries of the triggered rules of an effect. -/
def decisive (rules : List RoutingRule) (series : List MetricSeries) (nowMs : ℚ)
    (poolMemberId : Option String) (effect : Effect) : List ℚ :=
  rules.filterMap fun rule =>
    (evaluateRule series nowMs poolMemberId rule).bind fun (triggered, expiry) =>
      if triggered && rule.effect = effect then some expiry else none

/-- The verdict of all rules. -/
def evaluateRoutingRules (rules : List RoutingRule) (series : List MetricSeries) (nowMs : ℚ)
    (poolMemberId : Option String) : RoutingEvaluation :=
  let outcome := evaluateRule series nowMs poolMemberId
  let state (rule : RoutingRule) : RuleState :=
    match outcome rule with
    | some (triggered, _) => if triggered then .triggered else .clear
    | none => if ruleAppliesToMember rule poolMemberId then .stale else .clear
  let decisive := decisive rules series nowMs poolMemberId
  let (verdict, expiry) :=
    if decisive .full ≠ [] then (some .full, (decisive .full).max?)
    else if decisive .avoid ≠ [] then (some .avoid, (decisive .avoid).max?)
    else (none, (rules.filterMap fun rule => (outcome rule).map Prod.snd).min?)
  ⟨verdict, rules.map state, expiry.getD nowMs⟩

/-! ### One rule, as its series age -/

/-- The series some time later, without a new value. -/
def MetricSeries.older (ms : ℚ) (series : MetricSeries) : MetricSeries :=
  { series with ageMs := series.ageMs + ms }

open List

variable {d t : ℚ} {rule : RoutingRule} {series : List MetricSeries} {m : Option String}

variable {e : MetricSeries} {agg : Aggregate}

theorem usable_iff : usable rule e = true ↔
    (e.name = rule.metric ∧ labelsMatch e.labels rule.labels = true) ∧
      e.ageMs ≤ e.staleAfterMs := by
  simp [usable, isStale]

theorem usable_of_older (hd : 0 ≤ d) (h : usable rule (e.older d) = true) :
    usable rule e = true := by
  obtain ⟨hm, hf⟩ := usable_iff.mp h
  change e.ageMs + d ≤ e.staleAfterMs at hf
  exact usable_iff.mpr ⟨hm, by linarith⟩

theorem usable_until (h : usable rule e = true) (hle : t + d ≤ t + remainingMs e) :
    usable rule (e.older d) = true := by
  obtain ⟨hm, hf⟩ := usable_iff.mp h
  have hd := le_of_add_le_add_left hle
  rw [remainingMs, max_eq_right (by linarith)] at hd
  refine usable_iff.mpr ⟨hm, ?_⟩
  change e.ageMs + d ≤ e.staleAfterMs
  linarith

/-- The series a rule uses `d` milliseconds later are some of those it uses now. -/
theorem mem_older (hd : 0 ≤ d) :
    e ∈ (series.map (.older d)).filter (usable rule) ↔
      ∃ e' ∈ series.filter (usable rule), e'.older d = e ∧ usable rule e = true := by
  simp only [mem_filter, mem_map]
  constructor
  · rintro ⟨⟨e', he, rfl⟩, hu⟩
    exact ⟨e', ⟨he, usable_of_older hd hu⟩, rfl, hu⟩
  · rintro ⟨e', ⟨he, -⟩, rfl, hu⟩
    exact ⟨⟨e', he, rfl⟩, hu⟩

theorem argmax_older {β : Type} [LinearOrder β] {f : MetricSeries → β}
    (hf : ∀ e, f (.older d e) = f e) (hd : 0 ≤ d) {b : MetricSeries}
    (hb : (series.filter (usable rule)).argmax f = some b) (hu : usable rule (b.older d) = true) :
    ∃ b', ((series.map (.older d)).filter (usable rule)).argmax f = some b' ∧ f b' = f b := by
  have hm := (mem_older hd).mpr ⟨b, argmax_mem hb, rfl, hu⟩
  cases hb' : ((series.map (.older d)).filter (usable rule)).argmax f with
  | none => exact absurd (argmax_eq_none.mp hb') (ne_nil_of_mem hm)
  | some b' =>
    refine ⟨b', rfl, le_antisymm ?_ (hf b ▸ le_of_mem_argmax hm hb')⟩
    obtain ⟨e, he, rfl, -⟩ := (mem_older hd).mp (argmax_mem hb')
    exact hf e ▸ le_of_mem_argmax he hb

theorem aggregate_eq_none {l : List MetricSeries} : aggregateMatching l agg t = none ↔ l = [] := by
  cases agg <;> simp [aggregateMatching]

/-- An aggregate keeps its value as long as the series it counts on are fresh. -/
theorem aggregate_older (hd : 0 ≤ d) {v x : ℚ}
    (h : aggregateMatching (series.filter (usable rule)) agg t = some (v, x)) (hx : t + d ≤ x) :
    ∃ x', aggregateMatching ((series.map (.older d)).filter (usable rule)) agg (t + d) =
      some (v, x') := by
  cases agg with
  | avg =>
    obtain ⟨y, hy, he⟩ := Option.map_eq_some_iff.mp h
    cases he
    -- no series has gone stale
    have hl : (series.map (.older d)).filter (usable rule) =
        (series.filter (usable rule)).map (.older d) := by
      rw [filter_map]
      refine congrArg (map _) (filter_congr fun e he => Bool.eq_iff_iff.mpr ⟨?_, fun hu => ?_⟩)
      · exact usable_of_older hd
      · refine usable_until hu (hx.trans ?_)
        exact (min?_eq_some_iff.mp hy).2 _ (mem_map_of_mem (mem_filter.mpr ⟨he, hu⟩))
    cases ha : aggregateMatching ((series.map (.older d)).filter (usable rule)) .avg (t + d) with
    | none =>
      rw [aggregate_eq_none, hl, map_eq_nil_iff] at ha
      simp [ha] at hy
    | some vx =>
      obtain ⟨y', -, rfl⟩ := Option.map_eq_some_iff.mp ha
      exact ⟨y', by rw [hl, map_map, length_map]; rfl⟩
  | min =>
    obtain ⟨b, hb, he⟩ := Option.map_eq_some_iff.mp h
    cases he
    have hu := usable_until (of_mem_filter (argmin_mem hb)) hx
    obtain ⟨b', hb', hv⟩ := @argmax_older d rule series ℚᵒᵈ _ (·.value) (fun _ => rfl) hd b hb hu
    exact ⟨_, Option.map_eq_some_iff.mpr ⟨b', hb', Prod.ext hv rfl⟩⟩
  | max =>
    obtain ⟨b, hb, he⟩ := Option.map_eq_some_iff.mp h
    cases he
    have hu := usable_until (of_mem_filter (argmax_mem hb)) hx
    obtain ⟨b', hb', hv⟩ := argmax_older (fun _ => rfl) hd hb hu
    exact ⟨_, Option.map_eq_some_iff.mpr ⟨b', hb', Prod.ext hv rfl⟩⟩

theorem evaluateRule_older (hd : 0 ≤ d) {b : Bool} {x : ℚ}
    (h : evaluateRule series t m rule = some (b, x)) (hx : t + d ≤ x) :
    ∃ x', evaluateRule (series.map (.older d)) (t + d) m rule = some (b, x') := by
  unfold evaluateRule at *
  split at h
  next ha =>
    obtain ⟨⟨v, y⟩, hg, he⟩ := Option.map_eq_some_iff.mp h
    cases he
    obtain ⟨x', hx'⟩ := aggregate_older hd hg hx
    exact ⟨x', by rw [if_pos ha, hx']; rfl⟩
  · cases h

/-- Series do not become fresh again. -/
theorem evaluateRule_now (hd : 0 ≤ d) {o : Bool × ℚ}
    (h : evaluateRule (series.map (.older d)) (t + d) m rule = some o) :
    ∃ o', evaluateRule series t m rule = some o' := by
  unfold evaluateRule at *
  split at h
  next ha =>
    rw [if_pos ha]
    cases hg : aggregateMatching (series.filter (usable rule)) rule.aggregate t with
    | some vx => exact ⟨_, rfl⟩
    | none =>
      have hn : (series.map (.older d)).filter (usable rule) = [] := by
        refine eq_nil_iff_forall_not_mem.mpr fun e he => ?_
        obtain ⟨e', he', -⟩ := (mem_older hd).mp he
        rw [aggregate_eq_none.mp hg] at he'
        exact not_mem_nil he'
      rw [aggregate_eq_none.mpr hn] at h
      cases h
  · cases h

/-! ### The verdict -/

variable {rules : List RoutingRule} {effect : Effect} {x : ℚ}

theorem mem_decisive : x ∈ decisive rules series t m effect ↔
    ∃ rule ∈ rules, rule.effect = effect ∧ evaluateRule series t m rule = some (true, x) := by
  simp [decisive, Option.bind_eq_some_iff, and_comm]

theorem decisive_until (hd : 0 ≤ d) (hne : decisive rules series t m effect ≠ [])
    (hx : t + d ≤ (decisive rules series t m effect).max?.getD t) :
    decisive rules (series.map (.older d)) (t + d) m effect ≠ [] := by
  obtain ⟨y, hy⟩ := Option.ne_none_iff_exists'.mp (mt max?_eq_none_iff.mp hne)
  rw [hy] at hx
  obtain ⟨rule, hr, he, hl⟩ := mem_decisive.mp (max?_eq_some_iff.mp hy).1
  obtain ⟨x', hx'⟩ := evaluateRule_older hd hl hx
  exact ne_nil_of_mem (mem_decisive.mpr ⟨rule, hr, he, hx'⟩)

/-- Nothing becomes decisive before the first instant a rule names. -/
theorem not_decisive_until (hd : 0 ≤ d) (hni : decisive rules series t m effect = [])
    (hx : t + d ≤ (rules.filterMap fun r => (evaluateRule series t m r).map Prod.snd).min?.getD t) :
    decisive rules (series.map (.older d)) (t + d) m effect = [] := by
  refine eq_nil_iff_forall_not_mem.mpr fun x h => ?_
  obtain ⟨rule, hr, he, hl⟩ := mem_decisive.mp h
  obtain ⟨⟨b, y⟩, hn⟩ := evaluateRule_now hd hl
  have hm : y ∈ rules.filterMap fun r => (evaluateRule series t m r).map Prod.snd :=
    mem_filterMap.mpr ⟨rule, hr, by rw [hn]; rfl⟩
  obtain ⟨z, hz⟩ := Option.ne_none_iff_exists'.mp (mt min?_eq_none_iff.mp (ne_nil_of_mem hm))
  rw [hz] at hx
  obtain ⟨x', hx'⟩ := evaluateRule_older hd hn (hx.trans ((min?_eq_some_iff.mp hz).2 y hm))
  -- the rule is triggered later, so it is triggered now
  cases hl.symm.trans hx'
  have hy := mem_decisive.mpr ⟨rule, hr, he, hn⟩
  rw [hni] at hy
  exact not_mem_nil hy

/-! ### A full rule that overtakes those that avoid -/

/-- The milliseconds until a series is stale. -/
def MetricSeries.left (e : MetricSeries) : ℚ := e.staleAfterMs - e.ageMs

/-- The series that are not stale. -/
def fresh (series : List MetricSeries) : List MetricSeries :=
  series.filter fun e => 0 ≤ e.left

/-- The series of a list that a rule is about. -/
def RoutingRule.reads (rule : RoutingRule) (l : List MetricSeries) : List MetricSeries :=
  l.filter fun e => e.name = rule.metric && labelsMatch e.labels rule.labels

/-- What a list of values comes to. -/
def Aggregate.Gives : Aggregate → List ℚ → ℚ → Prop
  | .max, values, v => v ∈ values ∧ ∀ w ∈ values, w ≤ v
  | .min, values, v => v ∈ values ∧ ∀ w ∈ values, v ≤ w
  | .avg, values, v => values ≠ [] ∧ v * values.length = values.sum

/-- What the aggregate counts on is fresh after `ms` milliseconds: every series for an average,
else the first with the extreme value. -/
def Aggregate.Outlasts (ms : ℚ) : Aggregate → List MetricSeries → Prop
  | .max, l => ∃ e, l.argmax (·.value) = some e ∧ ms < e.left
  | .min, l => ∃ e, l.argmin (·.value) = some e ∧ ms < e.left
  | .avg, l => ∀ e ∈ l, ms < e.left

/-- The rule is triggered by the series of a list. -/
def RoutingRule.Trips (rule : RoutingRule) (l : List MetricSeries) : Prop :=
  ∃ v, rule.aggregate.Gives ((rule.reads l).map (·.value)) v ∧
    compare v rule.op rule.threshold = true

/-- Some rule of this effect is about the member and is triggered. -/
def Triggers (rules : List RoutingRule) (m : Option String) (effect : Effect)
    (l : List MetricSeries) : Prop :=
  ∃ rule ∈ rules, rule.effect = effect ∧ ruleAppliesToMember rule m = true ∧ rule.Trips l

/-- When the series `cut` goes stale, those still fresh trigger a rule that says full, while a rule
that avoids counts on some of them. -/
def Overtaken (rules : List RoutingRule) (m : Option String) (l : List MetricSeries) : Prop :=
  ∃ cut ∈ l, Triggers rules m .full (l.filter fun e => cut.left < e.left) ∧
    ∃ rule ∈ rules, rule.effect = .avoid ∧ ruleAppliesToMember rule m = true ∧ rule.Trips l ∧
      rule.aggregate.Outlasts cut.left (rule.reads l)

theorem reads_fresh : series.filter (usable rule) = rule.reads (fresh series) := by
  unfold RoutingRule.reads fresh
  rw [filter_filter]
  refine filter_congr fun e _ => Bool.eq_iff_iff.mpr ?_
  simp [usable, isStale, MetricSeries.left]

theorem Aggregate.Gives.unique {values : List ℚ} {v w : ℚ} (hv : agg.Gives values v)
    (hw : agg.Gives values w) : v = w := by
  cases agg with
  | max => exact le_antisymm (hw.2 v hv.1) (hv.2 w hw.1)
  | min => exact le_antisymm (hv.2 w hw.1) (hw.2 v hv.1)
  | avg =>
    have hl : (values.length : ℚ) ≠ 0 := by simpa using hv.1
    exact mul_right_cancel₀ hl (hv.2.trans hw.2.symm)

theorem Aggregate.Gives.ne_nil {values : List ℚ} {v : ℚ} (h : agg.Gives values v) :
    values ≠ [] := by
  cases agg with
  | avg => exact h.1
  | max | min => exact ne_nil_of_mem h.1

/-- The value of an aggregate, and its expiry: when a series it counts on goes stale. -/
theorem aggregateMatching_spec {l : List MetricSeries} {v : ℚ}
    (h : aggregateMatching l agg t = some (v, x)) (hl : ∀ e ∈ l, 0 ≤ e.left) :
    agg.Gives (l.map (·.value)) v ∧ (∃ e ∈ l, x = t + e.left) ∧
      ∀ ms, t + ms < x ↔ agg.Outlasts ms l := by
  have hrem : ∀ e ∈ l, remainingMs e = e.left := fun e he => max_eq_right (hl e he)
  cases agg with
  | avg =>
    obtain ⟨y, hy, he⟩ := Option.map_eq_some_iff.mp h
    cases he
    obtain ⟨hm, hall⟩ := min?_eq_some_iff.mp hy
    obtain ⟨e, he, rfl⟩ := mem_map.mp hm
    have hne : (l.length : ℚ) ≠ 0 := by simpa using ne_nil_of_mem he
    refine ⟨⟨by simpa using ne_nil_of_mem he, ?_⟩, ⟨e, he, by rw [hrem e he]⟩, fun ms => ?_⟩
    · rw [length_map, div_mul_cancel₀ _ hne]
    · rw [add_lt_add_iff_left, hrem e he]
      refine ⟨fun hms e' he' => hms.trans_le ?_, fun hms => hms e he⟩
      have := hall _ (mem_map_of_mem he')
      rwa [hrem e he, hrem e' he', add_le_add_iff_left] at this
  | min =>
    obtain ⟨e, he, hx⟩ := Option.map_eq_some_iff.mp h
    cases hx
    have hm := argmin_mem he
    refine ⟨⟨mem_map_of_mem hm, forall_mem_map.mpr fun e' he' => ?_⟩, ⟨e, hm, by rw [hrem e hm]⟩,
      fun ms => ?_⟩
    · exact le_of_mem_argmin he' he
    · simp [Aggregate.Outlasts, he, hrem e hm]
  | max =>
    obtain ⟨e, he, hx⟩ := Option.map_eq_some_iff.mp h
    cases hx
    have hm := argmax_mem he
    refine ⟨⟨mem_map_of_mem hm, forall_mem_map.mpr fun e' he' => ?_⟩, ⟨e, hm, by rw [hrem e hm]⟩,
      fun ms => ?_⟩
    · exact le_of_mem_argmax he' he
    · simp [Aggregate.Outlasts, he, hrem e hm]

theorem left_nonneg {e : MetricSeries} (he : e ∈ fresh series) : 0 ≤ e.left := by
  simpa using of_mem_filter he

/-- What a triggered rule says of the series: it is about the member and trips, and it expires when
a series it counts on goes stale. -/
theorem evaluateRule_true (h : evaluateRule series t m rule = some (true, x)) :
    ruleAppliesToMember rule m = true ∧ rule.Trips (fresh series) ∧
      (∃ e ∈ fresh series, x = t + e.left) ∧
      ∀ ms, t + ms < x ↔ rule.aggregate.Outlasts ms (rule.reads (fresh series)) := by
  unfold evaluateRule at h
  split at h
  next ha =>
    obtain ⟨⟨v, y⟩, hg, he⟩ := Option.map_eq_some_iff.mp h
    obtain ⟨hc, rfl⟩ := Prod.mk.inj he
    rw [reads_fresh] at hg
    obtain ⟨hv, ⟨e, hm, hx⟩, ho⟩ :=
      aggregateMatching_spec hg fun e he => left_nonneg (mem_of_mem_filter he)
    exact ⟨ha, ⟨v, hv, hc⟩, ⟨e, mem_of_mem_filter hm, hx⟩, ho⟩
  · cases h

/-- A rule that trips is evaluated. -/
theorem exists_evaluateRule (ha : ruleAppliesToMember rule m = true)
    (h : rule.Trips (fresh series)) : ∃ x, evaluateRule series t m rule = some (true, x) := by
  obtain ⟨v, hv, hc⟩ := h
  unfold evaluateRule
  rw [if_pos ha, reads_fresh]
  cases hg : aggregateMatching (rule.reads (fresh series)) rule.aggregate t with
  | none =>
    rw [aggregate_eq_none.mp hg] at hv
    exact absurd rfl hv.ne_nil
  | some vx =>
    have hw := (aggregateMatching_spec hg fun e he => left_nonneg (mem_of_mem_filter he)).1
    exact ⟨vx.2, by rw [hv.unique hw] at hc; exact congrArg some (Prod.ext hc rfl)⟩

theorem decisive_ne_nil : decisive rules series t m effect ≠ [] ↔
    Triggers rules m effect (fresh series) := by
  constructor
  · intro h
    obtain ⟨x, hx⟩ := exists_mem_of_ne_nil _ h
    obtain ⟨rule, hr, he, hl⟩ := mem_decisive.mp hx
    exact ⟨rule, hr, he, (evaluateRule_true hl).1, (evaluateRule_true hl).2.1⟩
  · rintro ⟨rule, hr, he, ha, ht⟩
    obtain ⟨x, hx⟩ := exists_evaluateRule (t := t) ha ht
    exact ne_nil_of_mem (mem_decisive.mpr ⟨rule, hr, he, hx⟩)

theorem trips_older {l : List MetricSeries} : rule.Trips (l.map (.older d)) ↔ rule.Trips l := by
  have hl : (rule.reads (l.map (.older d))).map (·.value) = (rule.reads l).map (·.value) := by
    unfold RoutingRule.reads
    rw [filter_map, map_map]
    rfl
  rw [RoutingRule.Trips, hl, RoutingRule.Trips]

theorem triggers_older (hd : 0 ≤ d) : Triggers rules m effect (fresh (series.map (.older d))) ↔
    Triggers rules m effect ((fresh series).filter fun e => d ≤ e.left) := by
  have hl : fresh (series.map (.older d)) =
      ((fresh series).filter fun e => d ≤ e.left).map (.older d) := by
    unfold fresh
    rw [filter_map, filter_filter]
    refine congrArg (map _) (filter_congr fun e _ => Bool.eq_iff_iff.mpr ?_)
    have he : (e.older d).left = e.left - d := sub_add_eq_sub_sub _ _ _
    simp only [Function.comp, he, Bool.and_eq_true, decide_eq_true_eq]
    exact ⟨fun h => ⟨by linarith, by linarith⟩, fun h => by linarith⟩
  simp only [Triggers, hl, trips_older]

/-- A rule that says full is triggered before the rules that avoid expire exactly if one is
triggered when some series goes stale that a rule that avoids outlasts. -/
theorem overtaken_iff (hn : ¬Triggers rules m .full (fresh series))
    (ha : decisive rules series t m .avoid ≠ []) :
    Overtaken rules m (fresh series) ↔
      ∃ d ≥ 0, t + d ≤ (decisive rules series t m .avoid).max?.getD t ∧
        Triggers rules m .full (fresh (series.map (.older d))) := by
  obtain ⟨y, hy⟩ := Option.ne_none_iff_exists'.mp (mt max?_eq_none_iff.mp ha)
  obtain ⟨hmem, hall⟩ := max?_eq_some_iff.mp hy
  rw [hy, Option.getD_some]
  constructor
  · rintro ⟨cut, hc, hf, rule, hr, he, happ, ht, ho⟩
    obtain ⟨x, hx⟩ := exists_evaluateRule (t := t) happ ht
    obtain ⟨-, -, ⟨e, hm, rfl⟩, hout⟩ := evaluateRule_true hx
    have hlt : cut.left < e.left := by simpa using (hout _).mpr ho
    -- the next series after `cut` to go stale
    have hme : e ∈ (fresh series).filter fun e => cut.left < e.left :=
      mem_filter.mpr ⟨hm, by simpa using hlt⟩
    obtain ⟨next, hnext⟩ := Option.ne_none_iff_exists'.mp
      (mt argmin_eq_none.mp (ne_nil_of_mem hme : _ ≠ []) : argmin MetricSeries.left _ ≠ none)
    have hcn : cut.left < next.left := by simpa using of_mem_filter (argmin_mem hnext)
    refine ⟨next.left, (left_nonneg hc).trans hcn.le, ?_, ?_⟩
    · refine le_trans ?_ (hall _ (mem_decisive.mpr ⟨rule, hr, he, hx⟩))
      exact add_le_add_right (le_of_mem_argmin hme hnext) t
    · rw [triggers_older ((left_nonneg hc).trans hcn.le)]
      refine (congrArg (Triggers rules m .full) (filter_congr fun e' he' => ?_)).mp hf
      refine Bool.eq_iff_iff.mpr ⟨fun h => ?_, fun h => ?_⟩
      · simpa using le_of_mem_argmin (mem_filter.mpr ⟨he', h⟩) hnext
      · exact decide_eq_true (hcn.trans_le (of_decide_eq_true h))
  · rintro ⟨d, hd, hle, hf⟩
    rw [triggers_older hd] at hf
    -- the last series to go stale before `d`
    cases hcut : ((fresh series).filter fun e => e.left < d).argmax MetricSeries.left with
    | none =>
      refine absurd ?_ hn
      rwa [filter_eq_self.mpr fun e he => ?_] at hf
      have := filter_eq_nil_iff.mp (argmax_eq_none.mp hcut) e he
      simpa using this
    | some cut =>
      obtain ⟨hc, hcd⟩ := mem_filter.mp (argmax_mem hcut)
      replace hcd : cut.left < d := of_decide_eq_true hcd
      obtain ⟨rule, hr, he, hx⟩ := mem_decisive.mp hmem
      obtain ⟨happ, ht, -, hout⟩ := evaluateRule_true hx
      refine ⟨cut, hc, ?_, rule, hr, he, happ, ht, (hout _).mp (by linarith)⟩
      refine (congrArg (Triggers rules m .full) (filter_congr fun e' he' => ?_)).mp hf
      refine Bool.eq_iff_iff.mpr ⟨fun h => ?_, fun h => ?_⟩
      · exact decide_eq_true (hcd.trans_le (of_decide_eq_true h))
      · by_contra hlt
        have hlt : e'.left < d := by simpa using hlt
        have := le_of_mem_argmax (mem_filter.mpr ⟨he', decide_eq_true hlt⟩) hcut
        exact absurd (of_decide_eq_true h) this.not_gt

/-- A verdict stands until it expires unless no rule says full now and one does, of the series
left, before the rules that avoid expire. -/
theorem verdict_until_expiry_iff (rules : List RoutingRule) (series : List MetricSeries) (t : ℚ)
    (m : Option String) :
    (∀ d ≥ 0, t + d ≤ (evaluateRoutingRules rules series t m).expiresAt →
      (evaluateRoutingRules rules (series.map (.older d)) (t + d) m).verdict =
        (evaluateRoutingRules rules series t m).verdict) ↔
    (Overtaken rules m (fresh series) → Triggers rules m .full (fresh series)) := by
  simp only [evaluateRoutingRules]
  by_cases hf : decisive rules series t m .full ≠ []
  · simp only [if_pos hf]
    refine iff_of_true (fun d hd hx => ?_) fun _ => decisive_ne_nil.mp hf
    rw [if_pos (decisive_until hd hf hx)]
  have hn : ¬Triggers rules m .full (fresh series) := mt decisive_ne_nil.mpr hf
  simp only [if_neg hf]
  by_cases ha : decisive rules series t m .avoid ≠ []
  · simp only [if_pos ha, hn, imp_false, overtaken_iff hn ha, not_exists, not_and]
    refine forall₃_congr fun d hd hx => ?_
    rw [← decisive_ne_nil (t := t + d)]
    constructor
    · intro hv hne
      rw [if_pos hne] at hv
      cases hv
    · intro hne
      rw [if_neg hne, if_pos (decisive_until hd ha hx)]
  · simp only [if_neg ha]
    refine iff_of_true (fun d hd hx => ?_) fun ⟨_, _, _, rule, hr, he, happ, ht, _⟩ =>
      absurd (decisive_ne_nil.mpr ⟨rule, hr, he, happ, ht⟩) ha
    have hn {e : Effect} (he : ¬decisive rules series t m e ≠ []) :=
      not_not_intro (not_decisive_until hd (not_not.mp he) hx)
    rw [if_neg (hn hf), if_neg (hn ha)]

/-- The smaller load goes stale first, and the minimum rises over the threshold. -/
theorem avoid_before_full :
    let rule (aggregate : Aggregate) (effect : Effect) : RoutingRule :=
      ⟨"load", none, aggregate, .gt, 5, effect, none, none⟩
    let load (v staleAfterMs : ℚ) : MetricSeries := ⟨"load", .empty, v, 0, staleAfterMs⟩
    let series := [load 1 10, load 9 30]
    let rules := [rule .min .full, rule .max .avoid]
    let before := evaluateRoutingRules rules series 0 none
    let after := evaluateRoutingRules rules (series.map (.older 20)) 20 none
    before.verdict = some .avoid ∧ before.expiresAt = 30 ∧ after.verdict = some .full := by
  decide +kernel

end ModelProxy.Routing
