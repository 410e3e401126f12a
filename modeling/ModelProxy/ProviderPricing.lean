import ModelProxy.ProviderBudget
import Mathlib.Tactic.Linarith
import Mathlib.Tactic.Ring

/-! # Liabilities and charges of a pricing schedule

A schedule prices tokens by category.  `liabilityFromPricing` prices what an attempt
may use at most, `calculatedCostForUsage` what it used.  The two choose the rate of a
category by different rules: a charge takes the output rate for reasoning and tool
tokens that the output includes, the liability takes their own rate if they have one.
The greatest charge within the allowances (`greatestCharge`) is attained, so a
liability bounds every charge exactly when the included categories are not priced
below the output (`liability_bounds_cost_iff`).
-/
namespace ModelProxy.Spend

/-- Rates per million tokens. -/
structure Rates where
  input : Rat
  output : Rat
  cacheRead : Option Rat
  cacheWrite : Option Rat
  reasoning : Option Rat
  tool : Option Rat
  additional : Option Rat
deriving DecidableEq, Repr

/-- A category's own rate, if it has one, is not negative. -/
def NonnegRate (rate : Option Rat) : Prop := ∀ r ∈ rate, 0 ≤ r

/-- No rate is negative. -/
structure Rates.Nonneg (rates : Rates) : Prop where
  input : 0 ≤ rates.input
  output : 0 ≤ rates.output
  cacheRead : NonnegRate rates.cacheRead
  cacheWrite : NonnegRate rates.cacheWrite
  reasoning : NonnegRate rates.reasoning
  tool : NonnegRate rates.tool
  additional : NonnegRate rates.additional

/-- What a category includes, and how many tokens of it an attempt may use. -/
structure ChargeRules where
  inputIncludesCacheRead : Bool
  inputIncludesCacheWrite : Bool
  outputIncludesReasoning : Bool
  outputIncludesTool : Bool
  reasoningAllowanceTokens : ℕ
  toolAllowanceTokens : ℕ
  cacheReadAllowanceTokens : ℕ
  cacheWriteAllowanceTokens : ℕ
  additionalAllowanceTokens : ℕ
deriving DecidableEq, Repr

/-- A schedule as parsing accepts it: no rate is negative. -/
structure ProviderPricingSchedule where
  version : String
  currency : String
  accountingVersion : String
  rates : Rates
  rules : ChargeRules
  nonneg : rates.Nonneg

/-! ## The liability -/

/-- The sum, where it fits the column. -/
def checkedTotal (values : List Int) : Option Int :=
  if values.sum ≤ maxSignedBigint then some values.sum else none

/-- The category costs nothing more or has a rate. -/
def canPriceCategory (bound : ℕ) (included : Bool) (rate : Option Rat) : Bool :=
  decide (bound = 0) || included || rate.isSome

/-- Every category an attempt may use has a price. -/
def ProviderPricingSchedule.priceable (pricing : ProviderPricingSchedule) : Bool :=
  let rates := pricing.rates
  let rules := pricing.rules
  canPriceCategory rules.cacheReadAllowanceTokens rules.inputIncludesCacheRead rates.cacheRead &&
    canPriceCategory rules.cacheWriteAllowanceTokens rules.inputIncludesCacheWrite
      rates.cacheWrite &&
    canPriceCategory rules.reasoningAllowanceTokens rules.outputIncludesReasoning
      rates.reasoning &&
    canPriceCategory rules.toolAllowanceTokens rules.outputIncludesTool rates.tool &&
    !(decide (rules.additionalAllowanceTokens > 0) && rates.additional.isNone)

/-- The spend of a liability, before it is divided by a million. -/
def ProviderPricingSchedule.liabilityUnits (pricing : ProviderPricingSchedule)
    (estimatedInputTokens requestedOutputTokens : Int) : Rat :=
  let rates := pricing.rates
  let rules := pricing.rules
  rates.input * estimatedInputTokens + rates.output * requestedOutputTokens +
    rates.reasoning.getD rates.output * rules.reasoningAllowanceTokens +
    rates.tool.getD rates.output * rules.toolAllowanceTokens +
    (if rules.inputIncludesCacheRead then rates.input else rates.cacheRead.getD rates.input) *
      rules.cacheReadAllowanceTokens +
    (if rules.inputIncludesCacheWrite then rates.input else rates.cacheWrite.getD rates.input) *
      rules.cacheWriteAllowanceTokens +
    rates.additional.getD rates.output * rules.additionalAllowanceTokens

/-- The most a request may cost. -/
def liabilityFromPricing (estimatedInputTokens requestedOutputTokens : Int) :
    Option ProviderPricingSchedule → ProviderLiability
  | none => ⟨none, none, none, none, "provider-billable-v1"⟩
  | some pricing =>
    let rules := pricing.rules
    let tokens := checkedTotal [estimatedInputTokens, requestedOutputTokens,
      rules.reasoningAllowanceTokens, rules.toolAllowanceTokens, rules.cacheReadAllowanceTokens,
      rules.cacheWriteAllowanceTokens, rules.additionalAllowanceTokens]
    let spend :=
      if pricing.priceable then
        some (some (pricing.liabilityUnits estimatedInputTokens requestedOutputTokens / 1000000))
      else none
    ⟨tokens, spend, some pricing.currency, some pricing.version, pricing.accountingVersion⟩

/-! ## The charge -/

/-- Add a category to a total; tokens without a rate cannot be charged. -/
def chargeCategory (tokens : Int) (rate : Option Rat) (total : Rat) : Option Rat :=
  match rate with
  | none => if tokens > 0 then none else some total
  | some rate => some (total + rate * tokens)

/-- The charge, before it is divided by a million. -/
def chargedUnits (usage : RawProviderUsage) (rates : Rates) (rules : ChargeRules) : Option Rat := do
  let total := rates.input * (usage.inputTokens.getD 0 : Int) +
    rates.output * (usage.outputTokens.getD 0 : Int)
  let total ← chargeCategory (usage.cacheReadTokens.getD 0)
    (if rules.inputIncludesCacheRead then some rates.input else rates.cacheRead) total
  let total ← chargeCategory (usage.cacheWriteTokens.getD 0)
    (if rules.inputIncludesCacheWrite then some rates.input else rates.cacheWrite) total
  let total ← chargeCategory (usage.reasoningTokens.getD 0)
    (if rules.outputIncludesReasoning then some rates.output else rates.reasoning) total
  let total ← chargeCategory (usage.toolTokens.getD 0)
    (if rules.outputIncludesTool then some rates.output else rates.tool) total
  chargeCategory (usage.additionalBillableTokens.getD 0) rates.additional total

/-- The cost of what was used, where it can be priced. -/
def calculatedCostForUsage (usage : RawProviderUsage) (pricing : ProviderPricingSchedule) :
    Option Rat :=
  if usage.authoritativeBillableTokens.isSome then none
  else if usage.categoriesComplete ≠ some true then none
  else (chargedUnits usage pricing.rates pricing.rules).map (fun total => total / 1000000)

/-! ## The greatest charge -/

/-- The usage stays within the estimate and the allowances. -/
structure WithinAllowances (estimatedInputTokens requestedOutputTokens : Int) (rules : ChargeRules)
    (usage : RawProviderUsage) : Prop where
  input : usage.inputTokens.getD 0 ≤ estimatedInputTokens
  output : usage.outputTokens.getD 0 ≤ requestedOutputTokens
  cacheRead : usage.cacheReadTokens.getD 0 ≤ rules.cacheReadAllowanceTokens
  cacheWrite : usage.cacheWriteTokens.getD 0 ≤ rules.cacheWriteAllowanceTokens
  reasoning : usage.reasoningTokens.getD 0 ≤ rules.reasoningAllowanceTokens
  tool : usage.toolTokens.getD 0 ≤ rules.toolAllowanceTokens
  additional : usage.additionalBillableTokens.getD 0 ≤ rules.additionalAllowanceTokens

/-- The rate a category is charged at. -/
def chargeRate (included : Bool) (base : Rat) (own : Option Rat) : Rat :=
  if included then base else own.getD base

/-- The charge of all that may be used. -/
def ProviderPricingSchedule.greatestCharge (pricing : ProviderPricingSchedule)
    (estimatedInputTokens requestedOutputTokens : Int) : Rat :=
  let rates := pricing.rates
  let rules := pricing.rules
  rates.input * estimatedInputTokens + rates.output * requestedOutputTokens +
    chargeRate rules.inputIncludesCacheRead rates.input rates.cacheRead *
      rules.cacheReadAllowanceTokens +
    chargeRate rules.inputIncludesCacheWrite rates.input rates.cacheWrite *
      rules.cacheWriteAllowanceTokens +
    chargeRate rules.outputIncludesReasoning rates.output rates.reasoning *
      rules.reasoningAllowanceTokens +
    chargeRate rules.outputIncludesTool rates.output rates.tool * rules.toolAllowanceTokens +
    chargeRate false rates.output rates.additional * rules.additionalAllowanceTokens

/-- What the liability sets aside for an included category over its charge. -/
def includedMargin (included : Bool) (output : Rat) (own : Option Rat) (allowance : ℕ) : Rat :=
  if included then (own.getD output - output) * allowance else 0

/-- The margin of the two categories an output may include. -/
def ProviderPricingSchedule.margin (pricing : ProviderPricingSchedule) : Rat :=
  let rates := pricing.rates
  let rules := pricing.rules
  includedMargin rules.outputIncludesReasoning rates.output rates.reasoning
      rules.reasoningAllowanceTokens +
    includedMargin rules.outputIncludesTool rates.output rates.tool rules.toolAllowanceTokens

theorem ownRate_eq (incl : Bool) (output : Rat) (own : Option Rat) (allowance : ℕ) :
    own.getD output * allowance =
      chargeRate incl output own * allowance + includedMargin incl output own allowance := by
  cases incl with
  | true =>
    simp only [chargeRate, includedMargin, if_true]
    ring
  | false => simp [chargeRate, includedMargin]

/-- The liability is the greatest charge plus the margin. -/
theorem liabilityUnits_eq (pricing : ProviderPricingSchedule)
    (estimatedInputTokens requestedOutputTokens : Int) :
    pricing.liabilityUnits estimatedInputTokens requestedOutputTokens =
      pricing.greatestCharge estimatedInputTokens requestedOutputTokens + pricing.margin := by
  have hr := ownRate_eq pricing.rules.outputIncludesReasoning pricing.rates.output
    pricing.rates.reasoning pricing.rules.reasoningAllowanceTokens
  have hto := ownRate_eq pricing.rules.outputIncludesTool pricing.rates.output
    pricing.rates.tool pricing.rules.toolAllowanceTokens
  simp only [ProviderPricingSchedule.liabilityUnits, ProviderPricingSchedule.greatestCharge,
    ProviderPricingSchedule.margin, hr, hto]
  simp only [chargeRate, Bool.false_eq_true, if_false]
  ring

section Category
variable {bound : ℕ} {incl : Bool} {base total total' : Rat} {own : Option Rat} {tokens : Int}

/-- A priced category costs at most its allowance at its rate. -/
theorem chargeCategory_le (hbs : 0 ≤ base) (ho : NonnegRate own) (ht : tokens ≤ bound)
    (hpc : canPriceCategory bound incl own = true)
    (h : chargeCategory tokens (if incl then some base else own) total = some total') :
    total' ≤ total + chargeRate incl base own * bound := by
  have ht' : (tokens : Rat) ≤ bound := by exact_mod_cast ht
  cases incl with
  | true =>
    cases h
    exact add_le_add_right (mul_le_mul_of_nonneg_left ht' hbs) _
  | false =>
    cases own with
    | none =>
      have hz : bound = 0 := by simpa [canPriceCategory] using hpc
      simp only [chargeCategory, Bool.false_eq_true, if_false] at h
      split at h
      · cases h
      · cases h
        simp [hz]
    | some rate =>
      cases h
      exact add_le_add_right (mul_le_mul_of_nonneg_left ht' (ho rate rfl)) _

/-- The whole allowance of a priced category can be charged. -/
theorem chargeCategory_allowance (hpc : canPriceCategory bound incl own = true) :
    chargeCategory bound (if incl then some base else own) total =
      some (total + chargeRate incl base own * bound) := by
  cases incl with
  | true => rfl
  | false =>
    cases own with
    | none =>
      have hz : bound = 0 := by simpa [canPriceCategory] using hpc
      simp [chargeCategory, hz]
    | some rate => rfl

end Category

section Bound
variable (pricing : ProviderPricingSchedule) (estimatedInputTokens requestedOutputTokens : Int)

/-- What makes every category priceable. -/
theorem priceable_iff : pricing.priceable = true ↔
    canPriceCategory pricing.rules.cacheReadAllowanceTokens pricing.rules.inputIncludesCacheRead
        pricing.rates.cacheRead = true ∧
      canPriceCategory pricing.rules.cacheWriteAllowanceTokens
        pricing.rules.inputIncludesCacheWrite pricing.rates.cacheWrite = true ∧
      canPriceCategory pricing.rules.reasoningAllowanceTokens
        pricing.rules.outputIncludesReasoning pricing.rates.reasoning = true ∧
      canPriceCategory pricing.rules.toolAllowanceTokens pricing.rules.outputIncludesTool
        pricing.rates.tool = true ∧
      canPriceCategory pricing.rules.additionalAllowanceTokens false
        pricing.rates.additional = true := by
  simp only [ProviderPricingSchedule.priceable, Bool.and_eq_true, and_assoc]
  have ha : (!(decide (pricing.rules.additionalAllowanceTokens > 0) &&
      pricing.rates.additional.isNone)) =
        canPriceCategory pricing.rules.additionalAllowanceTokens false
          pricing.rates.additional := by
    rcases eq_zero_or_pos pricing.rules.additionalAllowanceTokens with h | h
    · simp [canPriceCategory, h]
    · cases hr : pricing.rates.additional <;> simp [canPriceCategory, h, h.ne']
  rw [ha]

/-- No usage within the allowances is charged more than the greatest charge. -/
theorem chargedUnits_le (hpc : pricing.priceable = true) {usage : RawProviderUsage}
    (hu : WithinAllowances estimatedInputTokens requestedOutputTokens pricing.rules usage)
    {total : Rat} (h : chargedUnits usage pricing.rates pricing.rules = some total) :
    total ≤ pricing.greatestCharge estimatedInputTokens requestedOutputTokens := by
  obtain ⟨hc, hW, hs, hto, ha⟩ :=
    (priceable_iff pricing).mp hpc
  have hr := pricing.nonneg
  simp only [chargedUnits, Option.bind_eq_bind, Option.bind_eq_some_iff] at h
  obtain ⟨t₁, h₁, t₂, h₂, t₃, h₃, t₄, h₄, h₅⟩ := h
  have hle₁ := chargeCategory_le hr.input hr.cacheRead hu.cacheRead hc h₁
  have hle₂ := chargeCategory_le hr.input hr.cacheWrite hu.cacheWrite hW h₂
  have hle₃ := chargeCategory_le hr.output hr.reasoning hu.reasoning hs h₃
  have hle₄ := chargeCategory_le hr.output hr.tool hu.tool hto h₄
  have hle₅ : total ≤ t₄ + chargeRate false pricing.rates.output pricing.rates.additional *
      pricing.rules.additionalAllowanceTokens :=
    chargeCategory_le hr.output hr.additional hu.additional ha h₅
  have hi : pricing.rates.input * (usage.inputTokens.getD 0 : Int) ≤
      pricing.rates.input * estimatedInputTokens :=
    mul_le_mul_of_nonneg_left (by exact_mod_cast hu.input) hr.input
  have ho : pricing.rates.output * (usage.outputTokens.getD 0 : Int) ≤
      pricing.rates.output * requestedOutputTokens :=
    mul_le_mul_of_nonneg_left (by exact_mod_cast hu.output) hr.output
  unfold ProviderPricingSchedule.greatestCharge
  linarith

/-- All that may be used. -/
def fullUsage : RawProviderUsage where
  inputTokens := some estimatedInputTokens
  outputTokens := some requestedOutputTokens
  cacheReadTokens := some pricing.rules.cacheReadAllowanceTokens
  cacheWriteTokens := some pricing.rules.cacheWriteAllowanceTokens
  reasoningTokens := some pricing.rules.reasoningAllowanceTokens
  toolTokens := some pricing.rules.toolAllowanceTokens
  rawUsage := none
  additionalBillableTokens := some pricing.rules.additionalAllowanceTokens
  authoritativeBillableTokens := none
  reportedTotalTokens := none
  categoriesComplete := some true
  observationComplete := none
  reportedCost := none
  reportedCostCurrency := none
  reportedCostPricingVersion := none
  reportedCostSource := none
  calculatedCost := none
  calculatedCostCurrency := none
  calculatedCostPricingVersion := none
  calculatedCostSource := none
  calculatedCostConfidence := none
  currency := none
  pricingVersion := none
  accountingVersion := pricing.accountingVersion
  confidence := .calculated

theorem fullUsage_within : WithinAllowances estimatedInputTokens requestedOutputTokens
    pricing.rules (fullUsage pricing estimatedInputTokens requestedOutputTokens) :=
  ⟨le_refl _, le_refl _, le_refl _, le_refl _, le_refl _, le_refl _, le_refl _⟩

/-- The greatest charge is attained. -/
theorem chargedUnits_fullUsage (hpc : pricing.priceable = true) :
    chargedUnits (fullUsage pricing estimatedInputTokens requestedOutputTokens) pricing.rates
        pricing.rules =
      some (pricing.greatestCharge estimatedInputTokens requestedOutputTokens) := by
  obtain ⟨hc, hW, hr, hto, ha⟩ :=
    (priceable_iff pricing).mp hpc
  simp only [chargedUnits, fullUsage, Option.getD_some, Option.bind_eq_bind]
  rw [chargeCategory_allowance hc, Option.bind_some, chargeCategory_allowance hW,
    Option.bind_some, chargeCategory_allowance hr, Option.bind_some,
    chargeCategory_allowance hto, Option.bind_some]
  exact chargeCategory_allowance ha

/-- **A liability bounds every charge within its allowances exactly when** it gives no
spend, or the reasoning and tool tokens that the output includes are, over their
allowances, not priced below the output. -/
theorem liability_bounds_cost_iff :
    (∀ usage, WithinAllowances estimatedInputTokens requestedOutputTokens pricing.rules usage →
      ∀ spend cost, (liabilityFromPricing estimatedInputTokens requestedOutputTokens
          (some pricing)).spend = some (some spend) →
        calculatedCostForUsage usage pricing = some cost → cost ≤ spend) ↔
      (pricing.priceable = true → 0 ≤ pricing.margin) := by
  have hs (hp : pricing.priceable = true) :
      (liabilityFromPricing estimatedInputTokens requestedOutputTokens (some pricing)).spend =
        some (some ((pricing.greatestCharge estimatedInputTokens requestedOutputTokens +
          pricing.margin) / 1000000)) := by
    simp [liabilityFromPricing, hp, liabilityUnits_eq]
  constructor
  · intro hb hp
    have hc : calculatedCostForUsage (fullUsage pricing estimatedInputTokens
        requestedOutputTokens) pricing = some (pricing.greatestCharge estimatedInputTokens
          requestedOutputTokens / 1000000) := by
      rw [calculatedCostForUsage, chargedUnits_fullUsage pricing _ _ hp]
      rfl
    have hle := hb _ (fullUsage_within pricing _ _) _ _ (hs hp) hc
    linarith
  · intro hm usage hu spend cost hl hc
    have hp : pricing.priceable = true := by
      by_contra hn
      simp [liabilityFromPricing, hn] at hl
    obtain rfl := Option.some.inj (Option.some.inj ((hs hp).symm.trans hl))
    simp only [calculatedCostForUsage] at hc
    split at hc
    · cases hc
    split at hc
    · cases hc
    obtain ⟨total, ht, rfl⟩ := Option.map_eq_some_iff.mp hc
    have hle := chargedUnits_le pricing _ _ hp hu ht
    have hm := hm hp
    linarith

end Bound

/-! ## A reasoning rate below the output rate -/

namespace IncludedReasoning

/-- Reasoning is included in the output, and has a rate of its own a tenth of it. -/
def pricing : ProviderPricingSchedule where
  version := "v1"
  currency := "USD"
  accountingVersion := "provider-billable-v1"
  rates := ⟨0, 10, none, none, some 1, none, none⟩
  rules := ⟨false, false, true, false, 1000000, 0, 0, 0, 0⟩
  nonneg := by
    constructor <;> simp [NonnegRate]

/-- A million reasoning tokens cost ten, and one was set aside for them. -/
theorem cost_exceeds_liability :
    WithinAllowances 0 0 pricing.rules (fullUsage pricing 0 0) ∧
      (liabilityFromPricing 0 0 (some pricing)).spend = some (some 1) ∧
        calculatedCostForUsage (fullUsage pricing 0 0) pricing = some 10 :=
  ⟨fullUsage_within pricing 0 0, by decide +kernel, by decide +kernel⟩

end IncludedReasoning

end ModelProxy.Spend
