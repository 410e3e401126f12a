import ModelProxy.ProviderLedger
import Mathlib.Algebra.Order.BigOperators.Group.List

/-! # The monthly cap over histories

Admission reads two aggregates: the settled cost of the attempts whose first revision
falls in the month, and the liability of the attempts in flight.  Over valid tables
both are sums over the capped attempts (`spendUsage_eq`): each is counted once, by its
liability until it has a revision, and by its settled total in the month of its first
one.  So an admission adds the liability it checks, a first settlement puts the total
in the liability's place, and a new month only forgets.  The cap then holds along
every history in which totals stay within the liabilities and no later revision
raises one in the month it counts in (`spendCap_holds`).
-/
namespace ModelProxy.Spend
open Attempt List SpendSubject

/-- What a cap limits, and to what. -/
structure MonthlyCap where
  subject : SpendSubject
  currency : String
  limit : Rat
deriving DecidableEq, Repr

/-- A cloud attempt whose liability is priced in the currency of the cap. -/
def Attempt.capped (currency : String) (a : Attempt) : Bool :=
  decide (a.kind = .cloud) && a.liabilitySpend.isSome &&
    decide (a.liabilityCurrency = some currency)

/-- Every settled total of the subject is within the liability it was admitted with. -/
def TotalsWithin (subject : SpendSubject) (s : SpendStore) : Prop :=
  ∀ a ∈ s.attempts, subject.attempt a = true →
    settledTotal s a.id a.fencingToken ≤ a.liabilitySpend.getD 0

/-- No attempt of the subject whose first revision is of this month is settled higher. -/
def NeverRaised (subject : SpendSubject) (window : MonthWindow) (s s' : SpendStore) : Prop :=
  ∀ a ∈ s.attempts, subject.attempt a = true →
    firstInWindow s subject window a.id a.fencingToken = true →
      settledTotal s' a.id a.fencingToken ≤ settledTotal s a.id a.fencingToken

instance (subject : SpendSubject) (s : SpendStore) : Decidable (TotalsWithin subject s) :=
  inferInstanceAs (Decidable (∀ a ∈ s.attempts, _))

instance (subject : SpendSubject) (window : MonthWindow) (s s' : SpendStore) :
    Decidable (NeverRaised subject window s s') :=
  inferInstanceAs (Decidable (∀ a ∈ s.attempts, _))

section Charges
variable (s : SpendStore) (cap : MonthlyCap) (window : MonthWindow)

/-- What a capped attempt counts before its first revision. -/
def openLiability (a : Attempt) : Rat :=
  if cap.subject.attempt a && a.capped cap.currency &&
      (s.revisionsOf a.id a.fencingToken).isEmpty then
    a.liabilitySpend.getD 0
  else 0

/-- What a capped attempt counts in the month of its first revision. -/
def settledShare (a : Attempt) : Rat :=
  if cap.subject.attempt a && a.capped cap.currency &&
      firstInWindow s cap.subject window a.id a.fencingToken then
    settledTotal s a.id a.fencingToken
  else 0

end Charges

/-! ## The aggregates are sums over the capped attempts -/

variable {l : UsageLedger} {now : Instant}

section Aggregates
variable {s : SpendStore} {cap : MonthlyCap} {window : MonthWindow} {a : Attempt}

/-- A subject sees the rows of its attempts, and no others. -/
theorem Attempt.Owns.subject (h : a.Owns l) (subject : SpendSubject) :
    subject.ledger l = subject.attempt a := by
  cases subject with
  | account id => simp [ledger, attempt, h.account]
  | share id => simp [ledger, attempt, h.share]

/-- The rows under an attempt's fence are its own. -/
theorem owns_of_mem (hs : s.Valid) (ha : a ∈ s.attempts)
    (hl : l ∈ s.revisionsOf a.id a.fencingToken) : a.Owns l := by
  obtain ⟨hd, hid, -⟩ := mem_revisionsOf.mp hl
  obtain ⟨b, hb, hos⟩ := hs.owned l hd
  exact eq_of_attempt_id hs ha hb (hid.symm.trans hos.attemptId) ▸ hos

theorem firstInWindow_iff (hs : s.Valid) (ha : a ∈ s.attempts) (hb : cap.subject.attempt a = true) :
    firstInWindow s cap.subject window a.id a.fencingToken = true ↔
      (∃ l ∈ s.revisionsOf a.id a.fencingToken, window.contains l.createdAt = true) ∧
        ∀ l ∈ s.revisionsOf a.id a.fencingToken, window.start ≤ l.createdAt := by
  have hrw : ∀ l ∈ s.revisionsOf a.id a.fencingToken, cap.subject.ledger l = true :=
    fun l hl => ((owns_of_mem hs ha hl).subject cap.subject).trans hb
  simp only [firstInWindow, Bool.and_eq_true, any_eq_true, Bool.not_eq_true',
    any_eq_false, decide_eq_true_eq, not_lt]
  constructor
  · rintro ⟨⟨l, hl, -, hc⟩, ht⟩
    exact ⟨⟨l, hl, hc⟩, ht⟩
  · rintro ⟨⟨l, hl, hc⟩, ht⟩
    exact ⟨⟨l, hl, hrw l hl, hc⟩, ht⟩

theorem firstInWindow_other (window : MonthWindow) (hs : s.Valid) (ha : a ∈ s.attempts)
    (hb : cap.subject.attempt a = false) :
    firstInWindow s cap.subject window a.id a.fencingToken = false := by
  have hrw : (s.revisionsOf a.id a.fencingToken).any
      (fun l => cap.subject.ledger l && window.contains l.createdAt) = false := by
    rw [any_eq_false]
    intro l hl
    simp [(owns_of_mem hs ha hl).subject cap.subject, hb]
  rw [firstInWindow, hrw, Bool.false_and]

/-- The settled total sums the counted rows. -/
theorem settledTotal_eq (aid : String) (tok : Int) :
    settledTotal s aid tok =
      (((s.revisionsOf aid tok).filter (countedRevision s)).map
        (fun l => l.settledCost.getD 0)).sum := by
  have hc : ∀ l ∈ s.revisionsOf aid tok, countedRevision s l =
      Revision.counted ((s.revisionsOf aid tok).map UsageLedger.revision)
        l.revision := by
    intro l hl
    obtain ⟨-, rfl, rfl⟩ := mem_revisionsOf.mp hl
    rfl
  rw [settledTotal, Revision.settled, filter_map, map_map, filter_congr hc]
  rfl

theorem cost_nonneg_of_mem (hs : s.Valid) {aid : String} {tok : Int}
    {p : UsageLedger → Bool} {x : Rat}
    (hx : x ∈ ((s.revisionsOf aid tok).filter p).map (fun l => l.settledCost.getD 0)) : 0 ≤ x := by
  obtain ⟨l, hl, rfl⟩ := mem_map.mp hx
  exact hs.cost l (mem_revisionsOf.mp (mem_of_mem_filter hl)).1

theorem settledTotal_nonneg (hs : s.Valid) (aid : String) (fencingToken : Int) :
    0 ≤ settledTotal s aid fencingToken := by
  rw [settledTotal_eq]
  exact sum_nonneg (fun x hx => cost_nonneg_of_mem hs hx)

/-- What the rows of one attempt put into the month's settled sum. -/
def settledCharge (s : SpendStore) (cap : MonthlyCap) (window : MonthWindow) (a : Attempt) : Rat :=
  (((s.revisionsOf a.id a.fencingToken).filter (fun l =>
    firstInWindow s cap.subject window l.attemptId l.fencingToken &&
      decide (l.currency = some cap.currency) && countedRevision s l)).map
        (fun l => l.settledCost.getD 0)).sum

theorem settledCharge_nonneg (hs : s.Valid) : 0 ≤ settledCharge s cap window a :=
  sum_nonneg (fun _ hx => cost_nonneg_of_mem hs hx)

theorem settledCharge_le (hs : s.Valid) :
    settledCharge s cap window a ≤ settledTotal s a.id a.fencingToken := by
  rw [settledTotal_eq, settledCharge]
  refine List.Sublist.sum_le_sum (List.Sublist.map _ ?_) (fun x hx => cost_nonneg_of_mem hs hx)
  exact monotone_filter_right _ (fun l hl => (Bool.and_eq_true_iff.mp hl).2)

/-- Rows all in one currency count wholly or not at all. -/
theorem settledCharge_of_currency {currency : Option String}
    (h : ∀ l ∈ s.revisionsOf a.id a.fencingToken, l.currency = currency) :
    settledCharge s cap window a =
      if firstInWindow s cap.subject window a.id a.fencingToken ∧ currency = some cap.currency then
        settledTotal s a.id a.fencingToken
      else 0 := by
  have hf : ∀ l ∈ s.revisionsOf a.id a.fencingToken,
      (firstInWindow s cap.subject window l.attemptId l.fencingToken &&
        decide (l.currency = some cap.currency) && countedRevision s l) =
      (decide (firstInWindow s cap.subject window a.id a.fencingToken = true ∧
        currency = some cap.currency) && countedRevision s l) := by
    intro l hl
    obtain ⟨-, hid, ht⟩ := mem_revisionsOf.mp hl
    rw [hid, ht, h l hl, Bool.decide_and, Bool.decide_eq_true]
  rw [settledCharge, filter_congr hf]
  split
  next hcs => simp [hcs, settledTotal_eq]
  next hcs => simp [hcs]

/-- The cap's query counts what is settled in the month. -/
theorem settledCharge_eq (hs : s.Valid) (hw : TotalsWithin cap.subject s)
    (ha : a ∈ s.attempts) : settledCharge s cap window a = settledShare s cap window a := by
  unfold settledShare
  cases hb : cap.subject.attempt a with
  | false =>
    have hf := firstInWindow_other window hs ha hb
    have hno : ∀ l ∈ s.revisionsOf a.id a.fencingToken,
        ¬ (firstInWindow s cap.subject window l.attemptId l.fencingToken &&
          decide (l.currency = some cap.currency) && countedRevision s l) = true := by
      intro l hl
      obtain ⟨-, hid, hk⟩ := mem_revisionsOf.mp hl
      simp [hid, hk, hf]
    simp [settledCharge, filter_eq_nil_iff.mpr hno]
  | true =>
    by_cases hkd : a.kind = .cloud
    · cases hp : a.liabilitySpend with
      | none =>
        -- nothing was admitted, so nothing is settled
        have ht := hw a ha hb
        rw [hp] at ht
        have hz : settledCharge s cap window a = 0 :=
          le_antisymm ((settledCharge_le hs).trans ht) (settledCharge_nonneg hs)
        simp [hz, capped, hp]
      | some liability =>
        have hc : ∀ l ∈ s.revisionsOf a.id a.fencingToken,
            l.currency = a.liabilityCurrency :=
          fun l hl => (hs.priced a ha (by simp [hp]) l hl).2
        rw [settledCharge_of_currency hc]
        simp [capped, hp, hkd, and_comm]
    · have hrw : s.revisionsOf a.id a.fencingToken = [] :=
        eq_nil_iff_forall_not_mem.mpr fun _ hl => hkd (owns_of_mem hs ha hl).cloud
      simp [settledCharge, hrw, capped, hkd]

theorem reservedAttempts_eq (hs : s.Valid) :
    reservedAttempts s cap.subject cap.currency = (s.attempts.map (openLiability s cap)).sum := by
  rw [reservedAttempts, ← sum_map_ite_zero]
  refine congrArg sum (map_congr_left (fun a ha => ?_))
  unfold openLiability inFlight capped
  by_cases hkd : a.kind = .cloud
  · have ht := hs.active a ha hkd
    cases hrw : s.revisionsOf a.id a.fencingToken with
    | nil =>
      have hst := ht.mpr hrw
      cases hp : a.liabilitySpend <;> simp [hkd, hst]
    | cons l rows => simp
  · simp [hkd]

/-- The ledger's sum is the sum over attempts. -/
theorem settledLedger_eq (hs : s.Valid) (hw : TotalsWithin cap.subject s) :
    settledLedger s cap.subject cap.currency window =
      (s.attempts.map (settledShare s cap window)).sum := by
  have hn : (s.attempts.map (fun a => (a.id, a.fencingToken))).Nodup := by
    refine List.Nodup.of_map Prod.fst ?_
    rw [map_map]
    exact hs.attemptIds
  have hoe : ∀ l ∈ s.ledger, ∃ a ∈ s.attempts,
      (a.id, a.fencingToken) = (l.attemptId, l.fencingToken) := by
    intro l hl
    obtain ⟨a, ha, hos⟩ := hs.owned l hl
    exact ⟨a, ha, Prod.ext hos.attemptId.symm hos.fencingToken.symm⟩
  rw [settledLedger, sum_fibers (fun l : UsageLedger => (l.attemptId, l.fencingToken))
    (fun a : Attempt => (a.id, a.fencingToken)) hn
    (fun l hl => hoe l (mem_of_mem_filter hl))]
  refine congrArg sum (map_congr_left (fun a ha => ?_))
  rw [← settledCharge_eq hs hw ha, settledCharge, SpendStore.revisionsOf, filter_filter,
    filter_filter]
  simp [Bool.and_comm]

end Aggregates

/-- What an attempt counts toward the cap. -/
def charge (s : SpendStore) (cap : MonthlyCap) (window : MonthWindow) (a : Attempt) : Rat :=
  openLiability s cap a + settledShare s cap window a

/-- What the cap has to hold: settled this month and reserved now. -/
def MonthlyCap.used (cap : MonthlyCap) (calendar : Calendar) (s : SpendStore) (now : Instant) :
    Rat :=
  (spendUsage s calendar cap.subject cap.currency now).spentThisMonth +
    (spendUsage s calendar cap.subject cap.currency now).reservedNow

/-! ## How the charge of one attempt moves -/

section
variable {calendar : Calendar} {s s' : SpendStore} {cap : MonthlyCap} {window : MonthWindow}
  {a : Attempt} {now now' : Instant}

theorem used_eq (hs : s.Valid) (hw : TotalsWithin cap.subject s) :
    cap.used calendar s now = (s.attempts.map (charge s cap (calendar.window now))).sum := by
  have hp : charge s cap (calendar.window now) =
      fun a => openLiability s cap a + settledShare s cap (calendar.window now) a := rfl
  rw [hp, sum_map_add, ← reservedAttempts_eq hs, ← settledLedger_eq hs hw, add_comm]
  rfl

theorem charge_uncounted (h : ¬ (cap.subject.attempt a = true ∧ a.capped cap.currency = true)) :
    charge s cap window a = 0 := by
  have hf : (cap.subject.attempt a && a.capped cap.currency) = false := by
    rw [← Bool.not_eq_true, Bool.and_eq_true]
    exact h
  simp [charge, openLiability, settledShare, hf]

theorem charge_open (hs : cap.subject.attempt a = true)
    (hc : a.capped cap.currency = true) (hrw : s.revisionsOf a.id a.fencingToken = []) :
    charge s cap window a = a.liabilitySpend.getD 0 := by
  have hf : firstInWindow s cap.subject window a.id a.fencingToken = false := by
    simp [firstInWindow, hrw]
  simp [charge, openLiability, settledShare, hs, hc, hrw, hf]

theorem charge_settled (hs : cap.subject.attempt a = true)
    (hc : a.capped cap.currency = true) (hrw : s.revisionsOf a.id a.fencingToken ≠ []) :
    charge s cap window a =
      if firstInWindow s cap.subject window a.id a.fencingToken then
        settledTotal s a.id a.fencingToken
      else 0 := by
  simp [charge, openLiability, settledShare, hs, hc, hrw]

/-- A charge depends on the attempt's own revisions only. -/
theorem charge_congr (h : s'.revisionsOf a.id a.fencingToken = s.revisionsOf a.id a.fencingToken) :
    charge s' cap window a = charge s cap window a := by
  unfold charge openLiability settledShare firstInWindow settledTotal
  rw [h]

/-- **A later month only forgets**: what counts then is of the same month now. -/
theorem window_eq_of_first (hs : s.Valid) (ha : a ∈ s.attempts)
    (hb : cap.subject.attempt a = true) (ht : ∀ l ∈ s.ledger, l.createdAt ≤ now)
    (hle : now ≤ now')
    (hf : firstInWindow s cap.subject (calendar.window now') a.id a.fencingToken = true) :
    calendar.window now' = calendar.window now := by
  obtain ⟨⟨l, hl, -⟩, haf⟩ := (firstInWindow_iff hs ha hb).mp hf
  rcases lt_or_ge now (calendar.window now').start with hbe | hin
  · have hc := ht l (mem_revisionsOf.mp hl).1
    exact absurd (lt_of_le_of_lt hc hbe) (not_lt.mpr (haf l hl))
  · exact (calendar.same now' now hin (lt_of_le_of_lt hle (calendar.lt_stop now'))).symm

/-- A charge does not grow as months pass. -/
theorem charge_later (hs : s.Valid) (ha : a ∈ s.attempts)
    (ht : ∀ l ∈ s.ledger, l.createdAt ≤ now) (hle : now ≤ now') :
    charge s cap (calendar.window now') a ≤ charge s cap (calendar.window now) a := by
  refine add_le_add_right ?_ _
  unfold settledShare
  split
  next hcs =>
    simp only [Bool.and_eq_true] at hcs
    obtain ⟨⟨hb, hc⟩, hf⟩ := hcs
    have hw := window_eq_of_first hs ha hb ht hle hf
    rw [hw] at hf
    simp [hb, hc, hf]
  · split
    · exact settledTotal_nonneg hs _ _
    · exact le_refl 0

end

/-! ## Steps under a cap -/

/-- The subject a configured cap limits.  A share id is never empty. -/
def SpendCap.limits (c : SpendCap) : SpendSubject → Bool
  | .account id => decide (c.scope = .providerAccount) && decide (c.providerAccountId = some id)
  | .share id => decide (c.scope = .share) && decide (c.shareId = some id) && decide (id ≠ "")

/-- The configured cap is this one. -/
def SpendCap.Sets (c : SpendCap) (cap : MonthlyCap) : Prop :=
  c.monthlyLimit = cap.limit ∧ c.currency = cap.currency ∧ c.limits cap.subject = true

/-- The cap is there whenever an attempt is admitted. -/
def SpendStep.KeepsCap (cap : MonthlyCap) : SpendStep → Prop
  | .admission _ graph _ _ => ∃ c ∈ graph.caps, c.Sets cap
  | .reconcile _ _ _ => True
  | .repair _ _ _ _ => True

instance (c : SpendCap) (cap : MonthlyCap) : Decidable (c.Sets cap) :=
  inferInstanceAs (Decidable (_ ∧ _ ∧ _))

instance (cap : MonthlyCap) : (step : SpendStep) → Decidable (step.KeepsCap cap)
  | .admission _ graph _ _ => inferInstanceAs (Decidable (∃ c ∈ graph.caps, c.Sets cap))
  | .reconcile _ _ _ => .isTrue trivial
  | .repair _ _ _ _ => .isTrue trivial

section Admission
variable {calendar : Calendar} {graph : SpendGraph} {now : Instant} {s : SpendStore}
  {attempt : ProviderBudgetAttempt} {liability : CheckedLiability} {caps : List SpendCap}
  {cap : MonthlyCap} {c : SpendCap}

theorem mem_readCaps (h : readCaps graph attempt = .ok caps) :
    c ∈ caps ↔ c ∈ graph.caps ∧ c.binds attempt = true := by
  simp only [readCaps] at h
  split at h
  · cases h
  · cases h
    rw [Comparator.mem_sort, mem_filter]

/-- A cap on the subject of an attempt binds it. -/
theorem SpendCap.Sets.binds (h : c.Sets cap)
    (hs : cap.subject.attempt (newAttempt attempt liability) = true) :
    c.binds attempt = true ∧ c.subject attempt = cap.subject := by
  obtain ⟨-, -, hl⟩ := h
  cases hp : cap.subject with
  | account id =>
    rw [hp] at hl hs
    simp only [SpendCap.limits, Bool.and_eq_true, decide_eq_true_eq] at hl
    obtain ⟨hc, hid⟩ := hl
    have han : attempt.providerAccountId = id :=
      Option.some.inj (of_decide_eq_true hs)
    simp [SpendCap.binds, SpendCap.subject, hc, hid, han]
  | share id =>
    rw [hp] at hl hs
    simp only [SpendCap.limits, Bool.and_eq_true, decide_eq_true_eq] at hl
    obtain ⟨⟨hc, hid⟩, hr⟩ := hl
    have hsh : attempt.shareId = some id := of_decide_eq_true hs
    simp [SpendCap.binds, SpendCap.subject, hc, hid, hsh, present, hr]

/-- An admission under a cap is priced in its currency and fits. -/
theorem fits_of_capsDenial
    (h : capsDenial calendar graph now s attempt liability caps = none) (hc : c ∈ caps) :
    ∃ spend, liability.spend = some spend ∧ liability.currency = some c.currency ∧
      (spendUsage s calendar (c.subject attempt) c.currency now).spentThisMonth +
        (spendUsage s calendar (c.subject attempt) c.currency now).reservedNow + spend ≤
          c.monthlyLimit := by
  cases caps with
  | nil => cases hc
  | cons first rest =>
    simp only [capsDenial] at h
    split at h
    next spend currency version hs hr hv =>
      split at h
      · cases h
      next hm =>
      split at h
      · have hsm : c.currency = currency := by
          have hne := find?_eq_none.mp hm c hc
          simpa using hne
        have hft := find?_eq_none.mp (Option.map_eq_none_iff.mp h) c hc
        rw [decide_eq_true_eq, not_lt] at hft
        exact ⟨spend, hs, hsm ▸ hr, hsm.symm ▸ hft⟩
      · cases h
    · cases h

/-- **An admission adds at most what it checked.** -/
theorem used_insertAttempt (hs : s.Valid) (hw : TotalsWithin cap.subject s)
    (hfr : s.attempt? attempt.attemptId = none) (hca : readCaps graph attempt = .ok caps)
    (ha : capsDenial calendar graph now s attempt liability caps = none)
    (hss : ∃ c ∈ graph.caps, c.Sets cap) (hus : cap.used calendar s now ≤ cap.limit)
    {rows : List SpendReservation}
    (hs' : (s.insertAttempt (newAttempt attempt liability) rows).Valid)
    (hw' : TotalsWithin cap.subject (s.insertAttempt (newAttempt attempt liability) rows)) :
    cap.used calendar (s.insertAttempt (newAttempt attempt liability) rows) now ≤ cap.limit ∧
      (cap.subject.attempt (newAttempt attempt liability) = true →
        (newAttempt attempt liability).capped cap.currency = true) := by
  have hm : cap.used calendar (s.insertAttempt (newAttempt attempt liability) rows) now =
      cap.used calendar s now +
        charge s cap (calendar.window now) (newAttempt attempt liability) := by
    rw [used_eq hs' hw', used_eq hs hw]
    change ((s.attempts ++ [newAttempt attempt liability]).map _).sum = _
    rw [map_append, sum_append, map_singleton, sum_singleton]
    rfl
  rw [hm]
  by_cases hb : cap.subject.attempt (newAttempt attempt liability) = true
  · obtain ⟨c, hc, ht⟩ := hss
    obtain ⟨hn, hcs⟩ := ht.binds hb
    obtain ⟨spend, hp, hr, hft⟩ :=
      fits_of_capsDenial ha ((mem_readCaps hca).mpr ⟨hc, hn⟩)
    rw [hcs, ht.1, ht.2.1] at hft
    have hcp : (newAttempt attempt liability).capped cap.currency = true := by
      simp [capped, newAttempt, hp, hr, ht.2.1]
    refine ⟨?_, fun _ => hcp⟩
    rw [charge_open hb hcp (revisionsOf_fresh hs hfr _)]
    change cap.used calendar s now + liability.spend.getD 0 ≤ cap.limit
    rw [hp]
    exact hft
  · rw [charge_uncounted (fun h => hb h.1), add_zero]
    exact ⟨hus, fun h => absurd h hb⟩

end Admission

section Settlement
variable {calendar : Calendar} {host : Host} {term : ProviderBudgetTerminal} {s : SpendStore}
  {anc : Attempt} {chk : CheckedTerminal} {cost : RevisionCost} {cap : MonthlyCap}
  {now made : Instant} {a : Attempt}

/-- An attempt that counts in the month after one more revision counted in it before. -/
theorem firstInWindow_before {s' : SpendStore} {a' : Attempt} (hs : s.Valid) (hs' : s'.Valid)
    (ha : a ∈ s.attempts) (ha' : a' ∈ s'.attempts) (hb : cap.subject.attempt a = true)
    (hb' : cap.subject.attempt a' = true) (hst : ∀ l ∈ s.ledger, l.createdAt ≤ now)
    (hrw : s.revisionsOf a.id a.fencingToken ≠ [])
    (hgw : ∀ l ∈ s.revisionsOf a.id a.fencingToken, l ∈ s'.revisionsOf a'.id a'.fencingToken)
    (hf : firstInWindow s' cap.subject (calendar.window now) a'.id a'.fencingToken = true) :
    firstInWindow s cap.subject (calendar.window now) a.id a.fencingToken = true := by
  obtain ⟨-, ht⟩ := (firstInWindow_iff hs' ha' hb').mp hf
  obtain ⟨l, hl⟩ := exists_mem_of_ne_nil _ hrw
  have hc := hst l (mem_revisionsOf.mp hl).1
  refine (firstInWindow_iff hs ha hb).mpr ⟨⟨l, hl, ?_⟩, fun l hl => ht l (hgw l hl)⟩
  rw [MonthWindow.contains, Bool.and_eq_true]
  exact ⟨decide_eq_true (ht l (hgw l hl)),
    decide_eq_true (lt_of_le_of_lt hc (calendar.lt_stop now))⟩

/-- **A revision lowers the charge of its attempt, and touches no other.** -/
theorem charge_afterRevision (hs : s.Valid) (h : Recorded host term s anc chk cost)
    (hst : ∀ l ∈ s.ledger, l.createdAt ≤ now)
    (hw' : TotalsWithin cap.subject (afterRevision term anc chk cost now made s))
    (hr : NeverRaised cap.subject (calendar.window now) s
      (afterRevision term anc chk cost now made s)) (ha : a ∈ s.attempts) :
    charge (afterRevision term anc chk cost now made s) cap (calendar.window now)
        (a.finalized term.attemptId term.fencingToken term.reason now) ≤
      charge s cap (calendar.window now) a := by
  have hs' := afterRevision_valid hs h now made
  have ha' : a.finalized term.attemptId term.fencingToken term.reason now ∈
      (afterRevision term anc chk cost now made s).attempts :=
    mem_map_of_mem ha
  have hrv : (afterRevision term anc chk cost now made s).revisionsOf a.id
      a.fencingToken = _ := afterRevision_revisionsOf now made a.id a.fencingToken
  have hsm : cap.subject.attempt (a.finalized term.attemptId term.fencingToken
      term.reason now) = cap.subject.attempt a := by
    cases cap.subject <;> simp [attempt]
  generalize afterRevision term anc chk cost now made s = s' at *
  have hh : charge s' cap (calendar.window now) (a.finalized term.attemptId
      term.fencingToken term.reason now) = charge s' cap (calendar.window now) a := by
    simp [charge, openLiability, settledShare, capped, hsm]
  rw [hh]
  split at hrv
  next hk =>
    by_cases hcs : cap.subject.attempt a = true ∧ a.capped cap.currency = true
    · obtain ⟨hb, hc⟩ := hcs
      have hv : s'.revisionsOf a.id a.fencingToken ≠ [] := by simp [hrv]
      have ht := hw' _ ha' (hsm.trans hb)
      simp only [finalized_terms] at ht
      rw [charge_settled hb hc hv]
      by_cases hrw : s.revisionsOf a.id a.fencingToken = []
      · -- the first settlement takes the place of the liability
        rw [charge_open hb hc hrw]
        split
        · exact ht
        · exact (settledTotal_nonneg hs' _ _).trans ht
      · rw [charge_settled hb hc hrw]
        split
        next hf =>
          have hbe : firstInWindow s cap.subject (calendar.window now) a.id a.fencingToken =
              true := by
            refine firstInWindow_before hs hs' ha ha' hb (hsm.trans hb) hst
              hrw ?_ ?_
            · intro l hl
              simp only [finalized_terms, hrv]
              exact mem_append_left _ hl
            · simpa only [finalized_terms] using hf
          rw [if_pos hbe]
          exact hr a ha hb hbe
        · split
          · exact settledTotal_nonneg hs _ _
          · exact le_refl 0
    · rw [charge_uncounted hcs, charge_uncounted hcs]
  · rw [append_nil] at hrv
    exact (charge_congr hrv).le

theorem used_afterRevision (hs : s.Valid) (h : Recorded host term s anc chk cost)
    (ht : ∀ l ∈ s.ledger, l.createdAt ≤ now) (hw : TotalsWithin cap.subject s)
    (hw' : TotalsWithin cap.subject (afterRevision term anc chk cost now made s))
    (hr : NeverRaised cap.subject (calendar.window now) s
      (afterRevision term anc chk cost now made s)) :
    cap.used calendar (afterRevision term anc chk cost now made s) now ≤
      cap.used calendar s now := by
  rw [used_eq (afterRevision_valid hs h now made) hw', used_eq hs hw]
  change ((s.attempts.map _).map _).sum ≤ _
  rw [map_map]
  exact sum_le_sum (fun a ha => charge_afterRevision hs h ht hw' hr ha)

end Settlement

/-! ## Histories -/

/-- A history on one clock that never lacks the cap, every step of it allowed in its month. -/
def Along (calendar : Calendar) (host : Host) (cap : MonthlyCap)
    (allowed : MonthWindow → SpendStore → SpendStore → Prop) :
    Instant → SpendStore → List SpendStep → Prop
  | _, _, [] => True
  | clock, s, step :: history =>
    (clock ≤ step.now ∧ step.createdAt ≤ step.now) ∧ step.KeepsCap cap ∧
      allowed (calendar.window step.now) s (step.commit calendar host s) ∧
        Along calendar host cap allowed step.now (step.commit calendar host s) history

instance (calendar : Calendar) (host : Host) (cap : MonthlyCap)
    (allowed : MonthWindow → SpendStore → SpendStore → Prop)
    [∀ window s s', Decidable (allowed window s s')] :
    (clock : Instant) → (s : SpendStore) → (history : List SpendStep) →
      Decidable (Along calendar host cap allowed clock s history)
  | _, _, [] => .isTrue trivial
  | _, s, step :: history =>
    have : Decidable (Along calendar host cap allowed step.now (step.commit calendar host s)
      history) := instDecidableAlong calendar host cap allowed step.now _ history
    inferInstanceAs (Decidable (_ ∧ _ ∧ _ ∧ _))

/-- The clock after a history. -/
def clockAfter (clock : Instant) (history : List SpendStep) : Instant :=
  history.foldl (fun _ step => step.now) clock

/-- Totals stay within the liabilities, and none that counts this month is raised. -/
def SettlesWithin (subject : SpendSubject) (window : MonthWindow) (s s' : SpendStore) : Prop :=
  TotalsWithin subject s' ∧ NeverRaised subject window s s'

instance (subject : SpendSubject) (window : MonthWindow) (s s' : SpendStore) :
    Decidable (SettlesWithin subject window s s') :=
  inferInstanceAs (Decidable (_ ∧ _))

/-- What holds at every clock of a history from `start`. -/
structure CapInvariant (calendar : Calendar) (cap : MonthlyCap) (start : SpendStore)
    (clock : Instant) (s : SpendStore) : Prop where
  valid : s.Valid
  stamped : ∀ l ∈ s.ledger, l.createdAt ≤ clock
  within : TotalsWithin cap.subject s
  used : cap.used calendar s clock ≤ cap.limit
  priced : ∀ a ∈ s.attempts, a.id ∉ start.attempts.map Attempt.id →
    cap.subject.attempt a = true → a.capped cap.currency = true

section Runs
variable {calendar : Calendar} {host : Host} {cap : MonthlyCap} {start s : SpendStore}
  {clock : Instant}

/-- Time goes on. -/
theorem CapInvariant.later (h : CapInvariant calendar cap start clock s) (hle : clock ≤ now) :
    CapInvariant calendar cap start now s :=
  { h with
    stamped := fun l hl => (h.stamped l hl).trans hle
    used := by
      have hus := h.used
      rw [used_eq h.valid h.within] at hus ⊢
      exact (sum_le_sum fun a ha => charge_later h.valid ha h.stamped hle).trans hus }

/-- The step lemma of the cap. -/
theorem CapInvariant.commit (h : CapInvariant calendar cap start clock s) {step : SpendStep}
    (hcl : clock ≤ step.now) (hcr : step.createdAt ≤ step.now)
    (hc : step.KeepsCap cap)
    (hal : SettlesWithin cap.subject (calendar.window step.now) s (step.commit calendar host s)) :
    CapInvariant calendar cap start step.now (step.commit calendar host s) := by
  have hr : SpendWrite calendar host step s _ := commit_writes step s
  have hvd := hr.valid h.valid
  obtain ⟨hw, hra⟩ := hal
  have h := h.later hcl
  generalize step.commit calendar host s = s' at *
  cases hr with
  | nothing => exact h
  | attempt hli hca hfr hm hi =>
    obtain ⟨hus, hp⟩ :=
      used_insertAttempt h.valid h.within hfr hca hm hc h.used hvd hw
    refine ⟨hvd, h.stamped, hw, hus, fun a ha hn => ?_⟩
    rcases mem_append.mp ha with ha | ha
    · exact h.priced a ha hn
    · exact mem_singleton.mp ha ▸ hp
  | ending _ hv =>
    rw [finalize_eq_self h.valid hv]
    exact h
  | revision _ hrc =>
    refine ⟨hvd, ?_, hw, ?_, ?_⟩
    · intro l hl
      rcases mem_append.mp hl with hl | hl
      · exact h.stamped l hl
      · exact mem_singleton.mp hl ▸ hcr
    · exact (used_afterRevision h.valid hrc h.stamped h.within hw hra).trans h.used
    · intro b hb hn hs
      obtain ⟨a, ha, rfl⟩ := mem_map.mp hb
      have hcp := h.priced a ha (by simpa using hn)
      have ht : cap.subject.attempt a = true := by
        cases hc : cap.subject <;> simpa [attempt, hc] using hs
      simpa [capped] using hcp ht

theorem CapInvariant.execute (h : CapInvariant calendar cap start clock s)
    {history : List SpendStep}
    (hn : Along calendar host cap (SettlesWithin cap.subject) clock s history) :
    CapInvariant calendar cap start (clockAfter clock history)
      (executeSpend calendar host s history) := by
  induction history generalizing clock s with
  | nil => exact h
  | cons step history ih =>
    obtain ⟨⟨hc, hcr⟩, hp, ha, hr⟩ := hn
    exact ih (h.commit hc hcr hp ha) hr

end Runs

/-- The cap holds at `now`, and every capped attempt is counted exactly once. -/
structure CapHolds (calendar : Calendar) (cap : MonthlyCap) (now : Instant) (s : SpendStore) :
    Prop where
  within : (spendUsage s calendar cap.subject cap.currency now).spentThisMonth +
    (spendUsage s calendar cap.subject cap.currency now).reservedNow ≤ cap.limit
  /-- Reserved is the liability of the capped attempts without a revision. -/
  reserved : (spendUsage s calendar cap.subject cap.currency now).reservedNow =
    (s.attempts.map (openLiability s cap)).sum
  /-- Spent is the settled total of the capped attempts of the month. -/
  spent : (spendUsage s calendar cap.subject cap.currency now).spentThisMonth =
    (s.attempts.map (settledShare s cap (calendar.window now))).sum
  /-- A capped attempt is in flight exactly until it has a revision, and every revision
  settles an amount in the cap's currency. -/
  once : ∀ a ∈ s.attempts, a.capped cap.currency = true →
    (inFlight s a = true ↔ s.revisionsOf a.id a.fencingToken = []) ∧
      ∀ l ∈ s.revisionsOf a.id a.fencingToken,
        l.settledCost.isSome ∧ l.currency = some cap.currency

theorem CapInvariant.holds {calendar : Calendar} {cap : MonthlyCap} {start s : SpendStore}
    (h : CapInvariant calendar cap start now s) : CapHolds calendar cap now s where
  within := h.used
  reserved := reservedAttempts_eq h.valid
  spent := settledLedger_eq h.valid h.within
  once a ha hc := by
    simp only [Attempt.capped, Bool.and_eq_true, decide_eq_true_eq] at hc
    obtain ⟨⟨hcl, hp⟩, hr⟩ := hc
    have ht := h.valid.active a ha hcl
    refine ⟨?_, fun l hl => hr ▸ h.valid.priced a ha hp l hl⟩
    simp only [inFlight, hcl, ht, Bool.and_eq_true, decide_eq_true_eq, List.isEmpty_iff]
    exact ⟨And.right, fun h => ⟨⟨trivial, h⟩, h⟩⟩

/-- **The spend cap holds along every history** that settles each attempt within its
liability and raises none in the month of its first revision, at any time after it; every
attempt it admits for the subject is capped, and every capped attempt is counted exactly once. -/
theorem spendCap_holds (calendar : Calendar) (host : Host) (cap : MonthlyCap) (s : SpendStore)
    (clock : Instant) (hs : s.Valid) (hstamped : ∀ l ∈ s.ledger, l.createdAt ≤ clock)
    (hwithin : TotalsWithin cap.subject s)
    (hstart : (spendUsage s calendar cap.subject cap.currency clock).spentThisMonth +
      (spendUsage s calendar cap.subject cap.currency clock).reservedNow ≤ cap.limit)
    (history : List SpendStep)
    (hrun : Along calendar host cap (SettlesWithin cap.subject) clock s history) (now : Instant)
    (hnow : clockAfter clock history ≤ now) :
    CapHolds calendar cap now (executeSpend calendar host s history) ∧
      ∀ a ∈ (executeSpend calendar host s history).attempts,
        a.id ∉ s.attempts.map Attempt.id → cap.subject.attempt a = true →
          a.capped cap.currency = true := by
  have hi : CapInvariant calendar cap s clock s := by
    refine ⟨hs, hstamped, hwithin, hstart, fun a ha hn => ?_⟩
    exact absurd (mem_map_of_mem ha) hn
  have hf := (hi.execute hrun).later hnow
  exact ⟨hf.holds, hf.priced⟩

/-! ## A correction that raises a settled attempt

One account with a cap of ten, two attempts, and months of a hundred ticks.
-/

namespace CorrectionSample

/-- A cap of ten. -/
def cap : MonthlyCap := ⟨.account "account", "USD", 10⟩

/-- A complete snapshot of this cost in the attempt's own price. -/
def settled (now : Instant) (attemptId : String) (sequence : Int) (cost : Rat) : SpendStep :=
  .reconcile now now (delivery attemptId sequence (some (usage cost)))

/-- The first attempt settles at one, the second is admitted for nine, and the first is
corrected to ten, its liability. -/
def history : List SpendStep :=
  [admitted 1 "first" 10, settled 2 "first" 0 1, admitted 3 "second" 9, settled 4 "first" 1 10]

/-- Every total is within its liability, and the cap is exceeded. -/
theorem correction_exceeds_cap :
    SpendStore.empty.Valid ∧ cap.used calendar .empty 0 ≤ cap.limit ∧
      Along calendar host cap (fun _ _ s' => TotalsWithin cap.subject s') 0 .empty history ∧
        cap.limit < cap.used calendar (executeSpend calendar host .empty history) 4 :=
  ⟨valid_empty, by decide +kernel, by decide +kernel, by decide +kernel⟩

/-- The same correction in the next month, where it no longer counts. -/
def correctedLater : List SpendStep := history.take 3 ++ [settled 104 "first" 1 10]

theorem spendCap_holds_corrected_later :
    CapHolds calendar cap 104 (executeSpend calendar host .empty correctedLater) :=
  (spendCap_holds calendar host cap .empty 0 valid_empty (by decide) (by decide) (by decide +kernel)
    correctedLater (by decide +kernel) 104 (by decide)).1

end CorrectionSample

end ModelProxy.Spend
