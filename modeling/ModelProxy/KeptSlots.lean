import ModelProxy.PlannerRefinement
import Mathlib.Algebra.Order.BigOperators.Group.List

/-! # Kept slots are a guarantee

If the free slots cover the unmet kept slots when a pass starts, then when it
ends every owner has met its kept slots or has no waiter left that could be
granted.

The invariant (`Covered`): the free slots cover the unmet kept slots, or no owner
with unmet kept slots has a grantable waiter.  A grant to an owner with unmet
slots lowers both sides.  A grant that does not borrow leaves more free slots
than the others keep.  A grant that borrows is made only when no owner is needy,
and no grant makes an owner needy.
-/
namespace ModelProxy.Capacity
open List ReferenceState BoundedLoop PlanState AdmissionSnapshot
open ReferenceState (grantable remaining reservedRemainingTotal borrowed)

namespace AdmissionSnapshot
variable (snapshot : AdmissionSnapshot)

/-- The slots the owner keeps. -/
def reserved (owner : String) : Int := (snapshot.reservationsByOwner.get owner).getD 0

/-- The owner's active leases. -/
def activeOf (owner : String) : Nat := (snapshot.activeByOwner.get owner).getD 0

/-- The sum of the unmet kept slots. -/
def unmetTotal : Int :=
  (snapshot.reservationsByOwner.keys.map
    (fun owner => max 0 (snapshot.reserved owner - snapshot.activeOf owner))).sum

/-- The grants to waiters of the owner. -/
def grantsTo (grants : List PlannedGrant) (owner : String) : Nat :=
  grants.countP (fun g => snapshot.waiters.any
    (fun w => decide (w.waiterId = g.waiterId) && decide (w.ownerKey = owner)))

/-- One of the waiter's scopes is full. -/
def ScopeFull (waiter : PlannerWaiter) : Prop :=
  ∃ l ∈ waiter.scopeLimits, l.limit ≤ ((snapshot.scopeActive.get l.key).getD 0 : Int)

end AdmissionSnapshot

section Invariant
variable {cmp : Comparator String} {snapshot : AdmissionSnapshot} {now : Instant}
  {opts : PlannerOptions}

/-- No owner with unmet kept slots has a grantable waiter. -/
def NoneNeedy (snapshot : AdmissionSnapshot) (now : Instant) (s : ReferenceState) : Prop :=
  ∀ owner, ∀ e ∈ s.entries, ¬ Needs snapshot now s owner e

/-- The free slots cover the unmet kept slots, or nobody waits for one. -/
def Covered (snapshot : AdmissionSnapshot) (now : Instant) (limit : Int) (s : ReferenceState) :
    Prop :=
  reservedRemainingTotal snapshot s.toPlanState ≤ limit - s.active ∨ NoneNeedy snapshot now s

variable {s : ReferenceState} {limit : Int} {w : Entry}

/-- A grant makes nobody needy. -/
theorem NoneNeedy.applyGrant (h : NoneNeedy snapshot now s) (w : PlannerWaiter) (flag : Bool)
    (sched : SchedulerState) : NoneNeedy snapshot now (s.applyGrant w flag sched) := by
  rintro o e he ⟨hg, hlt, hrm, ho⟩
  refine h o e (mem_of_mem_filter he) ⟨hg, ?_, scopeHasRoom_of_grant hrm, ho⟩
  have ha := grant_ownerActive s.toPlanState w flag sched o
  change (((s.toPlanState.grant w flag sched).ownerActive o : Nat) : Int) < _ at hlt
  omega

/-- An eligible borrower shows that nobody is needy. -/
theorem noneNeedy_of_borrowed (hw : s.eligible snapshot now w = true)
    (hb : borrowed snapshot s.toPlanState w = true)
    (hm : remaining snapshot s.toPlanState w.waiter.ownerKey = 0) : NoneNeedy snapshot now s := by
  intro o e he hn
  have hme := (mem_needyOwners s o).mpr ⟨e, he, hn⟩
  have hwa : s.ownerWaitingBesides snapshot now w.waiter.ownerKey = false := by
    simp only [eligible, hb, Bool.and_eq_true, Bool.true_and, Bool.not_eq_true'] at hw
    exact hw.1.2
  rw [ownerWaitingBesides, any_eq_false] at hwa
  have hsl : o = w.waiter.ownerKey := by simpa using hwa o hme
  subst hsl
  obtain ⟨-, hlt, -, -⟩ := hn
  simp only [remaining] at hm
  omega

/-- A grant that does not borrow leaves free slots for everything the others keep. -/
theorem total_lt_of_not_borrowed (hl : snapshot.capacityLimit = some limit)
    (hfr : limitReached snapshot.capacityLimit s.active = false)
    (hb : borrowed snapshot s.toPlanState w = false)
    (hm : remaining snapshot s.toPlanState w.waiter.ownerKey = 0) :
    reservedRemainingTotal snapshot s.toPlanState < limit - s.active := by
  simp only [limitReached, hl, decide_eq_false_iff_not] at hfr
  simp only [borrowed, borrows, hl, hm, Option.getD_some, decide_true, Bool.true_and,
    Bool.and_eq_false_iff, decide_eq_false_iff_not] at hb
  omega

/-- **A grant keeps the unmet kept slots covered.** -/
theorem Covered.applyGrant (hl : snapshot.capacityLimit = some limit)
    (h : Covered snapshot now limit s)
    (hfr : limitReached snapshot.capacityLimit s.active = false)
    (hw : w ∈ s.eligibleEntries snapshot now) (flag : Bool) (sched : SchedulerState) :
    Covered snapshot now limit (s.applyGrant w.waiter flag sched) := by
  have he := (mem_filter.mp hw).2
  rcases h with hc | hno
  case inr => exact .inr (hno.applyGrant _ _ _)
  have ht := @total_grant snapshot s.toPlanState w.waiter flag sched
  have ha : (s.applyGrant w.waiter flag sched).active = s.active + 1 := rfl
  by_cases hp : 0 < remaining snapshot s.toPlanState w.waiter.ownerKey
  · -- one kept slot less is unmet, and one slot less is free
    left
    change reservedRemainingTotal snapshot (s.toPlanState.grant _ _ _) ≤ _
    omega
  · have hm : remaining snapshot s.toPlanState w.waiter.ownerKey = 0 :=
      le_antisymm (not_lt.mp hp) (le_max_left _ _)
    cases hb : borrowed snapshot s.toPlanState w with
    | true => exact .inr ((noneNeedy_of_borrowed he hb hm).applyGrant _ _ _)
    | false =>
      have hlt := total_lt_of_not_borrowed hl hfr hb hm
      left
      change reservedRemainingTotal snapshot (s.toPlanState.grant _ _ _) ≤ _
      omega

/-- The state's counts and queue, in terms of the snapshot and the grants so far. -/
structure Accounts (localeCompare : Comparator String) (snapshot : AdmissionSnapshot)
    (now : Instant) (options : PlannerOptions) (s : ReferenceState) : Prop where
  tracks : Tracks localeCompare snapshot now options s
  queued : ∀ e ∈ s.entries, e ∈ referenceEntries localeCompare snapshot now options
  counted : ∀ o, s.ownerActive o = snapshot.activeOf o + snapshot.grantsTo s.grants o
  left : ∀ e ∈ referenceEntries localeCompare snapshot now options,
    e ∈ s.entries ∨ ∃ g ∈ s.grants, g.admissionRequestId = e.waiter.admissionRequestId

theorem accounts_initial :
    Accounts cmp snapshot now opts
      (referenceInitial cmp snapshot now opts) where
  tracks := tracks_initial _ _ _ _
  queued _ he := he
  counted _ := rfl
  left _ he := .inl he

theorem grantsTo_append (gs : List PlannedGrant) (g : PlannedGrant) (o : String) :
    snapshot.grantsTo (gs ++ [g]) o = snapshot.grantsTo gs o +
      if ∃ w ∈ snapshot.waiters, w.waiterId = g.waiterId ∧ w.ownerKey = o then 1 else 0 := by
  rw [grantsTo, countP_append, countP_singleton]
  congr 1
  simp

/-- A grant keeps the accounts. -/
theorem Accounts.applyGrant (hd : snapshot.DistinctWaiters)
    (h : Accounts cmp snapshot now opts s) (hw : w ∈ s.entries) (flag : Bool)
    (sched : SchedulerState) :
    Accounts cmp snapshot now opts (s.applyGrant w.waiter flag sched) where
  tracks := h.tracks.applyGrant hd hw flag sched
  queued e he := h.queued e (mem_of_mem_filter he)
  counted o := by
    have hm := (mem_referenceEntries.mp (h.queued w hw)).2.1
    have hn : (∃ other ∈ snapshot.waiters, other.waiterId = w.waiter.waiterId ∧
        other.ownerKey = o) ↔ w.waiter.ownerKey = o := by
      constructor
      · rintro ⟨other, hh, hid, rfl⟩
        rw [inj_on_of_nodup_map hd hh hm hid]
      · exact fun ho => ⟨w.waiter, hm, rfl, ho⟩
    change (s.toPlanState.grant w.waiter flag sched).ownerActive o =
      snapshot.activeOf o + snapshot.grantsTo (s.grants ++ [_]) o
    rw [grant_ownerActive, h.counted o, grantsTo_append]
    simp only [hn]
    omega
  left e he := by
    by_cases hr : e.waiter.admissionRequestId = w.waiter.admissionRequestId
    · exact .inr ⟨_, mem_append_right _ (mem_singleton_self _), hr.symm⟩
    · rcases h.left e he with hq | ⟨g, hg, hgq⟩
      · exact .inl (mem_filter.mpr ⟨hq, by simpa using hr⟩)
      · exact .inr ⟨g, mem_append_left _ hg, hgq⟩

/-- Every owner has met its kept slots, or has no waiter left that could be granted. -/
def Guaranteed (snapshot : AdmissionSnapshot) (now : Instant) (s : ReferenceState) : Prop :=
  ∀ owner, snapshot.reserved owner ≤ s.ownerActive owner ∨
    ∀ e ∈ s.entries, e.waiter.ownerKey = owner → grantable now e = true →
      s.scopeHasRoom e.waiter = false

/-- Nothing unmet is covered by no free slot. -/
theorem reserved_le_of_total {s : PlanState} (h : reservedRemainingTotal snapshot s ≤ 0)
    (owner : String) : snapshot.reserved owner ≤ s.ownerActive owner := by
  by_contra hlt
  have hp : 0 < remaining snapshot s owner := by
    simp only [remaining, reserved] at hlt ⊢
    omega
  have hle : remaining snapshot s owner ≤ reservedRemainingTotal snapshot s :=
    single_le_sum (fun x hx => by
      obtain ⟨o, -, rfl⟩ := mem_map.mp hx
      exact le_max_left _ _) _
      (mem_map.mpr ⟨owner, mem_keys_of_remaining_pos hp, rfl⟩)
  omega

theorem Guaranteed.of_noneNeedy (h : NoneNeedy snapshot now s) : Guaranteed snapshot now s := by
  intro o
  by_cases hm : snapshot.reserved o ≤ s.ownerActive o
  · exact .inl hm
  · right
    intro e he ho hg
    by_contra hrm
    exact h o e he ⟨hg, not_le.mp hm, by simpa using hrm, ho⟩

/-- With nothing eligible nobody is needy: the waiter of an owner with unmet kept slots does
not borrow. -/
theorem noneNeedy_of_no_eligible (h : s.eligibleEntries snapshot now = []) :
    NoneNeedy snapshot now s := by
  rintro o e he ⟨hg, hlt, hrm, rfl⟩
  have hn : borrowed snapshot s.toPlanState e = false := by
    have hp : ¬ remaining snapshot s.toPlanState e.waiter.ownerKey = 0 := by
      simp only [remaining]
      omega
    simp only [borrowed, borrows]
    split
    · rfl
    · simp [hp]
  have hin : e ∈ s.eligibleEntries snapshot now :=
    mem_filter.mpr ⟨he, by simp [eligible, hg, hrm, hn]⟩
  rw [h] at hin
  cases hin

/-- **Whatever ends a fill-mode pass leaves the guarantee.** -/
theorem guaranteed_of_stop (hl : snapshot.capacityLimit = some limit)
    (hfl : opts.requestId = none) (hm : opts.maxGrants = none) {s' : ReferenceState}
    {why : StoppedBy} (hes : s.Entries) (hc : Covered snapshot now limit s)
    (hsp : referencePlanStep cmp snapshot now opts s = .ok (.stop why s')) :
    s' = s ∧ Guaranteed snapshot now s := by
  cases referencePlanStep_move hes hsp with
  | maxGrants h => simp [grantsReached, hm] at h
  | requested win sched _ _ hr => simp [hfl] at hr
  | none h => exact ⟨rfl, .of_noneNeedy (noneNeedy_of_no_eligible h)⟩
  | limit h =>
    refine ⟨rfl, ?_⟩
    rcases hc with hv | hno
    · simp only [limitReached, hl, decide_eq_true_eq] at h
      exact fun o => .inl (reserved_le_of_total (by omega) o)
    · exact .of_noneNeedy hno

theorem keptSlots_descends (hl : snapshot.capacityLimit = some limit)
    (hd : snapshot.DistinctWaiters) :
    BoundedLoop.Descends
      (fun s => Accounts cmp snapshot now opts s ∧ Covered snapshot now limit s)
      (fun s => s.entries.length) (referencePlanStep cmp snapshot now opts) := by
  rintro s s' ⟨hac, hc⟩ hsp
  cases referencePlanStep_move hac.tracks.wellFormed hsp with
  | grant win sched hfr hw _ =>
    have hm := mem_of_mem_filter hw
    exact ⟨⟨hac.applyGrant hd hm _ _, hc.applyGrant hl hfr hw _ _⟩, length_applyGrant hm _ _⟩

/-- A whole fill-mode pass, from a covered snapshot. -/
theorem referencePlan_guaranteed (hl : snapshot.capacityLimit = some limit)
    (hd : snapshot.DistinctWaiters) (hfr : snapshot.unmetTotal ≤ limit - snapshot.active)
    (hfl : opts.requestId = none) (hm : opts.maxGrants = none) {why : StoppedBy}
    (hr : run .progress (referencePlanStep cmp snapshot now opts)
      (snapshot.waiters.length + 1) (referenceInitial cmp snapshot now opts) =
        .ok (why, s)) :
    Accounts cmp snapshot now opts s ∧ Guaranteed snapshot now s := by
  have hst : ∀ s why s',
      (Accounts cmp snapshot now opts s ∧ Covered snapshot now limit s) →
      referencePlanStep cmp snapshot now opts s = .ok (.stop why s') →
      Accounts cmp snapshot now opts s' ∧ Guaranteed snapshot now s' := by
    rintro s why s' ⟨hac, hc⟩ hsp
    obtain ⟨rfl, hg⟩ :=
      guaranteed_of_stop hl hfl hm hac.tracks.wellFormed hc hsp
    exact ⟨hac, hg⟩
  exact run_post (keptSlots_descends hl hd) hst _ _ why s
    ⟨accounts_initial, .inl hfr⟩ referenceInitial_length hr

end Invariant

/-- **Kept slots are a guarantee.**  If a finite capacity's free slots cover the unmet kept
slots, a fill-mode plan leaves every owner with its kept slots met, counting the plan's grants, or
with no grantable waiter: each of its waiters that is in its window and due belongs to a granted
request or has a full scope.  The scheduler's order, the classes and who may borrow play no
part. -/
theorem keptSlots_guaranteed (localeCompare : Comparator String) (snapshot : AdmissionSnapshot)
    (limit : Int) (hlimit : snapshot.capacityLimit = some limit)
    (hdistinct : snapshot.DistinctWaiters) (hfree : snapshot.unmetTotal ≤ limit - snapshot.active)
    (now : Instant) (options : PlannerOptions) (hfill : options.requestId = none)
    (hmax : options.maxGrants = none) (plan : GrantPlan)
    (hplan : planGrants localeCompare snapshot now options = .ok plan) (owner : String) :
    snapshot.reserved owner ≤
        (snapshot.activeOf owner + snapshot.grantsTo plan.grants owner : Nat) ∨
      ∀ w ∈ snapshot.waiters, w.ownerKey = owner →
        inWindow w.toWindowWaiter now options.creatingRequestId (lastChance options) = true →
        due w now = true →
        (∃ g ∈ plan.grants, g.admissionRequestId = w.admissionRequestId) ∨
          (snapshot.applyGrants plan.grants).ScopeFull w := by
  rw [planGrants_eq_reference localeCompare hdistinct now options, referencePlanGrants] at hplan
  cases hr : BoundedLoop.run .progress (referencePlanStep localeCompare snapshot now options)
      (snapshot.waiters.length + 1) (referenceInitial localeCompare snapshot now options) with
  | error e => rw [hr] at hplan; cases hplan
  | ok res =>
    rw [hr] at hplan
    cases hplan
    obtain ⟨ha, hg⟩ :=
      referencePlan_guaranteed hlimit hdistinct hfree hfill hmax hr
    rcases hg owner with hm | hn
    · left
      rwa [ha.counted owner] at hm
    right
    intro w hw ho hwi hd
    rcases ha.left (entryOf w) (mem_referenceEntries.mpr ⟨rfl, hw, hwi⟩) with
      hq | hgr
    · right
      have hf := hn (entryOf w) hq ho hd
      rw [PlanState.scopeHasRoom, all_eq_false] at hf
      obtain ⟨l, hl, hro⟩ := hf
      refine ⟨l, hl, ?_⟩
      rw [ha.tracks.scopeActive] at hro
      simpa using hro
    · exact .inl hgr

namespace KeptSlotSample

/-- Two free slots cover the one kept slot, and its owner is granted it. -/
theorem keptSlots_guaranteed_snapshot :
    snapshot.unmetTotal ≤ 2 - snapshot.active ∧
      snapshot.grantsTo plan.grants "member:kept" = 1 ∧
      (snapshot.reserved "member:kept" ≤ (snapshot.activeOf "member:kept" +
          snapshot.grantsTo plan.grants "member:kept" : Nat) ∨
        ∀ w ∈ snapshot.waiters, w.ownerKey = "member:kept" →
          inWindow w.toWindowWaiter 0 none [] = true → due w 0 = true →
          (∃ g ∈ plan.grants, g.admissionRequestId = w.admissionRequestId) ∨
            (snapshot.applyGrants plan.grants).ScopeFull w) :=
  ⟨by decide +kernel, by decide +kernel,
    keptSlots_guaranteed collation snapshot 2 rfl snapshot_distinct (by decide +kernel) 0 {} rfl rfl
      plan planGrants_snapshot "member:kept"⟩

end KeptSlotSample

end ModelProxy.Capacity
