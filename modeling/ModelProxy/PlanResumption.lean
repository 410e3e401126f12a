import ModelProxy.PlannerRefinement

/-! # Offers are prefixes of fills, and plans resume

The store asks for a plan in two modes, and may persist only a first part of one
and plan again.  Neither changes who is served: an offer is the fill-mode plan cut
right after the request's grant, and planning again from the snapshot with the
first grants applied continues the plan where it was cut.

Both are read off the reference planner.  Its rounds in the two modes differ only
in whether they go on after the request's grant.  A round does not look at the
grants made so far, so the state after `k` grants behaves as the first state of a
pass over the snapshot with those grants applied (`Tracks`).
-/
namespace ModelProxy.Capacity
open List ReferenceState BoundedLoop PlanState Entry

variable {why : StoppedBy} {cmp : Comparator String} {now : Instant} {opts : PlannerOptions}

/-- The grants up to the request's own, or all of them. -/
def throughRequest (request : String) : List PlannedGrant → List PlannedGrant
  | [] => []
  | g :: grants =>
    if g.admissionRequestId = request then [g] else g :: throughRequest request grants

/-- What a round of an offer does where a fill-mode round does `move`. -/
def offerMove (request : String) :
    LoopStep StoppedBy ReferenceState → LoopStep StoppedBy ReferenceState
  | .stop reason s => .stop reason s
  | .next s =>
    if s.grants.getLast?.map (·.admissionRequestId) = some request then .stop .requested s
    else .next s

section Rounds
variable {snapshot : AdmissionSnapshot} {s s' : ReferenceState}

/-- A round that grants records one grant, with the scheduler state it leaves. -/
theorem referencePlanStep_grants (hes : s.Entries)
    (h : referencePlanStep cmp snapshot now opts s = .ok (.next s')) :
    ∃ g, s'.grants = s.grants ++ [g] ∧ opts.requestId ≠ some g.admissionRequestId := by
  cases referencePlanStep_move hes h with
  | grant win sched _ _ hr => exact ⟨_, rfl, hr⟩

/-- A round that stops has granted nothing, or the request. -/
theorem referencePlanStep_stop (hes : s.Entries)
    (h : referencePlanStep cmp snapshot now opts s = .ok (.stop why s')) :
    s' = s ∨ ∃ g, s'.grants = s.grants ++ [g] ∧
      opts.requestId = some g.admissionRequestId := by
  cases referencePlanStep_move hes h with
  | maxGrants _ | limit _ | none _ => exact .inl rfl
  | requested win sched _ _ hr => exact .inr ⟨_, rfl, hr⟩

/-- The two modes of one round. -/
theorem referencePlanStep_offer (request : String) (hfl : opts.requestId = none)
    (s : ReferenceState) {move : LoopStep StoppedBy ReferenceState}
    (h : referencePlanStep cmp snapshot now opts s = .ok move) :
    referencePlanStep cmp snapshot now { opts with requestId := some request } s =
      .ok (offerMove request move) := by
  unfold referencePlanStep at h ⊢
  simp only [hfl] at h
  split at h
  · cases h
    rw [if_pos ‹_›]
    rfl
  rw [if_neg ‹_›]
  split at h
  · cases h
    rw [if_pos ‹_›]
    rfl
  rw [if_neg ‹_›]
  split at h
  · cases h
    rw [if_pos ‹_›]
    rfl
  rw [if_neg ‹_›]
  split at h
  · cases h
    rw [if_pos ‹_›]
    rfl
  rw [if_neg ‹_›]
  cases hs : scheduleWeightedDeficitRoundRobin cmp candidate
      (s.eligibleEntries snapshot now) s.scheduler defaultPriorityQuanta with
  | error e => rw [hs] at h; cases h
  | ok dec =>
    simp only [hs, bind, Except.bind] at h ⊢
    cases hw : dec.winner with
    | none =>
      rw [hw] at h
      cases h
      rfl
    | some win =>
      rw [hw] at h
      cases h
      simp only [offerMove, applyGrant, grant, getLast?_append,
        getLast?_singleton, Option.some_or, Option.map_some, Option.some.injEq]
      by_cases hr : win.waiter.admissionRequestId = request
      · rw [if_pos hr, if_pos hr.symm]
      · rw [if_neg hr, if_neg (Ne.symm hr)]

/-! ### Offers -/

/-- The offer-mode run beside the fill-mode run, from any state. -/
theorem run_offer (req : String) (hfl : opts.requestId = none) :
    ∀ (bound : Nat) (s : ReferenceState), s.Entries → ∀ {reason : StoppedBy} {s' : ReferenceState},
      run .progress (referencePlanStep cmp snapshot now opts) bound s =
        .ok (reason, s') →
      ∃ rest, s'.grants = s.grants ++ rest ∧
        ∃ reason' s'', run .progress (referencePlanStep cmp snapshot now
            { opts with requestId := some req }) bound s = .ok (reason', s'') ∧
          s''.grants = s.grants ++ throughRequest req rest ∧
          ((∀ g ∈ rest, g.admissionRequestId ≠ req) → reason' = reason ∧ s'' = s') ∧
          ((∃ g ∈ rest, g.admissionRequestId = req) → reason' = .requested)
  | 0, s, _, reason, s', hn => by
    cases hn
    exact ⟨[], by simp, _, _, rfl, by simp [throughRequest], fun _ => ⟨rfl, rfl⟩, by simp⟩
  | bound + 1, s, hes, reason, s', hn => by
    simp only [run] at hn
    split at hn
    · cases hn
    next reason₁ s₁ hsp =>
      obtain ⟨rfl, rfl⟩ := Prod.mk.inj (Except.ok.inj hn)
      have hsm : s₁ = s := by
        rcases referencePlanStep_stop hes hsp with hs | ⟨g, -, hg⟩
        · exact hs
        · rw [hfl] at hg
          cases hg
      subst hsm
      have ho := referencePlanStep_offer req hfl s₁ hsp
      refine ⟨[], by simp, reason₁, s₁, ?_, by simp [throughRequest], fun _ => ⟨rfl, rfl⟩, by simp⟩
      simp only [run, ho, offerMove]
    next s₁ hsp =>
    obtain ⟨g, hgr, -⟩ := referencePlanStep_grants hes hsp
    have hes₁ := (referencePlanStep_descends s s₁ hes hsp).1
    have ho := referencePlanStep_offer req hfl s hsp
    have hla : s₁.grants.getLast?.map (·.admissionRequestId) =
        some g.admissionRequestId := by simp [hgr]
    obtain ⟨rest, hr, reason', s'', hr', hth, hno, hso⟩ :=
      run_offer req hfl bound s₁ hes₁ hn
    refine ⟨g :: rest, by rw [hr, hgr, append_assoc, singleton_append], ?_⟩
    by_cases hg : g.admissionRequestId = req
    · -- the offer stops here; the fill goes on
      refine ⟨.requested, s₁, ?_, ?_, fun h => absurd hg (h g mem_cons_self), fun _ => rfl⟩
      · simp only [run, ho, offerMove, hla, hg, if_true]
      · rw [hgr, throughRequest, if_pos hg]
    · refine ⟨reason', s'', ?_, ?_, fun h => hno fun d hd => h d (mem_cons_of_mem g hd), ?_⟩
      · simp [run, ho, offerMove, hla, hg, hr']
      · rw [hth, hgr, throughRequest, if_neg hg, append_assoc, singleton_append]
      · rintro ⟨d, hd, hdq⟩
        rcases mem_cons.mp hd with rfl | hd
        · exact absurd hdq hg
        · exact hso ⟨d, hd, hdq⟩

/-! ### Cutting a run after `k` grants -/

/-- The state a run has after its first `k` grants, and the rest of the run. -/
theorem run_cut (hs : snapshot.DistinctWaiters) :
    ∀ (bound : Nat) (s : ReferenceState), Tracks cmp snapshot now opts s →
      s.entries.length < bound → ∀ {reason : StoppedBy} {s' : ReferenceState},
      run .progress (referencePlanStep cmp snapshot now opts) bound s =
        .ok (reason, s') →
      ∃ rest, s'.grants = s.grants ++ rest ∧
        ∀ k, (∀ g ∈ rest.take k, opts.requestId ≠ some g.admissionRequestId) →
          ∃ (cut : ReferenceState) (left : Nat), Tracks cmp snapshot now opts cut ∧
            cut.grants = s.grants ++ rest.take k ∧ cut.entries.length < left ∧
            run .progress (referencePlanStep cmp snapshot now opts) left
              cut = .ok (reason, s')
  | 0, s, _, hlt, _, _, _ => absurd hlt (Nat.not_lt_zero _)
  | bound + 1, s, ht, hlt, reason, s', hn => by
    have hhr : ∃ (cut : ReferenceState) (left : Nat),
        Tracks cmp snapshot now opts cut ∧ cut.grants = s.grants ++ [] ∧
          cut.entries.length < left ∧
          run .progress (referencePlanStep cmp snapshot now opts) left
            cut = .ok (reason, s') :=
      ⟨s, bound + 1, ht, (append_nil _).symm, hlt, hn⟩
    simp only [run] at hn
    split at hn
    · cases hn
    next reason₁ s₁ hsp =>
      cases hn
      rcases referencePlanStep_stop ht.wellFormed hsp with rfl | ⟨g, hg, hq⟩
      · exact ⟨[], (append_nil _).symm, fun k _ => by simpa using hhr⟩
      · refine ⟨[g], hg, fun k hk => ?_⟩
        cases k with
        | zero => exact hhr
        | succ k => exact absurd hq (hk g (by simp))
    next s₁ hsp =>
    obtain ⟨g, hg, -⟩ := referencePlanStep_grants ht.wellFormed hsp
    obtain ⟨ht₁, hlt₁⟩ : Tracks cmp snapshot now opts s₁ ∧
        s₁.entries.length < s.entries.length := by
      cases referencePlanStep_move ht.wellFormed hsp with
      | grant win sched _ hw _ =>
        have hm := mem_of_mem_filter hw
        exact ⟨ht.applyGrant hs hm _ _, length_applyGrant hm _ _⟩
    obtain ⟨rest, hr, hc⟩ := run_cut hs bound s₁ ht₁ (by omega) hn
    refine ⟨g :: rest, by rw [hr, hg, append_assoc, singleton_append], fun k hk => ?_⟩
    cases k with
    | zero => exact hhr
    | succ k =>
      obtain ⟨cut, left, hT, hG, hlf, hR⟩ :=
        hc k (fun d hd => hk d (mem_cons_of_mem g hd))
      refine ⟨cut, left, hT, ?_, hlf, hR⟩
      rw [hG, hg, append_assoc, take_succ_cons, singleton_append]

/-! ### A pass over the advanced snapshot -/

/-- The same state with grants made before. -/
def ReferenceState.after (grants : List PlannedGrant) (s : ReferenceState) : ReferenceState :=
  { s with grants := grants ++ s.grants }

/-- A round reads of the snapshot the limit and the kept slots only. -/
theorem referencePlanStep_kept {advanced : AdmissionSnapshot} (hkp : snapshot.Kept advanced) :
    referencePlanStep cmp advanced now opts =
      referencePlanStep cmp snapshot now opts := by
  obtain ⟨hl, hr, -⟩ := hkp
  cases snapshot
  subst hl hr
  rfl

/-- A round does not look at the grants made before it. -/
theorem referencePlanStep_after (hm : opts.maxGrants = none) (grants : List PlannedGrant)
    (s : ReferenceState) :
    BoundedLoop.InStep (fun s t => s = t.after grants)
      (referencePlanStep cmp snapshot now opts (s.after grants))
      (referencePlanStep cmp snapshot now opts s) := by
  have hgr : ∀ w flag sched, (s.after grants).applyGrant w flag sched =
      (s.applyGrant w flag sched).after grants := by
    intro w flag sched
    simp [applyGrant, ReferenceState.after, grant, ownerActive]
  have he : (s.after grants).eligibleEntries snapshot now =
      s.eligibleEntries snapshot now := rfl
  unfold referencePlanStep
  simp only [hm, grantsReached, Bool.false_eq_true, if_false, he]
  change BoundedLoop.InStep _ (if limitReached snapshot.capacityLimit s.active then _ else
    if s.entries.isEmpty then _ else _) _
  split
  · exact ⟨rfl, rfl⟩
  split
  · exact ⟨rfl, rfl⟩
  split
  · exact ⟨rfl, rfl⟩
  change BoundedLoop.InStep _ (scheduleWeightedDeficitRoundRobin cmp candidate
    (s.eligibleEntries snapshot now) s.scheduler defaultPriorityQuanta >>= _) _
  cases scheduleWeightedDeficitRoundRobin cmp candidate
    (s.eligibleEntries snapshot now) s.scheduler defaultPriorityQuanta with
  | error e => rfl
  | ok dec =>
    simp only [bind, Except.bind]
    cases dec.winner with
    | none => exact ⟨rfl, rfl⟩
    | some win =>
      dsimp only
      split
      · exact ⟨rfl, hgr _ _ _⟩
      · exact hgr _ _ _

/-- **A tracked state continues like a new pass over the advanced snapshot.** -/
theorem run_resume (hm : opts.maxGrants = none) (ht : Tracks cmp snapshot now opts s)
    {left : Nat} (hlf : s.entries.length < left)
    (hr : run .progress (referencePlanStep cmp snapshot now opts) left s = .ok (why, s')) :
    ∃ t, run .progress (referencePlanStep cmp (snapshot.applyGrants s.grants) now opts)
        ((snapshot.applyGrants s.grants).waiters.length + 1)
        (referenceInitial cmp (snapshot.applyGrants s.grants) now opts) =
      .ok (why, t) ∧ s' = t.after s.grants := by
  have hst : s = (referenceInitial cmp (snapshot.applyGrants s.grants) now
      opts).after s.grants := by
    obtain ⟨-, hac, ho, hs, hc, hes⟩ := ht
    obtain ⟨⟨active, activeByOwner, scopeActive, scheduler, gs⟩, es⟩ := s
    simp only [ReferenceState.after, referenceInitial, ofSnapshot, append_nil] at *
    subst hac ho hs hc hes
    rfl
  have hb : s.entries.length < (snapshot.applyGrants s.grants).waiters.length + 1 := by
    rw [ht.entries]
    exact @referenceInitial_length cmp _ now opts
  rw [run_stable referencePlanStep_descends left _ s ht.wellFormed hlf hb]
    at hr
  have hi : ∀ s₁ t₁ : ReferenceState, s₁ = t₁.after s.grants →
      BoundedLoop.InStep (fun s₂ t₂ => s₂ = t₂.after s.grants)
        (referencePlanStep cmp snapshot now opts s₁)
        (referencePlanStep cmp snapshot now opts t₁) := by
    rintro _ t₁ rfl
    exact referencePlanStep_after hm s.grants t₁
  have ha := run_simulates StoppedBy.progress hi
    ((snapshot.applyGrants s.grants).waiters.length + 1) s _ hst
  rw [hr] at ha
  rw [referencePlanStep_kept ht.kept]
  revert ha
  cases run StoppedBy.progress (referencePlanStep cmp snapshot now opts)
    ((snapshot.applyGrants s.grants).waiters.length + 1)
    (referenceInitial cmp (snapshot.applyGrants s.grants) now opts) with
  | error e => exact fun h => h.elim
  | ok res =>
    rintro ⟨rfl, h⟩
    exact ⟨res.2, rfl, h⟩

end Rounds

/-- A plan, as the run of the reference planner behind it. -/
theorem planGrants_run {snapshot : AdmissionSnapshot} (hd : snapshot.DistinctWaiters)
    {plan : GrantPlan} :
    planGrants cmp snapshot now opts = .ok plan ↔ ∃ s : ReferenceState,
      run .progress (referencePlanStep cmp snapshot now opts)
        (snapshot.waiters.length + 1) (referenceInitial cmp snapshot now opts) =
          .ok (plan.stoppedBy, s) ∧ s.grants = plan.grants ∧ s.scheduler = plan.scheduler := by
  rw [planGrants_eq_reference cmp hd now opts, referencePlanGrants]
  cases run StoppedBy.progress (referencePlanStep cmp snapshot now opts)
    (snapshot.waiters.length + 1) (referenceInitial cmp snapshot now opts) with
  | error e =>
    constructor
    · intro h
      cases h
    · rintro ⟨s, h, -⟩
      cases h
  | ok res =>
    obtain ⟨why, s⟩ := res
    constructor
    · intro h
      cases h
      exact ⟨s, rfl, rfl, rfl⟩
    · rintro ⟨t, h, hg, hs⟩
      exact congrArg Except.ok (by cases plan; simp_all)

/-- Planning again after the first `k` grants continues the plan, unless its offer is made. -/
theorem planGrants_resume {snapshot : AdmissionSnapshot} (hd : snapshot.DistinctWaiters)
    (hm : opts.maxGrants = none) {plan : GrantPlan}
    (hpl : planGrants cmp snapshot now opts = .ok plan) (k : Nat)
    (hq : ∀ g ∈ plan.grants.take k, opts.requestId ≠ some g.admissionRequestId) :
    planGrants cmp (snapshot.applyGrants (plan.grants.take k)) now opts =
      .ok ⟨plan.grants.drop k, plan.scheduler, plan.stoppedBy⟩ := by
  obtain ⟨s, hn, hg, hsc⟩ := (planGrants_run hd).mp hpl
  obtain ⟨rest, hr, hcu⟩ := run_cut hd _ _ (tracks_initial cmp snapshot now
    opts) referenceInitial_length hn
  have ha : rest = plan.grants := by
    rw [← hg, hr]
    rfl
  subst ha
  obtain ⟨cut, left, ht, hc, hlf, hR⟩ := hcu k hq
  have hc : cut.grants = plan.grants.take k := hc
  obtain ⟨t, hs, rfl⟩ := run_resume hm ht hlf hR
  rw [hc] at hs
  have hd' := ht.kept.distinct hd
  rw [hc] at hd'
  refine (planGrants_run hd').mpr ⟨t, hs, ?_, hsc⟩
  -- the grants of the whole plan are the first `k` and those of the second pass
  have hp : plan.grants.take k ++ t.grants = plan.grants.take k ++ plan.grants.drop k := by
    rw [take_append_drop, ← hc]
    exact hg
  exact append_cancel_left hp

/-- **Offers are prefixes of fills, and plans resume.**  Let `fill` be the fill-mode plan.

* The offer for a request has the grants of `fill` up to the request's, and stops there; if `fill`
  does not grant the request, the offer is `fill`.
* Persisting the first `k` grants of `fill` and planning again from the snapshot with them applied
  gives the remaining grants, the same final scheduler state and the same reason to stop.  So it
  does for an offer whose request is not among the first `k`. -/
theorem planGrants_offer_resume (localeCompare : Comparator String) (snapshot : AdmissionSnapshot)
    (hdistinct : snapshot.DistinctWaiters) (now : Instant) (creatingRequestId : Option String)
    (lastChanceWaiterIds : Option (List String)) (fill : GrantPlan)
    (hfill : planGrants localeCompare snapshot now
      ⟨none, creatingRequestId, lastChanceWaiterIds, none⟩ = .ok fill) :
    (∀ request, ∃ offer,
      planGrants localeCompare snapshot now
          ⟨some request, creatingRequestId, lastChanceWaiterIds, none⟩ = .ok offer ∧
        offer.grants = throughRequest request fill.grants ∧
        ((∃ g ∈ fill.grants, g.admissionRequestId = request) → offer.stoppedBy = .requested) ∧
        ((∀ g ∈ fill.grants, g.admissionRequestId ≠ request) → offer = fill) ∧
        ∀ k, (∀ g ∈ offer.grants.take k, g.admissionRequestId ≠ request) →
          planGrants localeCompare (snapshot.applyGrants (offer.grants.take k)) now
              ⟨some request, creatingRequestId, lastChanceWaiterIds, none⟩ =
            .ok ⟨offer.grants.drop k, offer.scheduler, offer.stoppedBy⟩) ∧
    ∀ k, planGrants localeCompare (snapshot.applyGrants (fill.grants.take k)) now
        ⟨none, creatingRequestId, lastChanceWaiterIds, none⟩ =
      .ok ⟨fill.grants.drop k, fill.scheduler, fill.stoppedBy⟩ := by
  refine ⟨fun request => ?_, fun k => planGrants_resume hdistinct rfl hfill k (by simp)⟩
  obtain ⟨s, hn, hr, hs⟩ := (planGrants_run hdistinct).mp hfill
  obtain ⟨rest, hre, why, t, ho, ht, hm, hq⟩ :=
    run_offer request rfl _ _ referenceInitial_entries hn
  have ha : rest = fill.grants := by
    rw [← hr, hre]
    rfl
  subst ha
  have hp : planGrants localeCompare snapshot now
      ⟨some request, creatingRequestId, lastChanceWaiterIds, none⟩ =
        .ok ⟨t.grants, t.scheduler, why⟩ :=
    (planGrants_run hdistinct).mpr ⟨t, ho, rfl, rfl⟩
  refine ⟨_, hp, ht, hq, fun hno => ?_, fun k hk => ?_⟩
  · obtain ⟨rfl, rfl⟩ := hm hno
    rw [hr, hs]
  · refine planGrants_resume hdistinct rfl hp k fun g hg => ?_
    exact fun h => hk g hg (Option.some.inj h).symm

namespace KeptSlotSample

/-- The offer for the first grant's request is that grant, and the kept slot's grant is planned
again once the first is persisted. -/
theorem planGrants_offer_resume_snapshot :
    (∃ offer, planGrants collation snapshot 0 ⟨some "r1", none, none, none⟩ = .ok offer ∧
        offer.grants = throughRequest "r1" plan.grants) ∧
      planGrants collation (snapshot.applyGrants (plan.grants.take 1)) 0 {} =
        .ok ⟨plan.grants.drop 1, plan.scheduler, plan.stoppedBy⟩ := by
  have h := planGrants_offer_resume collation snapshot snapshot_distinct 0 none none plan
    planGrants_snapshot
  obtain ⟨offer, ho, hg, -⟩ := h.1 "r1"
  exact ⟨⟨offer, ho, hg⟩, h.2 1⟩

end KeptSlotSample

end ModelProxy.Capacity
