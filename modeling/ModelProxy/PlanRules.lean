import ModelProxy.KeptSlots
import ModelProxy.PlanResumption

/-! # Who a plan serves, and when it stops

The admission rules, read off one snapshot: a waiter is `Grantable` if it is in its window and due,
its scopes have room, and a slot that others keep is one it may borrow while none of them waits.

A fill-mode plan makes each grant to a grantable waiter, the first of its class, and leaves a slot
free only when nobody is grantable.  Planning again after a grant continues the plan, so both are
facts about the first round of a pass.
-/
namespace ModelProxy.Capacity
open List ReferenceState PlanState Entry BoundedLoop
open ReferenceState (grantable remaining reservedRemainingTotal borrowed)

namespace AdmissionSnapshot
variable (snapshot : AdmissionSnapshot) (now : Instant) (options : PlannerOptions)

/-- The waiter is in its window and due, and its scopes have room. -/
structure Ready (waiter : PlannerWaiter) : Prop where
  window : inWindow waiter.toWindowWaiter now options.creatingRequestId (lastChance options) = true
  due : due waiter now = true
  room : ¬ snapshot.ScopeFull waiter

/-- Another owner with unmet kept slots has a waiter that is ready. -/
def OtherNeedy (owner : String) : Prop :=
  ∃ w ∈ snapshot.waiters, w.ownerKey ≠ owner ∧ snapshot.Ready now options w ∧
    snapshot.activeOf w.ownerKey < snapshot.reserved w.ownerKey

/-- The waiter would take a slot that another owner keeps. -/
def Borrows (waiter : PlannerWaiter) : Prop :=
  borrows snapshot.capacityLimit snapshot.active snapshot.unmetTotal
    (max 0 (snapshot.reserved waiter.ownerKey - snapshot.activeOf waiter.ownerKey)) = true

/-- The waiter may be granted a slot. -/
structure Grantable (waiter : PlannerWaiter) : Prop where
  ready : snapshot.Ready now options waiter
  borrow : snapshot.Borrows waiter →
    waiter.borrowReserved = true ∧ ¬ snapshot.OtherNeedy now options waiter.ownerKey

end AdmissionSnapshot

open AdmissionSnapshot

section FirstRound
variable {cmp : Comparator String} {snapshot : AdmissionSnapshot} {now : Instant}
  {opts : PlannerOptions} {plan : GrantPlan} {w : PlannerWaiter}

theorem mem_initial : entryOf w ∈ (referenceInitial cmp snapshot now opts).entries ↔
    w ∈ snapshot.waiters ∧
      inWindow w.toWindowWaiter now opts.creatingRequestId (lastChance opts) = true := by
  rw [referenceInitial, mem_referenceEntries]
  exact and_iff_right rfl

theorem scopeHasRoom_initial :
    (ofSnapshot snapshot).scopeHasRoom w = true ↔ ¬ snapshot.ScopeFull w := by
  simp only [scopeHasRoom, all_eq_true, decide_eq_true_eq, ScopeFull, not_exists, not_and, not_le]
  rfl

/-- A waiter for a kept slot, at the start of a pass. -/
theorem needs_initial {o : String} :
    Needs snapshot now (referenceInitial cmp snapshot now opts) o (entryOf w) ↔
      due w now = true ∧ snapshot.activeOf o < snapshot.reserved o ∧
        ¬ snapshot.ScopeFull w ∧ w.ownerKey = o := by
  rw [← scopeHasRoom_initial]
  exact Iff.rfl

/-- Who else waits at the start. -/
theorem otherNeedy_initial (o : String) :
    (referenceInitial cmp snapshot now opts).ownerWaitingBesides snapshot now o = true ↔
      snapshot.OtherNeedy now opts o := by
  rw [ownerWaitingBesides, any_eq_true]
  constructor
  · rintro ⟨p, hp, hne⟩
    obtain ⟨e, he, hn⟩ := (mem_needyOwners _ p).mp hp
    have hw := referenceInitial_entries e he
    rw [hw] at he hn
    obtain ⟨hm, hi⟩ := mem_initial.mp he
    obtain ⟨hd, hlt, hr, rfl⟩ := needs_initial.mp hn
    exact ⟨_, hm, by simpa using hne, ⟨hi, hd, hr⟩, hlt⟩
  · rintro ⟨v, hv, hne, hr, hlt⟩
    exact ⟨v.ownerKey, (mem_needyOwners _ _).mpr ⟨entryOf v, mem_initial.mpr ⟨hv, hr.window⟩,
      needs_initial.mpr ⟨hr.due, hlt, hr.room, rfl⟩⟩, by simpa using hne⟩

/-- **The first round picks among the grantable waiters.** -/
theorem mem_eligible_initial :
    entryOf w ∈ (referenceInitial cmp snapshot now opts).eligibleEntries snapshot now ↔
      w ∈ snapshot.waiters ∧ snapshot.Grantable now opts w := by
  have hb : borrowed snapshot (referenceInitial cmp snapshot now opts).toPlanState (entryOf w) =
      true ↔ snapshot.Borrows w := Iff.rfl
  have ho := @otherNeedy_initial cmp snapshot now opts w.ownerKey
  have hr : (referenceInitial cmp snapshot now opts).scopeHasRoom w = true ↔
      ¬ snapshot.ScopeFull w := scopeHasRoom_initial
  rw [eligibleEntries, mem_filter, mem_initial]
  constructor
  · rintro ⟨⟨hm, hi⟩, he⟩
    simp only [eligible, Bool.and_eq_true, Bool.not_eq_true', Bool.and_eq_false_iff] at he
    obtain ⟨⟨⟨hd, hs⟩, hot⟩, hp⟩ := he
    refine ⟨hm, ⟨hi, hd, hr.mp hs⟩, fun hbw => ?_⟩
    have hbt := hb.mpr hbw
    rw [hbt] at hot hp
    exact ⟨by simpa [entryOf] using hp, fun hn => by simp [entryOf, ho.mpr hn] at hot⟩
  · rintro ⟨hm, hg⟩
    refine ⟨⟨hm, hg.ready.window⟩, ?_⟩
    simp only [eligible, Bool.and_eq_true, Bool.not_eq_true', Bool.and_eq_false_iff]
    refine ⟨⟨⟨hg.ready.due, hr.mpr hg.ready.room⟩, ?_⟩, ?_⟩ <;>
      rcases Bool.eq_false_or_eq_true (borrowed snapshot
        (referenceInitial cmp snapshot now opts).toPlanState (entryOf w)) with h | h
    · exact .inr (Bool.eq_false_iff.mpr (mt ho.mp (hg.borrow (hb.mp h)).2))
    · exact .inl h
    · exact .inr (by simpa [entryOf] using (hg.borrow (hb.mp h)).1)
    · exact .inl h

variable (cmp snapshot now opts) in
/-- The grant goes to a free slot and to a grantable waiter, the first of its class. -/
def FirstOfClass (g : PlannedGrant) : Prop :=
  limitReached snapshot.capacityLimit snapshot.active = false ∧
    ∃ w ∈ snapshot.waiters, w.waiterId = g.waiterId ∧ snapshot.Grantable now opts w ∧
      ∀ v ∈ snapshot.waiters, snapshot.Grantable now opts v → v.priority = w.priority →
        (fifo cmp).le (entryOf w).candidate (entryOf v).candidate

theorem kept_applyGrants (gs : List PlannedGrant) : snapshot.Kept (snapshot.applyGrants gs) := by
  -- any prefix of the grants has been applied to reach `post`
  suffices h : ∀ post, snapshot.Kept post → snapshot.Kept (gs.foldl applyGrant post) from
    h _ (.refl _)
  induction gs with
  | nil => exact fun _ hk => hk
  | cons g gs ih => exact fun _ hk => ih _ (hk.applyGrant g)

/-- **A pick is the first of its class.** -/
theorem schedule_first {α : Type} {view : α → SchedulerCandidate} {cands : List α}
    {state : SchedulerState} {quanta : List Rat} {dec : SchedulerDecision α} {win c : α}
    (h : scheduleWeightedDeficitRoundRobin cmp view cands state quanta = .ok dec)
    (hw : dec.winner = some win) (hc : c ∈ cands) (he : (view c).eligible = true)
    (hp : (view c).priority = (view win).priority) : (fifo cmp).le (view win) (view c) := by
  have hr := (schedule_ok cmp view h).1
  rw [schedule_of_ranks cmp view hr] at h
  cases hv : validateScheduler state quanta with
  | error e => rw [hv] at h; cases h
  | ok _ =>
    rw [hv] at h
    cases h
    obtain ⟨hs, hq⟩ := validateScheduler_iff.mp hv
    rw [pick] at hw
    rcases visitClasses_cases hq ((resetDeficits_length _ _).trans hs.deficits)
      (Nat.zero_add priorityClassCount) with ⟨-, hpk⟩ | ⟨i, first, -, -, hh, hpk⟩
    · rw [hpk] at hw
      cases hw
    rw [hpk] at hw
    cases hw
    rw [classHead] at hh
    obtain ⟨-, -, hcl⟩ := (mem_classQueue cmp view).mp (mem_of_mem_head? hh)
    have hm := (mem_classQueue cmp view).mpr ⟨hc, he, hp.trans hcl⟩
    have hso := ((fifo cmp).comap view).sort_pairwise
      (cands.filter fun c => (view c).eligible && (view c).priority == classAt state.cursor i)
    change Pairwise _ (classQueue cmp view cands (classAt state.cursor i)) at hso
    obtain ⟨rest, hl⟩ := head?_eq_some_iff.mp hh
    rw [hl] at hso hm
    rcases mem_cons.mp hm with rfl | hm
    · exact (Comparator.le_total _ _ _).elim id id
    · exact rel_of_pairwise_cons hso hm

/-- A round that grants, grants the first eligible waiter of a class. -/
theorem referencePlanStep_first {s : ReferenceState} {move : LoopStep StoppedBy ReferenceState}
    (hes : s.Entries) (h : referencePlanStep cmp snapshot now opts s = .ok move) :
    move.state = s ∨ ∃ win ∈ s.eligibleEntries snapshot now,
      limitReached snapshot.capacityLimit s.active = false ∧
      (∃ flag sched, move.state = s.applyGrant win.waiter flag sched) ∧
      ∀ e ∈ s.eligibleEntries snapshot now, e.waiter.priority = win.waiter.priority →
        (fifo cmp).le win.candidate e.candidate := by
  unfold referencePlanStep at h
  split at h
  · cases h; exact .inl rfl
  split at h
  · cases h; exact .inl rfl
  next hl =>
  split at h
  · cases h; exact .inl rfl
  split at h
  · cases h; exact .inl rfl
  cases hs : scheduleWeightedDeficitRoundRobin cmp candidate (s.eligibleEntries snapshot now)
      s.scheduler defaultPriorityQuanta with
  | error e => rw [hs] at h; cases h
  | ok dec =>
    rw [hs] at h
    dsimp only [bind, Except.bind] at h
    cases hw : dec.winner with
    | none => rw [hw] at h; cases h; exact .inl rfl
    | some win =>
      rw [hw] at h
      have hm := ((schedule_ok cmp candidate hs).2.1 win hw).1
      refine .inr ⟨win, hm, by simpa using hl, ?_, fun e he hp => ?_⟩
      · dsimp only at h
        split at h <;> cases h <;> exact ⟨_, _, rfl⟩
      · obtain ⟨hel, hpr⟩ := eligibleEntries_candidate hes he
        refine schedule_first hs hw he hel ?_
        rw [hpr, hp, (eligibleEntries_candidate hes hm).2]

/-- The first round of a pass: nothing is granted, or the first waiter of a class. -/
theorem firstRound_grants {move : LoopStep StoppedBy ReferenceState}
    (h : referencePlanStep cmp snapshot now opts (referenceInitial cmp snapshot now opts) =
      .ok move) :
    move.state.grants = [] ∨
      ∃ g, move.state.grants = [g] ∧ FirstOfClass cmp snapshot now opts g := by
  rcases referencePlanStep_first referenceInitial_entries h with hs | ⟨win, hw, hl, ⟨f, t, hs⟩, hle⟩
  · left
    rw [hs]
    rfl
  have hwe := referenceInitial_entries win (mem_of_mem_filter hw)
  rw [hwe] at hw hle
  obtain ⟨hm, hg⟩ := mem_eligible_initial.mp hw
  rw [hs]
  exact .inr ⟨_, rfl, hl, _, hm, rfl, hg, fun v hv hgv hp =>
    hle _ (mem_eligible_initial.mpr ⟨hv, hgv⟩) hp⟩

/-- **The first grant of a pass**, or why there is none. -/
theorem planGrants_first (hd : snapshot.DistinctWaiters) (hm : opts.maxGrants = none)
    (hpl : planGrants cmp snapshot now opts = .ok plan) :
    (plan.grants = [] ∧ (limitReached snapshot.capacityLimit snapshot.active = true ∨
      ∀ v ∈ snapshot.waiters, ¬ snapshot.Grantable now opts v)) ∨
    ∃ g rest, plan.grants = g :: rest ∧ FirstOfClass cmp snapshot now opts g := by
  obtain ⟨s, hn, hg, -⟩ := (planGrants_run hd).mp hpl
  rw [← hg]
  generalize plan.stoppedBy = why at hn
  have ht := tracks_initial cmp snapshot now opts
  simp only [run] at hn
  split at hn
  · cases hn
  next reason s₁ hsp =>
    cases hn
    rcases firstRound_grants hsp with hno | ⟨g, hgr, hf⟩
    case inr => exact .inr ⟨g, [], hgr, hf⟩
    refine .inl ⟨hno, ?_⟩
    cases referencePlanStep_move ht.wellFormed hsp with
    | maxGrants h => simp [grantsReached, hm] at h
    | limit h => exact .inl h
    | none h =>
      refine .inr fun v hv hgv => ?_
      have hin := (@mem_eligible_initial cmp snapshot now opts v).mpr ⟨hv, hgv⟩
      rw [h] at hin
      exact not_mem_nil hin
    | requested win sched _ _ _ => simp [LoopStep.state, ReferenceState.applyGrant, grant] at hno
  next s₁ hsp =>
    cases referencePlanStep_move ht.wellFormed hsp with
    | grant win sched _ hw _ =>
      have hin := mem_of_mem_filter hw
      have hle := length_applyGrant hin ((referenceInitial cmp snapshot now opts).winnerBorrowed
        snapshot now win) sched
      obtain ⟨rest, hr, -⟩ := run_cut hd _ _ (ht.applyGrant hd hin _ _)
        (by have := @referenceInitial_length cmp snapshot now opts; omega) hn
      rcases firstRound_grants hsp with hno | ⟨g, hgr, hf⟩
      · simp [LoopStep.state, ReferenceState.applyGrant, grant] at hno
      · exact .inr ⟨g, rest, by rw [hr]; exact congrArg (· ++ rest) hgr, hf⟩

end FirstRound

/-- **No overtaking.**  Every grant of a fill-mode plan takes a free slot and goes to a waiter that
the rules allow over the snapshot with the earlier grants applied; of its class, no waiter that the
rules allow there comes before it in the queue. -/
theorem planGrants_in_order (localeCompare : Comparator String) (snapshot : AdmissionSnapshot)
    (hdistinct : snapshot.DistinctWaiters) (now : Instant) (options : PlannerOptions)
    (hfill : options.requestId = none) (hmax : options.maxGrants = none) (plan : GrantPlan)
    (hplan : planGrants localeCompare snapshot now options = .ok plan)
    (before : List PlannedGrant) (g : PlannedGrant) (later : List PlannedGrant)
    (hgrants : plan.grants = before ++ g :: later) :
    FirstOfClass localeCompare (snapshot.applyGrants before) now options g := by
  have hr := planGrants_resume hdistinct hmax hplan before.length (by simp [hfill])
  rw [hgrants, take_left, drop_left] at hr
  rcases planGrants_first ((kept_applyGrants before).distinct hdistinct) hmax hr with
    ⟨hno, -⟩ | ⟨g', rest, hg, hf⟩
  · cases hno
  · cases hg
    exact hf

/-- The second grant, to the owner that keeps the slot. -/
theorem KeptSlotSample.planGrants_in_order_snapshot :
    FirstOfClass collation (snapshot.applyGrants (plan.grants.take 1)) 0 {}
      ⟨"w3", "r3", false, 0, ⟨1, [0, 0, 0], schedulerVersion⟩⟩ :=
  planGrants_in_order collation snapshot snapshot_distinct 0 {} rfl rfl plan planGrants_snapshot
    (plan.grants.take 1) _ [] rfl

/-- **No slot stays free for nothing.**  When a fill-mode plan ends, the capacity is full or no
waiter that is left may be granted a slot. -/
theorem planGrants_fills (localeCompare : Comparator String) (snapshot : AdmissionSnapshot)
    (hdistinct : snapshot.DistinctWaiters) (now : Instant) (options : PlannerOptions)
    (hfill : options.requestId = none) (hmax : options.maxGrants = none) (plan : GrantPlan)
    (hplan : planGrants localeCompare snapshot now options = .ok plan) :
    limitReached snapshot.capacityLimit (snapshot.applyGrants plan.grants).active = true ∨
      ∀ w ∈ (snapshot.applyGrants plan.grants).waiters,
        ¬ (snapshot.applyGrants plan.grants).Grantable now options w := by
  have hr := planGrants_resume hdistinct hmax hplan plan.grants.length (by simp [hfill])
  rw [take_length, drop_length] at hr
  have hk : snapshot.Kept (snapshot.applyGrants plan.grants) := kept_applyGrants _
  rcases planGrants_first (hk.distinct hdistinct) hmax hr with ⟨-, hno⟩ | ⟨g, rest, hg, -⟩
  · rwa [hk.limit] at hno
  · cases hg

theorem KeptSlotSample.planGrants_fills_snapshot :
    limitReached snapshot.capacityLimit (snapshot.applyGrants plan.grants).active = true ∨
      ∀ w ∈ (snapshot.applyGrants plan.grants).waiters,
        ¬ (snapshot.applyGrants plan.grants).Grantable 0 {} w :=
  planGrants_fills collation snapshot snapshot_distinct 0 {} rfl rfl plan planGrants_snapshot

end ModelProxy.Capacity
