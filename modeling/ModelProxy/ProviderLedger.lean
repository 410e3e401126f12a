import ModelProxy.ProviderBudget
import Mathlib.Tactic.Linarith

/-! # The ledger over histories

Every transaction writes in one of four ways (`SpendWrite`): not at all, a new
attempt with its reservations, the end of an attempt that has a revision, or one
new revision that is the newest of its attempt fence.  From this alone the tables
stay valid (`SpendStore.Valid`): revisions of a fence come in sequence order, a
cloud attempt is active exactly while it has none, and the settlement rows of a
reservation mirror the revisions of its attempt.  What the ledger says of an
attempt is then the fold over its accepted revisions.
-/
namespace ModelProxy.Spend
open List SpendStore Comparator

/-! ## What the parts return -/

theorem decimal_ok {value : Option Rat} {amount : Rat} (h : decimal value = .ok amount) :
    0 ≤ amount := by
  cases value with
  | none => cases h
  | some v =>
    simp only [decimal] at h
    split at h
    · cases h
    next hn =>
      cases h
      exact not_lt.mp hn

variable {attempt : ProviderBudgetAttempt} {liab : Rat} {priorTotal : Option Rat}
  {anc a : Attempt} {term : ProviderBudgetTerminal} {cost : RevisionCost} {row : ExpiredRow}
  {s : SpendStore} {aid : String} {fencingToken tok : Int}

/-- A checked liability is an amount in a currency. -/
theorem checkLiability_ok {host : Host} {liab : CheckedLiability}
    (h : checkLiability host attempt = .ok liab) {spend : Rat} (hs : liab.spend = some spend) :
    0 ≤ spend ∧ liab.currency.isSome := by
  simp only [checkLiability] at h
  split at h
  · cases h
  simp only [bind_eq_ok] at h
  obtain ⟨accountingVersion, -, currency, -, pricingVersion, -, amount, ha, h⟩ := h
  split at h
  · cases h
  next hp =>
  cases h
  subst hs
  obtain ⟨v, -, hv⟩ := optional_eq_some ha
  refine ⟨decimal_ok hv, ?_⟩
  cases currency with
  | none => exact absurd rfl hp
  | some c => rfl

/-- What a revision may settle. -/
structure RevisionCost.Sound (anchor : Attempt) (terminal : ProviderBudgetTerminal)
    (priorTotal : Option Rat) (cost : RevisionCost) : Prop where
  nonneg : (∀ liability, anchor.liabilitySpend = some liability → 0 ≤ liability) →
    0 ≤ cost.cost.getD 0
  priced : anchor.liabilitySpend.isSome →
    cost.cost.isSome ∧ cost.currency = anchor.liabilityCurrency
  unknown : terminal.notSent = false → cost.costKnown = false → ∀ liability,
    anchor.liabilitySpend = some liability →
      cost.cost = some (keptLiability terminal.revisionKind liability priorTotal)

theorem keptLiability_nonneg {kind : RevisionKind} (h : 0 ≤ liab) :
    0 ≤ keptLiability kind liab priorTotal := by
  cases kind with
  | snapshot => exact h
  | delta => exact le_max_left _ _

/-- An unknown cost keeps the liability. -/
theorem unknownCost_sound {reportedCurrency : Option String}
    (h : unknownCost anc term reportedCurrency priorTotal = .ok cost) :
    cost.Sound anc term priorTotal := by
  simp only [unknownCost] at h
  split at h
  next liab hli =>
    cases h
    refine ⟨fun hnn => keptLiability_nonneg (hnn liab hli), fun _ => ⟨rfl, rfl⟩, fun _ _ l hl => ?_⟩
    cases hli.symm.trans hl
    rfl
  next hli =>
  have hu : ¬ anc.liabilitySpend.isSome = true := by simp [hli]
  have hno : ∀ l, anc.liabilitySpend ≠ some l := by simp [hli]
  split at h
  · obtain ⟨amt, ha, rfl⟩ := map_eq_ok.mp h
    exact ⟨fun _ => decimal_ok ha, fun hso => absurd hso hu, fun _ _ l hl => absurd hl (hno l)⟩
  · cases h
    exact ⟨fun _ => le_refl _, fun hso => absurd hso hu, fun _ _ l hl => absurd hl (hno l)⟩

/-- A cost that is recorded is sound. -/
theorem revisionCost_sound {host : Host} {complete : Option Bool}
    (h : revisionCost host anc term complete priorTotal = .ok cost) :
    cost.Sound anc term priorTotal := by
  obtain ⟨reportedCurrency, -, h⟩ := bind_eq_ok.mp h
  obtain ⟨calculatedCurrency, -, h⟩ := bind_eq_ok.mp h
  split at h
  next hn =>
    cases h
    exact ⟨fun _ => le_refl _, fun _ => ⟨rfl, rfl⟩, fun hs => absurd (hn.symm.trans hs) (by decide)⟩
  next =>
  split at h
  · obtain ⟨amt, ha, rfl⟩ := map_eq_ok.mp h
    exact ⟨fun _ => decimal_ok ha, fun _ => ⟨rfl, rfl⟩, fun _ hk => absurd hk Bool.true_eq_false.mp⟩
  · exact unknownCost_sound h

/-! ## What a transaction writes -/

section
variable (calendar : Calendar) (host : Host)

/-- A delivery that is recorded: by an attempt it names, as its newest revision, and
never as the crash settlement of an attempt that has one. -/
structure Recorded (terminal : ProviderBudgetTerminal) (s : SpendStore) (anchor : Attempt)
    (checked : CheckedTerminal) (cost : RevisionCost) : Prop where
  checks : checkTerminal host terminal = .ok checked
  named : s.anchor? terminal = some anchor
  identity : sameIdentity anchor terminal = true
  newest : ∀ l ∈ s.revisionsOf terminal.attemptId terminal.fencingToken,
    l.revisionSequence < terminal.revisionSequence
  crash : terminal.reason = .crashRecovery →
    s.revisionsOf terminal.attemptId terminal.fencingToken = []
  settles : revisionCost host anchor terminal checked.observationComplete
    (revisionTotal (s.revisionsOf terminal.attemptId terminal.fencingToken)) = .ok cost

/-- The tables after a recorded delivery. -/
def afterRevision (terminal : ProviderBudgetTerminal) (anchor : Attempt)
    (checked : CheckedTerminal) (cost : RevisionCost) (now createdAt : Instant) (s : SpendStore) :
    SpendStore :=
  finalize
    (recordRevision anchor terminal checked cost
      (revisionTotal (s.revisionsOf terminal.attemptId terminal.fencingToken)) now createdAt s)
    terminal.attemptId terminal.fencingToken terminal.reason now

/-- What a delivery leaves. -/
inductive Reconciled (now createdAt : Instant) (terminal : ProviderBudgetTerminal)
    (s : SpendStore) : SpendStore → Prop
  | ignored (hcrash : terminal.reason = .crashRecovery) : Reconciled now createdAt terminal s s
  | ended {l : UsageLedger} (hl : l ∈ s.revisionsOf terminal.attemptId terminal.fencingToken)
      (hsequence : l.revisionSequence = terminal.revisionSequence) :
      Reconciled now createdAt terminal s
        (finalize s terminal.attemptId terminal.fencingToken terminal.reason now)
  | recorded {anchor : Attempt} {checked : CheckedTerminal} {cost : RevisionCost}
      (h : Recorded host terminal s anchor checked cost) :
      Reconciled now createdAt terminal s
        (afterRevision terminal anchor checked cost now createdAt s)

variable {now made : Instant} {term : ProviderBudgetTerminal} {s s' : SpendStore}

/-- What a reconcile writes. -/
theorem reconcile_reconciled (h : reconcileProviderBudget host now made term s = .ok s') :
    Reconciled host now made term s s' := by
  simp only [reconcileProviderBudget] at h
  obtain ⟨chk, hh, h⟩ := bind_eq_ok.mp h
  split at h
  · cases h
  next anc ha =>
  split at h
  next hlv =>
    cases h
    exact .ignored (of_decide_eq_true (Bool.and_eq_true_iff.mp hlv).1)
  split at h
  · cases h
  next hi =>
  split at h
  next duplicate hd =>
    split at h
    · cases h
    cases h
    have hs := find?_some hd
    exact .ended (mem_of_find?_eq_some hd) (of_decide_eq_true hs)
  next hu =>
  split at h
  next hc =>
    cases h
    exact .ignored hc.1
  next hc =>
  split at h
  · cases h
  next ht =>
  obtain ⟨cost, hct, h⟩ := bind_eq_ok.mp h
  cases h
  refine .recorded ⟨hh, ha, Bool.not_eq_false _ ▸ hi, ?_, ?_, hct⟩
  · intro l hl
    have hne := find?_eq_none.mp hu l hl
    have hle : ¬ l.revisionSequence > term.revisionSequence := fun hgt =>
      ht (any_eq_true.mpr ⟨l, hl, decide_eq_true hgt⟩)
    exact lt_of_le_of_ne (not_lt.mp hle) (fun heq => hne (decide_eq_true heq))
  · intro hrs
    by_contra hne
    exact hc ⟨hrs, hne⟩

/-- A delivery in sequence is recorded. -/
theorem reconcile_of_recorded {anc : Attempt} {chk : CheckedTerminal} {cost : RevisionCost}
    (h : Recorded host term s anc chk cost) (hx : notExpired anc term now = false) :
    reconcileProviderBudget host now made term s =
      .ok (afterRevision term anc chk cost now made s) := by
  have hd : (s.revisionsOf term.attemptId term.fencingToken).find?
      (·.revisionSequence = term.revisionSequence) = none :=
    find?_eq_none.mpr fun l hl => by simpa using (h.newest l hl).ne
  have hst : (s.revisionsOf term.attemptId term.fencingToken).any
      (·.revisionSequence > term.revisionSequence) = false :=
    any_eq_false.mpr fun l hl => by simpa using (h.newest l hl).le
  have hc : ¬(term.reason = .crashRecovery ∧
      s.revisionsOf term.attemptId term.fencingToken ≠ []) := fun hc => hc.2 (h.crash hc.1)
  simp [reconcileProviderBudget, h.checks, h.named, hx, h.identity, hd, hst, hc, h.settles,
    afterRevision, bind, Except.bind]

/-- What a transaction writes. -/
inductive SpendWrite : SpendStep → SpendStore → SpendStore → Prop
  | nothing (step : SpendStep) (s : SpendStore) : SpendWrite step s s
  | attempt {now : Instant} {graph : SpendGraph} {reservationId : String → String}
      {attempt : ProviderBudgetAttempt} {s : SpendStore} {liability : CheckedLiability}
      {caps : List SpendCap} (hliability : checkLiability host attempt = .ok liability)
      (hcaps : readCaps graph attempt = .ok caps)
      (hfresh : s.attempt? attempt.attemptId = none)
      (hadmitted : capsDenial calendar graph now s attempt liability caps = none)
      (hids : ((s.reservations ++ newReservations (calendar.window now) reservationId attempt
        liability caps).map SpendReservation.id).Nodup) :
      SpendWrite (.admission now graph reservationId attempt) s
        (s.insertAttempt (newAttempt attempt liability)
          (newReservations (calendar.window now) reservationId attempt liability caps))
  | ending (step : SpendStep) {s : SpendStore} {attemptId : String} {fencingToken : Int}
      {reason : TerminalReason} (hrevised : s.revisionsOf attemptId fencingToken ≠ []) :
      SpendWrite step s (finalize s attemptId fencingToken reason step.now)
  | revision (step : SpendStep) {terminal : ProviderBudgetTerminal} {s : SpendStore}
      {anchor : Attempt} {checked : CheckedTerminal} {cost : RevisionCost}
      (h : Recorded host terminal s anchor checked cost) :
      SpendWrite step s (afterRevision terminal anchor checked cost step.now step.createdAt s)

variable {calendar host}

theorem Reconciled.writes (step : SpendStep)
    (h : Reconciled host step.now step.createdAt term s s') :
    SpendWrite calendar host step s s' := by
  cases h with
  | ignored => exact .nothing step s
  | ended hl => exact .ending step (ne_nil_of_mem hl)
  | recorded h => exact .revision step h

/-- What an admission writes. -/
theorem admission_writes {graph : SpendGraph} {reservationId : String → String}
    {reply : ProviderBudgetAdmission}
    (h : admitProviderBudget host calendar graph now reservationId attempt s = .ok (reply, s')) :
    SpendWrite calendar host (.admission now graph reservationId attempt) s s' := by
  simp only [admitProviderBudget] at h
  obtain ⟨liab, hl, h⟩ := bind_eq_ok.mp h
  obtain ⟨caps, hca, h⟩ := bind_eq_ok.mp h
  split at h
  · cases h
  split at h
  · obtain ⟨reply', -, heq⟩ := map_eq_ok.mp h
    cases heq
    exact .nothing _ s
  next hfr =>
  split at h
  · cases h
  split at h
  · cases h
    exact .nothing _ s
  next ha =>
  split at h
  next hi =>
    cases h
    exact .attempt hl hca hfr ha hi
  · cases h

/-- An attempt with a revision has its state ended; one without is settled. -/
theorem repair_writes {cut : Instant} (h : repairExpiredAttempt host row cut now made s = .ok s') :
    SpendWrite calendar host (.repair now made cut row) s s' := by
  simp only [repairExpiredAttempt] at h
  split at h
  · split at h
    next latest hl =>
      cases h
      have hm := mem_of_head? hl
      exact .ending (.repair now made cut row)
        (ne_nil_of_mem ((mem_sort _).mp hm))
    · exact Reconciled.writes (.repair now made cut row) (reconcile_reconciled host h)
  · cases h
    exact .nothing _ s

/-- **Every transaction writes in one of the four ways.** -/
theorem commit_writes (step : SpendStep) (s : SpendStore) :
    SpendWrite calendar host step s (step.commit calendar host s) := by
  unfold SpendStep.commit
  split
  next s' h =>
    cases step with
    | admission now graph reservationId attempt =>
      obtain ⟨⟨reply, s''⟩, hr, rfl⟩ := map_eq_ok.mp h
      exact admission_writes hr
    | reconcile now made term =>
      exact Reconciled.writes (.reconcile now made term) (reconcile_reconciled host h)
    | repair now made cut row => exact repair_writes h
  · exact .nothing step s

end

/-! ## Valid tables -/

/-- The attempt a ledger row belongs to. -/
structure Attempt.Owns (a : Attempt) (l : UsageLedger) : Prop where
  attemptId : l.attemptId = a.id
  fencingToken : l.fencingToken = a.fencingToken
  cloud : a.kind = .cloud
  account : a.providerAccountId = some l.providerAccountId
  share : a.shareId = l.shareId

/-- The settlement rows of a reservation. -/
def SpendStore.settlementsOf (s : SpendStore) (reservationId : String) : List SpendSettlement :=
  s.settlements.filter (fun row => decide (row.reservationId = reservationId))

/-- What the tables always satisfy. -/
structure SpendStore.Valid (s : SpendStore) : Prop where
  attemptIds : (s.attempts.map Attempt.id).Nodup
  /-- A cloud attempt is active until its first revision. -/
  active : ∀ a ∈ s.attempts, a.kind = .cloud →
    (a.state = .active ↔ s.revisionsOf a.id a.fencingToken = [])
  liability : ∀ a ∈ s.attempts, ∀ liability, a.liabilitySpend = some liability → 0 ≤ liability
  owned : ∀ l ∈ s.ledger, ∃ a ∈ s.attempts, a.Owns l
  ordered : ∀ attemptId fencingToken, (s.revisionsOf attemptId fencingToken).Pairwise
    (fun l l' => l.revisionSequence < l'.revisionSequence)
  cost : ∀ l ∈ s.ledger, 0 ≤ l.settledCost.getD 0
  /-- An attempt with a liability is settled in its currency. -/
  priced : ∀ a ∈ s.attempts, a.liabilitySpend.isSome →
    ∀ l ∈ s.revisionsOf a.id a.fencingToken,
      l.settledCost.isSome ∧ l.currency = a.liabilityCurrency
  reservationIds : (s.reservations.map SpendReservation.id).Nodup
  reserved : ∀ row ∈ s.reservations, ∃ a ∈ s.attempts, a.id = row.attemptId
  settled : ∀ row ∈ s.settlements, ∃ r ∈ s.reservations, r.id = row.reservationId
  mirrored : ∀ row ∈ s.reservations,
    (s.settlementsOf row.id).map SpendSettlement.revision =
      (s.revisionsOf row.attemptId row.fencingToken).map (fun l => l.revision.filled)

theorem mem_revisionsOf {l : UsageLedger} : l ∈ s.revisionsOf aid fencingToken ↔
      l ∈ s.ledger ∧ l.attemptId = aid ∧ l.fencingToken = fencingToken := by
  simp [revisionsOf]

theorem mem_reservationsOf {row : SpendReservation} : row ∈ s.reservationsOf aid fencingToken ↔
      row ∈ s.reservations ∧ row.attemptId = aid ∧ row.fencingToken = fencingToken := by
  simp [reservationsOf]

/-- One row more is one revision more of its own fence. -/
theorem revisionsOf_append {s' : SpendStore} (row : UsageLedger) (h : s'.ledger = s.ledger ++ [row])
    (aid : String) (tok : Int) :
    s'.revisionsOf aid tok = s.revisionsOf aid tok ++
      if row.attemptId = aid ∧ row.fencingToken = tok then [row] else [] := by
  unfold revisionsOf
  rw [h, filter_append]
  congr 1
  by_cases hk : row.attemptId = aid ∧ row.fencingToken = tok
  · simp [hk]
  · rw [if_neg hk, filter_eq_nil_iff]
    intro l hl
    obtain rfl := mem_singleton.mp hl
    simpa using hk

theorem eq_of_attempt_id (hs : s.Valid) {b : Attempt} (ha : a ∈ s.attempts) (hb : b ∈ s.attempts)
    (h : a.id = b.id) : a = b :=
  inj_on_of_nodup_map hs.attemptIds ha hb h

theorem eq_of_reservation_id (hs : s.Valid) {r r' : SpendReservation} (hr : r ∈ s.reservations)
    (hr' : r' ∈ s.reservations) (h : r.id = r'.id) : r = r' :=
  inj_on_of_nodup_map hs.reservationIds hr hr' h

theorem anchor_spec {anchor : Attempt} (h : s.anchor? term = some anchor) : anchor ∈ s.attempts ∧
      anchor.id = term.attemptId ∧ anchor.kind = .cloud ∧
        anchor.fencingToken = term.fencingToken := by
  simp only [anchor?, attempt?, Option.filter_eq_some_iff, Bool.and_eq_true, decide_eq_true_eq] at h
  obtain ⟨hfn, hkd, ht⟩ := h
  have hid := find?_some hfn
  exact ⟨mem_of_find?_eq_some hfn, of_decide_eq_true hid, hkd, ht⟩

@[simp] theorem finalized_terms (aid : String) (tok : Int) (why : TerminalReason)
    (now : Instant) (a : Attempt) :
    (a.finalized aid tok why now).id = a.id ∧
      (a.finalized aid tok why now).fencingToken = a.fencingToken ∧
      (a.finalized aid tok why now).kind = a.kind ∧
      (a.finalized aid tok why now).providerAccountId = a.providerAccountId ∧
      (a.finalized aid tok why now).shareId = a.shareId ∧
      (a.finalized aid tok why now).liabilitySpend = a.liabilitySpend ∧
      (a.finalized aid tok why now).liabilityCurrency = a.liabilityCurrency := by
  unfold Attempt.finalized
  split <;> exact ⟨rfl, rfl, rfl, rfl, rfl, rfl, rfl⟩

@[simp] theorem settle_terms (aid : String) (tok : Int) (total : Rat)
    (now : Instant) (row : SpendReservation) :
    (row.settle aid tok total now).id = row.id ∧
      (row.settle aid tok total now).attemptId = row.attemptId ∧
      (row.settle aid tok total now).fencingToken = row.fencingToken := by
  unfold SpendReservation.settle
  split <;> exact ⟨rfl, rfl, rfl⟩

theorem settle_state {aid : String} {tok : Int} {total : Rat} {now : Instant}
    {row : SpendReservation} (ha : (row.settle aid tok total now).attemptId = aid)
    (hf : (row.settle aid tok total now).fencingToken = tok) :
    (row.settle aid tok total now).state = .settled := by
  rw [(settle_terms aid tok total now row).2.1] at ha
  rw [(settle_terms aid tok total now row).2.2] at hf
  unfold SpendReservation.settle
  split
  · rfl
  next hk =>
    cases hs : row.state with
    | reserved => exact absurd ⟨ha, hf, hs⟩ hk
    | settled => rfl

theorem terminalState_ne_active (why : TerminalReason) : terminalState why ≠ .active := by
  cases why <;> decide

theorem finalized_active {why : TerminalReason} {now : Instant} :
    (a.finalized aid tok why now).state = .active ↔
      a.state = .active ∧ ¬ (a.id = aid ∧ a.fencingToken = tok) := by
  unfold Attempt.finalized
  split
  next h => simpa [h] using terminalState_ne_active why
  next h =>
    constructor
    · exact fun ha => ⟨ha, fun hk => h ⟨hk.1, hk.2, ha⟩⟩
    · exact And.left

/-- **An attempt with a revision has ended**, so ending it changes nothing. -/
theorem finalize_eq_self (hs : s.Valid) (hr : s.revisionsOf aid tok ≠ []) (why : TerminalReason)
    (now : Instant) : finalize s aid tok why now = s := by
  have hsm : ∀ a ∈ s.attempts, a.finalized aid tok why now = a := by
    intro a ha
    refine if_neg ?_
    rintro ⟨rfl, rfl, ht⟩
    obtain ⟨l, hl⟩ := exists_mem_of_ne_nil _ hr
    obtain ⟨hd, hid, -⟩ := mem_revisionsOf.mp hl
    obtain ⟨b, hb, hos⟩ := hs.owned l hd
    obtain rfl := eq_of_attempt_id hs ha hb (hid.symm.trans hos.attemptId)
    exact hr ((hs.active a ha hos.cloud).mp ht)
  unfold finalize
  rw [map_congr_left hsm, map_id']

/-! ### A new attempt -/

/-- A fresh attempt has no revision. -/
theorem revisionsOf_fresh (hs : s.Valid) (hfr : s.attempt? aid = none) (tok : Int) :
    s.revisionsOf aid tok = [] := by
  refine eq_nil_iff_forall_not_mem.mpr (fun l hl => ?_)
  obtain ⟨hd, hid, -⟩ := mem_revisionsOf.mp hl
  obtain ⟨a, ha, hos⟩ := hs.owned l hd
  exact find?_eq_none.mp hfr a ha (decide_eq_true (hos.attemptId.symm.trans hid))

/-- An admission keeps the tables valid. -/
theorem insertAttempt_valid (hs : s.Valid) {rows : List SpendReservation}
    (hfr : s.attempt? a.id = none) (ha : a.state = .active)
    (hli : ∀ liability, a.liabilitySpend = some liability → 0 ≤ liability)
    (hrw : ∀ row ∈ rows, row.attemptId = a.id)
    (hi : ((s.reservations ++ rows).map SpendReservation.id).Nodup) :
    (s.insertAttempt a rows).Valid where
  attemptIds := by
    have hn : ∀ b ∈ s.attempts, ¬ b.id = a.id := fun b hb heq =>
      find?_eq_none.mp hfr b hb (decide_eq_true heq)
    simp only [insertAttempt, map_append, map_singleton]
    refine hs.attemptIds.append (nodup_singleton _) ?_
    intro id hid hI
    obtain ⟨b, hb, rfl⟩ := mem_map.mp hid
    exact hn b hb (mem_singleton.mp hI)
  active b hb hcld := by
    rcases mem_append.mp hb with hb | hb
    · exact hs.active b hb hcld
    · obtain rfl := mem_singleton.mp hb
      exact ⟨fun _ => revisionsOf_fresh hs hfr _, fun _ => ha⟩
  liability b hb := by
    rcases mem_append.mp hb with hb | hb
    · exact hs.liability b hb
    · obtain rfl := mem_singleton.mp hb
      exact hli
  owned l hl := by
    obtain ⟨b, hb, hos⟩ := hs.owned l hl
    exact ⟨b, mem_append_left _ hb, hos⟩
  ordered := hs.ordered
  cost := hs.cost
  priced b hb hso l hl := by
    rcases mem_append.mp hb with hb | hb
    · exact hs.priced b hb hso l hl
    · obtain rfl := mem_singleton.mp hb
      have hno := revisionsOf_fresh hs hfr b.fencingToken
      exact absurd hl (hno ▸ not_mem_nil)
  reservationIds := hi
  reserved row hw := by
    rcases mem_append.mp hw with hw | hw
    · obtain ⟨b, hb, hid⟩ := hs.reserved row hw
      exact ⟨b, mem_append_left _ hb, hid⟩
    · exact ⟨a, mem_append_right _ (mem_singleton_self a), (hrw row hw).symm⟩
  settled row hw := by
    obtain ⟨r, hr, hid⟩ := hs.settled row hw
    exact ⟨r, mem_append_left _ hr, hid⟩
  mirrored row hw := by
    rcases mem_append.mp hw with hw | hw
    · exact hs.mirrored row hw
    -- neither a settlement nor a revision is there yet
    have ht : s.settlementsOf row.id = [] := by
      refine eq_nil_iff_forall_not_mem.mpr (fun settlement hm => ?_)
      obtain ⟨hst, hid⟩ := mem_filter.mp hm
      obtain ⟨r, hr, hr'⟩ := hs.settled settlement hst
      rw [map_append] at hi
      exact disjoint_of_nodup_append hi (mem_map_of_mem hr)
        (mem_map.mpr ⟨row, hw, (hr'.trans (of_decide_eq_true hid)).symm⟩)
    have hrv := revisionsOf_fresh hs hfr row.fencingToken
    rw [← hrw row hw] at hrv
    change (s.settlementsOf row.id).map _ = (s.revisionsOf row.attemptId row.fencingToken).map _
    rw [ht, hrv]
    rfl

/-! ### A new revision -/

section Revisions
variable {host : Host} {term : ProviderBudgetTerminal} {s : SpendStore} {anc : Attempt}
  {chk : CheckedTerminal} {cost : RevisionCost}

/-- The ledger row of a recorded delivery belongs to the attempt it names. -/
theorem Recorded.owns (h : Recorded host term s anc chk cost) (made : Instant) :
    anc.Owns (newLedgerRow anc term chk cost made) := by
  obtain ⟨-, hid, hc, ht⟩ := anchor_spec h.named
  have hi := h.identity
  simp only [sameIdentity, Bool.and_eq_true, decide_eq_true_eq] at hi
  exact ⟨hid.symm, ht.symm, hc, hi.1.1.1.1.2, rfl⟩

/-- A reservation of the fence gets exactly one settlement row, any other none. -/
theorem settlementsOf_new (hs : s.Valid) {row : SpendReservation} (hw : row ∈ s.reservations) :
    ((s.reservationsOf term.attemptId term.fencingToken).map
        (newSettlement anc term chk cost.cost)).filter
        (fun settlement => decide (settlement.reservationId = row.id)) =
      if row.attemptId = term.attemptId ∧ row.fencingToken = term.fencingToken then
        [newSettlement anc term chk cost.cost row]
      else [] := by
  rw [filter_map]
  have hf : (s.reservationsOf term.attemptId term.fencingToken).filter
      (fun r => decide (r.id = row.id)) =
        if row.attemptId = term.attemptId ∧ row.fencingToken = term.fencingToken then [row]
        else [] := by
    split
    next hk =>
      have hm := mem_reservationsOf.mpr ⟨hw, hk⟩
      have hn : (s.reservationsOf term.attemptId term.fencingToken).Nodup :=
        ((sort_perm _ _).nodup_iff).mpr ((hs.reservationIds.of_map _).filter _)
      have heq : ∀ r ∈ s.reservationsOf term.attemptId term.fencingToken,
          decide (r.id = row.id) = decide (r = row) := by
        intro r hr
        refine decide_eq_decide.mpr ⟨fun hid => ?_, fun h => h ▸ rfl⟩
        exact eq_of_reservation_id hs (mem_reservationsOf.mp hr).1 hw hid
      rw [filter_congr heq, filter_eq, count_eq_one_of_mem hn hm]
      rfl
    next hk =>
      refine filter_eq_nil_iff.mpr (fun r hr hid => hk ?_)
      obtain ⟨hr, hrk⟩ := mem_reservationsOf.mp hr
      exact eq_of_reservation_id hs hr hw (of_decide_eq_true hid) ▸ hrk
  have hc : ((fun settlement : SpendSettlement => decide (settlement.reservationId = row.id)) ∘
      newSettlement anc term chk cost.cost) = fun r => decide (r.id = row.id) := rfl
  rw [hc, hf]
  split <;> rfl

theorem afterRevision_revisionsOf (now made : Instant) (aid : String) (tok : Int) :
    (afterRevision term anc chk cost now made s).revisionsOf aid tok =
      s.revisionsOf aid tok ++
        if term.attemptId = aid ∧ term.fencingToken = tok then
          [newLedgerRow anc term chk cost made]
        else [] :=
  revisionsOf_append (newLedgerRow anc term chk cost made) rfl aid
    tok

/-- A revision keeps the tables valid. -/
theorem afterRevision_valid (hs : s.Valid) (h : Recorded host term s anc chk cost)
    (now made : Instant) :
    (afterRevision term anc chk cost now made s).Valid := by
  obtain ⟨hc, hid, hcl, ht⟩ := anchor_spec h.named
  have hsu := revisionCost_sound h.settles
  refine
    { attemptIds := ?_, active := ?_, liability := ?_, owned := ?_, ordered := ?_, cost := ?_,
      priced := ?_, reservationIds := ?_, reserved := ?_, settled := ?_, mirrored := ?_ }
  · have hi : ((s.attempts.map (Attempt.finalized term.attemptId term.fencingToken
        term.reason now)).map Attempt.id) = s.attempts.map Attempt.id := by
      simp [map_map, Function.comp_def]
    exact hi ▸ hs.attemptIds
  · intro b hb hbc
    obtain ⟨a, ha, rfl⟩ := mem_map.mp hb
    rw [finalized_active, afterRevision_revisionsOf]
    simp only [finalized_terms] at hbc ⊢
    by_cases hk : term.attemptId = a.id ∧ term.fencingToken = a.fencingToken
    · simp [hk]
    · have hk' : ¬ (a.id = term.attemptId ∧ a.fencingToken = term.fencingToken) :=
        fun h => hk ⟨h.1.symm, h.2.symm⟩
      rw [if_neg hk, append_nil, ← hs.active a ha hbc]
      exact and_iff_left hk'
  · intro b hb
    obtain ⟨a, ha, rfl⟩ := mem_map.mp hb
    simpa using hs.liability a ha
  · intro l hl
    have hoe : ∃ a ∈ s.attempts, a.Owns l := by
      rcases mem_append.mp hl with hl | hl
      · exact hs.owned l hl
      · exact ⟨anc, hc, mem_singleton.mp hl ▸ h.owns made⟩
    obtain ⟨a, ha, hos⟩ := hoe
    refine ⟨_, mem_map_of_mem ha, ?_⟩
    exact ⟨by simpa using hos.attemptId, by simpa using hos.fencingToken,
      by simpa using hos.cloud, by simpa using hos.account, by simpa using hos.share⟩
  · intro aid token
    rw [afterRevision_revisionsOf]
    split
    next hk =>
      obtain ⟨rfl, rfl⟩ := hk
      refine pairwise_append.mpr ⟨hs.ordered _ _, pairwise_singleton _ _, ?_⟩
      intro l hl l' hl'
      rw [mem_singleton.mp hl']
      exact h.newest l hl
    · rw [append_nil]
      exact hs.ordered _ _
  · intro l hl
    rcases mem_append.mp hl with hl | hl
    · exact hs.cost l hl
    · rw [mem_singleton.mp hl]
      exact hsu.nonneg (hs.liability anc hc)
  · intro b hb hso l hl
    obtain ⟨a, ha, rfl⟩ := mem_map.mp hb
    simp only [finalized_terms] at hso hl ⊢
    rw [afterRevision_revisionsOf] at hl
    rcases mem_append.mp hl with hl | hl
    · exact hs.priced a ha hso l hl
    split at hl
    next hk =>
      obtain rfl := eq_of_attempt_id hs ha hc (hk.1.symm.trans hid.symm)
      obtain ⟨hct, hcu⟩ := hsu.priced hso
      rw [mem_singleton.mp hl]
      exact ⟨hct, (if_pos hct).trans hcu⟩
    · cases hl
  · have hi : ((afterRevision term anc chk cost now made s).reservations.map
        SpendReservation.id) = s.reservations.map SpendReservation.id := by
      simp [afterRevision, finalize, recordRevision, map_map, Function.comp_def]
    exact hi ▸ hs.reservationIds
  · intro row hw
    obtain ⟨r, hr, rfl⟩ := mem_map.mp hw
    obtain ⟨a, ha, hid⟩ := hs.reserved r hr
    exact ⟨_, mem_map_of_mem ha, by simpa using hid⟩
  · intro row hw
    have hre : ∃ r ∈ s.reservations, r.id = row.reservationId := by
      rcases mem_append.mp hw with hw | hw
      · exact hs.settled row hw
      · obtain ⟨r, hr, rfl⟩ := mem_map.mp hw
        exact ⟨r, (mem_reservationsOf.mp hr).1, rfl⟩
    obtain ⟨r, hr, hid⟩ := hre
    exact ⟨_, mem_map_of_mem hr, by simpa using hid⟩
  · intro row hw
    obtain ⟨r, hr, rfl⟩ := mem_map.mp hw
    simp only [settle_terms]
    rw [settlementsOf, afterRevision_revisionsOf]
    change ((s.settlements ++ _).filter _).map _ = _
    rw [filter_append, settlementsOf_new hs hr, map_append, map_append]
    change (s.settlementsOf r.id).map _ ++ _ = _
    rw [hs.mirrored r hr]
    congr 1
    by_cases hk : r.attemptId = term.attemptId ∧ r.fencingToken = term.fencingToken
    · rw [if_pos hk, if_pos ⟨hk.1.symm, hk.2.symm⟩]
      rfl
    · rw [if_neg hk, if_neg (fun h => hk ⟨h.1.symm, h.2.symm⟩)]
      rfl

end Revisions

/-! ### Histories -/

theorem valid_empty : empty.Valid where
  attemptIds := nodup_nil
  active := by simp [empty]
  liability := by simp [empty]
  owned := by simp [empty]
  ordered _ _ := List.Pairwise.nil
  cost := by simp [empty]
  priced := by simp [empty]
  reservationIds := nodup_nil
  reserved := by simp [empty]
  settled := by simp [empty]
  mirrored := by simp [empty]

section Histories
variable {calendar : Calendar} {host : Host}

/-- Every write keeps the tables valid. -/
theorem SpendWrite.valid {step : SpendStep} {s' : SpendStore}
    (h : SpendWrite calendar host step s s') (hs : s.Valid) : s'.Valid := by
  cases h with
  | nothing => exact hs
  | attempt hl hca hfr ha hi =>
    refine insertAttempt_valid hs hfr rfl ?_ ?_ hi
    · exact fun spend hp => (checkLiability_ok hl hp).1
    · intro row hr
      obtain ⟨cap, -, rfl⟩ := mem_map.mp hr
      rfl
  | ending _ hv => exact (finalize_eq_self hs hv _ _).symm ▸ hs
  | revision _ h => exact afterRevision_valid hs h _ _

/-- **The tables stay valid** in every history. -/
theorem executeSpend_valid (hs : s.Valid) (history : List SpendStep) :
    (executeSpend calendar host s history).Valid := by
  induction history generalizing s with
  | nil => exact hs
  | cons step history ih => exact ih ((commit_writes step s).valid hs)

end Histories

/-! ## The fold over accepted revisions -/

/-- An attempt's settled total by the aggregate rule: its latest snapshot's cost plus
every later delta's, all deltas when it has no snapshot. -/
def settledTotal (s : SpendStore) (attemptId : String) (fencingToken : Int) : Rat :=
  Revision.settled ((s.revisionsOf attemptId fencingToken).map UsageLedger.revision)

section Fold
variable {host : Host} {s : SpendStore} {term : ProviderBudgetTerminal} {anc : Attempt}
  {chk : CheckedTerminal} {cost : RevisionCost}

theorem revisionTotal_eq_settledTotal (hs : s.Valid) (aid : String) (fencingToken : Int) :
    (revisionTotal (s.revisionsOf aid fencingToken)).getD 0 =
      settledTotal s aid fencingToken := by
  refine Revision.total_sort ?_
  rw [map_map]
  exact pairwise_map.mpr ((hs.ordered aid fencingToken).imp ne_of_lt)

/-- A recorded delivery changes the total as the fold would. -/
theorem settledTotal_afterRevision (hs : s.Valid)
    (h : Recorded host term s anc chk cost) (now made : Instant) :
    settledTotal (afterRevision term anc chk cost now made s) term.attemptId
        term.fencingToken =
      (Revision.apply (revisionTotal (s.revisionsOf term.attemptId term.fencingToken))
        ⟨term.revisionSequence, term.revisionKind, cost.cost⟩).getD 0 := by
  have hla : ∀ r ∈ (s.revisionsOf term.attemptId term.fencingToken).map
      UsageLedger.revision, r.sequence < term.revisionSequence := by
    intro r hr
    obtain ⟨l, hl, rfl⟩ := mem_map.mp hr
    exact h.newest l hl
  rw [settledTotal, afterRevision_revisionsOf, if_pos ⟨rfl, rfl⟩, map_append]
  exact (Revision.settled_append hla _ (revisionTotal_eq_settledTotal hs _ _)).symm

/-- A sent delivery of unknown cost leaves at least the liability settled. -/
theorem liability_le_settledTotal (hs : s.Valid) (h : Recorded host term s anc chk cost)
    (now made : Instant) (hn : term.notSent = false) (hu : cost.costKnown = false)
    (hl : anc.liabilitySpend = some liab) :
    liab ≤ settledTotal (afterRevision term anc chk cost now made s)
      term.attemptId term.fencingToken := by
  have hct := (revisionCost_sound h.settles).unknown hn hu liab hl
  rw [settledTotal_afterRevision hs h, hct]
  generalize revisionTotal (s.revisionsOf term.attemptId term.fencingToken) = prior
  cases hkd : term.revisionKind with
  | snapshot => exact le_refl liab
  | delta =>
    have ht := le_max_right 0 (liab - prior.getD 0)
    change liab ≤ prior.getD 0 + max 0 (liab - prior.getD 0)
    linarith

/-- A delivery that is not recorded changes nothing. -/
theorem commit_unrecorded (calendar : Calendar) (hs : s.Valid)
    (h : ∀ anc chk cost, ¬ Recorded host term s anc chk cost)
    (now made : Instant) :
    SpendStep.commit calendar host s (.reconcile now made term) = s := by
  unfold SpendStep.commit
  split
  next s' hr =>
    cases reconcile_reconciled host hr with
    | ignored => rfl
    | ended hl => exact finalize_eq_self hs (ne_nil_of_mem hl) _ _
    | recorded hc => exact absurd hc (h _ _ _)
  · rfl

/-- Repair of an attempt that has a revision changes nothing. -/
theorem commit_repair_revised (calendar : Calendar) (hs : s.Valid)
    (hv : s.revisionsOf row.id row.fencingToken ≠ []) (now made cut : Instant) :
    SpendStep.commit calendar host s (.repair now made cut row) = s := by
  unfold SpendStep.commit
  split
  next s' hr =>
    simp only [SpendStep.run, repairExpiredAttempt] at hr
    split at hr
    · split at hr
      · exact Except.ok.inj hr ▸ finalize_eq_self hs hv _ _
      next ht =>
      -- the newest revision is there, so the attempt is not settled again
      obtain ⟨l, hl⟩ := exists_mem_of_ne_nil _ hv
      rw [← mem_sort, head?_eq_none_iff.mp ht] at hl
      cases hl
    · exact (Except.ok.inj hr).symm
  · rfl

end Fold

section Reconciliation
variable (calendar : Calendar) (host : Host)

/-- Reconciliation over these tables is a fold over accepted revisions. -/
structure ReconcilesAsFold (s : SpendStore) : Prop where
  /-- A delivery in sequence appends its revision and settles the attempt's reservations. -/
  accepted : ∀ now createdAt terminal anchor checked cost,
    Recorded host terminal s anchor checked cost → notExpired anchor terminal now = false →
      ∃ s', reconcileProviderBudget host now createdAt terminal s = .ok s' ∧
        s'.revisionsOf terminal.attemptId terminal.fencingToken =
          s.revisionsOf terminal.attemptId terminal.fencingToken ++
            [newLedgerRow anchor terminal checked cost createdAt] ∧
        ∀ row ∈ s'.reservations, row.attemptId = terminal.attemptId →
          row.fencingToken = terminal.fencingToken → row.state = .settled
  /-- A delivery under a recorded sequence changes nothing. -/
  recorded : ∀ now createdAt terminal,
    ∀ l ∈ s.revisionsOf terminal.attemptId terminal.fencingToken,
      l.revisionSequence = terminal.revisionSequence →
        SpendStep.commit calendar host s (.reconcile now createdAt terminal) = s
  /-- An older delivery is not written; one that is not recorded is rejected, unless it
  is a crash settlement, which is ignored. -/
  older : ∀ now createdAt terminal,
    ∀ l ∈ s.revisionsOf terminal.attemptId terminal.fencingToken,
      terminal.revisionSequence < l.revisionSequence →
        SpendStep.commit calendar host s (.reconcile now createdAt terminal) = s ∧
          ((∀ l' ∈ s.revisionsOf terminal.attemptId terminal.fencingToken,
              l'.revisionSequence ≠ terminal.revisionSequence) →
            terminal.reason ≠ .crashRecovery →
              ∃ e, reconcileProviderBudget host now createdAt terminal s = .error e)
  /-- The fold and the aggregate agree. -/
  total : ∀ attemptId fencingToken,
    (revisionTotal (s.revisionsOf attemptId fencingToken)).getD 0 =
      settledTotal s attemptId fencingToken
  /-- A sent delivery of unknown cost leaves at least the liability. -/
  unknown : ∀ now createdAt terminal s' l,
    reconcileProviderBudget host now createdAt terminal s = .ok s' →
      s'.ledger = s.ledger ++ [l] → terminal.notSent = false → l.costKnown = false →
        ∀ a ∈ s.attempts, a.id = terminal.attemptId → ∀ liability,
          a.liabilitySpend = some liability →
            liability ≤ settledTotal s' terminal.attemptId terminal.fencingToken
  /-- The settlement rows of a reservation give its attempt's total. -/
  mirrored : ∀ row ∈ s.reservations,
    Revision.settled ((s.settlementsOf row.id).map SpendSettlement.revision) =
      settledTotal s row.attemptId row.fencingToken
  /-- Crash recovery adds no revision to an attempt that has one. -/
  crash : ∀ now createdAt terminal, terminal.reason = .crashRecovery →
    s.revisionsOf terminal.attemptId terminal.fencingToken ≠ [] →
      SpendStep.commit calendar host s (.reconcile now createdAt terminal) = s
  repair : ∀ now createdAt cutoff row, s.revisionsOf row.id row.fencingToken ≠ [] →
    SpendStep.commit calendar host s (.repair now createdAt cutoff row) = s

variable {calendar host} in
/-- Over valid tables a reconcile is a fold. -/
theorem SpendStore.Valid.reconcilesAsFold (hs : s.Valid) :
    ReconcilesAsFold calendar host s where
  accepted now made term anc chk cost h hx := by
    refine ⟨_, reconcile_of_recorded host h hx, ?_, fun row hr ha hf => ?_⟩
    · rw [afterRevision_revisionsOf, if_pos ⟨rfl, rfl⟩]
    · obtain ⟨row', -, rfl⟩ := mem_map.mp hr
      exact settle_state ha hf
  recorded now made term l hl hq :=
    commit_unrecorded calendar hs (fun _ _ _ h => (h.newest l hl).ne hq) now made
  older now made term l hl hold := by
    have hn : ∀ anc chk cost, ¬ Recorded host term s anc chk cost :=
      fun _ _ _ h => (h.newest l hl).not_gt hold
    refine ⟨commit_unrecorded calendar hs hn now made, fun hw hc => ?_⟩
    cases hr : reconcileProviderBudget host now made term s with
    | error e => exact ⟨e, rfl⟩
    | ok s' =>
      cases reconcile_reconciled host hr with
      | ignored h => exact absurd h hc
      | ended hl' hq => exact absurd hq (hw _ hl')
      | recorded h => exact absurd h (hn _ _ _)
  total := revisionTotal_eq_settledTotal hs
  unknown now made term s' l hr hd hsen hkno a ha hid liability hlia := by
    have hgw : s'.ledger ≠ s.ledger := by simp [hd]
    cases reconcile_reconciled host hr with
    | ignored | ended => exact absurd rfl hgw
    | recorded h =>
      obtain ⟨han, hI, -⟩ := anchor_spec h.named
      obtain rfl := eq_of_attempt_id hs ha han (hid.trans hI.symm)
      obtain rfl := singleton_inj.mp (append_cancel_left hd)
      exact liability_le_settledTotal hs h now made hsen hkno hlia
  mirrored row hrow := by
    have hfl := Revision.settled_map_filled
      ((s.revisionsOf row.attemptId row.fencingToken).map UsageLedger.revision)
    rw [map_map] at hfl
    rw [hs.mirrored row hrow]
    exact hfl
  crash now made term hrs hv :=
    commit_unrecorded calendar hs (fun _ _ _ h => hv (h.crash hrs)) now made
  repair now made cutoff row hv :=
    commit_repair_revised calendar hs hv now made cutoff

/-- **Ledger reconciliation is a fold over accepted revisions**, in every history of
admissions, deliveries and repairs. -/
theorem reconcileProviderBudget_folds (history : List SpendStep) :
    ReconcilesAsFold calendar host (executeSpend calendar host .empty history) :=
  (executeSpend_valid valid_empty history).reconcilesAsFold

end Reconciliation

namespace CorrectionSample

/-- Months of a hundred milliseconds. -/
def calendar : Calendar := Calendar.ofLength 100 (by decide)

/-- A host that changes nothing. -/
def host : Host := ⟨id, id, fun _ sourceVersion _ _ => sourceVersion⟩

/-- One account with a cap. -/
def graph : SpendGraph where
  caps := [⟨"cap", "owner", .providerAccount, some "account", none, 10, "USD", 1⟩]
  models := [⟨"model", "owner", "account", true, false, true, false⟩]
  pricings := [⟨"owner", "account", "model", "v1", "USD", .active, some 0, 0, none⟩]

/-- An admission of this liability. -/
def admitted (now : Instant) (attemptId : String) (spend : Rat) : SpendStep :=
  .admission now graph (fun _ => attemptId)
    { userId := "owner", providerAccountId := "account", providerModelId := "model"
      credentialId := none, poolId := none, shareId := none, requestId := "request"
      attemptId := attemptId, fencingToken := 1
      liability := ⟨none, some (some spend), some "USD", some "v1", "billable-v1"⟩
      expiresAt := 1000 }

/-- A reported cost in the attempt's own price. -/
def usage (cost : Rat) : RawProviderUsage :=
  { inputTokens := none, outputTokens := none, cacheReadTokens := none
    cacheWriteTokens := none, reasoningTokens := none, toolTokens := none
    rawUsage := none, additionalBillableTokens := none
    authoritativeBillableTokens := none, reportedTotalTokens := none
    categoriesComplete := none, observationComplete := none
    reportedCost := some (some cost), reportedCostCurrency := none
    reportedCostPricingVersion := none, reportedCostSource := none
    calculatedCost := none, calculatedCostCurrency := none
    calculatedCostPricingVersion := none, calculatedCostSource := none
    calculatedCostConfidence := none, currency := some "USD", pricingVersion := some "v1"
    accountingVersion := "billable-v1", confidence := .reported }

/-- A complete snapshot with this usage. -/
def delivery (attemptId : String) (sequence : Int) (usage : Option RawProviderUsage) :
    ProviderBudgetTerminal :=
  { userId := "owner", providerAccountId := "account", providerModelId := "model"
    credentialId := none, poolId := none, requestId := "request"
    attemptId := attemptId, fencingToken := 1, reason := .completed, notSent := false
    sourceVersion := none, revisionSequence := sequence, revisionKind := .snapshot
    usageSource := none, observationComplete := some true, usage := usage, crashExpiredAt := none }

/-- An attempt admitted for ten that has settled at one. -/
def settledStore : SpendStore := executeSpend calendar host .empty
  [admitted 1 "first" 10, .reconcile 2 2 (delivery "first" 0 (some (usage 1)))]

/-- The next delivery reports no cost: it is recorded, and the liability counts again. -/
theorem reconcileProviderBudget_folds_unknown :
    settledTotal settledStore "first" 1 = 1 ∧
      ∃ s', reconcileProviderBudget host 3 3 (delivery "first" 1 none) settledStore = .ok s' ∧
        (s'.revisionsOf "first" 1).length = 2 ∧ 10 ≤ settledTotal s' "first" 1 := by
  have hf := reconcileProviderBudget_folds calendar host
    [admitted 1 "first" 10, .reconcile 2 2 (delivery "first" 0 (some (usage 1)))]
  obtain ⟨a, ha, hid, hl⟩ :
      ∃ a ∈ settledStore.attempts, a.id = "first" ∧ a.liabilitySpend = some 10 := by
    decide +kernel
  refine ⟨by decide +kernel, SpendStep.commit calendar host settledStore
    (.reconcile 3 3 (delivery "first" 1 none)), by decide +kernel, by decide +kernel, ?_⟩
  exact hf.unknown 3 3 (delivery "first" 1 none) _
    ⟨3, "owner", "account", "model", none, none, none, "request", "first", 1, some 10,
      some "USD", false, 1, .snapshot, "terminal-v1", .completed⟩
    (by decide +kernel) (by decide +kernel) rfl rfl a ha hid 10 hl

end CorrectionSample

end ModelProxy.Spend
