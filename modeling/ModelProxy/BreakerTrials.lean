import Mathlib.Data.List.Nodup
import Mathlib.Logic.Relation
import ModelProxy.TargetBreaker

/-! # Trials of a target under every interleaving

Requests and probes share one target: each claims its trial, or calls without one, one statement
of the database at a time, while the clock goes on.  A call takes its time at its first statement
and keeps it over its later ones.

A trial is fenced by its time, so two claims at one time are one fence.  A failure that was read
long ago may make a target due again at once; a claim, a lost node, such a failure and a second
claim within one millisecond leave two holders of the same trial, and the first ends the trial of
the second (`two_trials_after_tie`).  Claims that differ in time never share a trial
(`one_trial_of_apart`).
-/
namespace ModelProxy.Breaker
open List

/-! ## The system -/

/-- Who claims the trial. -/
inductive Claimant
  | request (allowDegradedFallback : Bool)
  | probe

/-- The call of a claim, which gives the time of the trial. -/
def Claimant.call (now : ℤ) : Claimant → Call (Option ℤ)
  | .request allowDegradedFallback => do
    let count ← markTargetHalfOpenTrial allowDegradedFallback now
    return if count = 1 then some now else none
  | .probe => claimTargetRecoveryTrial now

/-- The other calls of requests and probes. -/
inductive Outcome
  | failed (failure : RelayFailureClass)
  | success
  | settle (healthy : Bool)
  | abandon
  | giveBack
  | release

/-- The call of an outcome, for a party with a trial or without one. -/
def Outcome.call (now : ℤ) : Outcome → Option ℤ → Option (Call Unit)
  | .failed failure, trial => some (discard (recordTargetRelayFailure failure trial now))
  | .success, trial => some (markTargetRelaySuccess trial now)
  | .settle healthy, some trial => some (discard (settleTargetRecoveryTrial trial healthy now))
  | .abandon, some trial => some (discard (abandonTargetRecoveryTrial trial now))
  | .giveBack, some trial => some (returnTargetTrial trial now)
  | .release, some trial => some (discard (releaseTargetHalfOpenTrial trial))
  | _, none => none

/-- A party holds the trial it claimed until the one call that ends it. -/
inductive Party
  | idle
  | holding (trial : ℤ)
  | calling (trial : Option ℤ) (rest : Call Unit)

/-- The trial the party holds. -/
def Party.trial : Party → Option ℤ
  | .idle => none
  | .holding trial => some trial
  | .calling trial _ => trial

/-- A party whose call has `rest` to do. -/
def Party.after (trial : Option ℤ) : Call Unit → Party
  | .done _ => .idle
  | rest => .calling trial rest

/-- The row, the clock and the parties that use them. -/
structure State where
  clock : ℤ
  row : Target
  parties : ℕ → Party
  /-- The claims so far, with their times. -/
  claims : List (ℕ × ℤ)

/-- A new target, nobody at it. -/
def State.initial (clock : ℤ) : State :=
  ⟨clock, ⟨.unknown, none, 0, none, none, none⟩, fun _ => .idle, []⟩

/-- What the database does for a query, and what it answers. -/
def Query.answer : (query : Query) → Target → Target × query.Reply
  | .findUnique, row => (row, row)
  | .updateMany keeps data, row => if keeps row then (data row, (1 : ℕ)) else (row, (0 : ℕ))

/-- One statement of a call. -/
def advance {α : Type} : Call α → Target → Target × Call α
  | .done a, row => (row, .done a)
  | .act query next, row => ((query.answer row).1, next (query.answer row).2)

/-- Party `i` takes the next query of its call. -/
def State.run (s : State) (i : ℕ) (trial : Option ℤ) (call : Call Unit) : State :=
  { s with
    row := (advance call s.row).1
    parties := Function.update s.parties i (.after trial (advance call s.row).2) }

/-- What can happen next. -/
inductive Move
  | wait (ms : ℕ)
  | claim (i : ℕ) (claimant : Claimant)
  | call (i : ℕ) (outcome : Outcome)
  | next (i : ℕ)
  | nodeUnavailable (failureClass : TargetFailureClass)

/-- Whose call goes on. -/
def Move.caller : Move → Option ℕ
  | .call i _ | .next i => some i
  | _ => none

/-- One atomic step. -/
def step : Move → State → Option State
  | .wait ms, s => some { s with clock := s.clock + ms }
  | .claim i claimant, s =>
    match s.parties i, advance (claimant.call s.clock) s.row with
    | .idle, (row, .done (some trial)) =>
      some ⟨s.clock, row, Function.update s.parties i (.holding trial), (i, trial) :: s.claims⟩
    | .idle, (row, _) => some { s with row }
    | _, _ => none
  | .call i outcome, s =>
    match s.parties i with
    | .calling _ _ => none
    | party => (outcome.call s.clock party.trial).map (s.run i party.trial)
  | .next i, s =>
    match s.parties i with
    | .calling trial call => some (s.run i trial call)
    | _ => none
  | .nodeUnavailable failureClass, s =>
    some { s with row := (advance (markTargetsForNodeUnavailable failureClass s.clock) s.row).1 }

/-! ## One trial at a time -/

/-- Some move leads from one state to the other. -/
def Steps (s s' : State) : Prop := ∃ move, step move s = some s'

/-- Any number of moves lead from one state to the other. -/
def Later : State → State → Prop := Relation.ReflTransGen Steps

/-- A state that some run comes to. -/
def Reachable (s : State) : Prop := ∃ clock, Later (.initial clock) s

/-- The claims so far differ in time. -/
def State.Apart (s : State) : Prop := (s.claims.map Prod.snd).Nodup

/-- The claim of a party succeeds. -/
def Claims (i : ℕ) (s s' : State) : Prop :=
  ∃ claimant, step (.claim i claimant) s = some s' ∧ s'.parties i = .holding s.clock

/-- Moves that may end the trial of a party: its own call, and the loss of the node. -/
def Ends (i : ℕ) (move : Move) : Prop :=
  move.caller = some i ∨ ∃ failureClass, move = .nodeUnavailable failureClass

/-- Steps in which no call of the party and no lost node writes the row. -/
def Unended (i : ℕ) : State → State → Prop := Relation.ReflTransGen fun s s' =>
  ∃ move, step move s = some s' ∧ (Ends i move → s'.row = s.row)

/-- What the breaker promises of its trials, in runs that end in a state of a kind. -/
structure OneTrial (kind : State → Prop) : Prop where
  /-- Claims less than a lease apart: the first one ended, or the node was lost. -/
  exclusive : ∀ {i j s s₁ s₂ s₃}, Reachable s → Claims i s s₁ → Unended i s₁ s₂ →
    Claims j s₂ s₃ → kind s₃ → s.clock + targetHalfOpenLeaseMs ≤ s₂.clock
  /-- Nobody else writes the row of a live claim. -/
  undisturbed : ∀ {i s s₁ s₂ s₃ move}, Reachable s → Claims i s s₁ → Unended i s₁ s₂ →
    s₂.clock < s.clock + targetHalfOpenLeaseMs → step move s₂ = some s₃ → kind s₃ →
    Ends i move ∨ s₃.row = s₂.row
  /-- Once the target is claimed again, the holder of an earlier trial writes nothing. -/
  fenced : ∀ {i j s s₁ s₂ s₃ s₄ s₅ move}, Reachable s → Claims i s s₁ → Later s₁ s₂ →
    Claims j s₂ s₃ → Later s₃ s₄ → (s₄.parties i).trial = some s.clock → move.caller = some i →
    step move s₄ = some s₅ → kind s₅ → s₅.row = s₄.row
  /-- A target that is not closed becomes due for a request with degraded fallback. -/
  recovers : ∀ {s}, Reachable s → targetBreakerState s.row s.clock ≠ .closed →
    ∃ time, s.clock ≤ time ∧ targetHalfOpenClaimableWhere time true s.row = true

/-! ## What a call may write -/

/-- Every statement a call can issue is of a kind. -/
def Issues {α : Type} (P : Query → Prop) : Call α → Prop
  | .done _ => True
  | .act query next => P query ∧ ∀ reply, Issues P (next reply)

theorem Issues.bind {α β : Type} {P : Query → Prop} {call : Call α} {f : α → Call β}
    (h : Issues P call) (hf : ∀ a, Issues P (f a)) : Issues P (call >>= f) := by
  induction call with
  | done a => exact hf a
  | act query next ih => exact ⟨h.1, fun reply => ih reply (h.2 reply)⟩

/-- A target that cools down is due some time. -/
def Recoverable (row : Target) : Prop :=
  row.health = .degraded ∨ row.health = .unhealthy → row.nextRetryAt ≠ none

/-- A party with a trial writes the row of that trial; one without writes where none is live. -/
def Allowed (clock : ℤ) (trial : Option ℤ) (row : Target) : Prop :=
  match trial with
  | some trial => trialWhere trial row = true
  | none => targetNoTrialInFlightWhere clock row = true

/-- An update that is allowed wherever it applies from a time on, and leaves no trial. -/
def Fenced (now : ℤ) (trial : Option ℤ) : Query → Prop
  | .findUnique => True
  | .updateMany keeps data => ∀ row, keeps row = true →
      (∀ clock, now ≤ clock → Allowed clock trial row) ∧
      (data row).halfOpenTrialStartedAt = none ∧ Recoverable (data row)

variable {clock now : ℤ} {row : Target}

section Fences
variable {now trial : ℤ} {held : Option ℤ} {α : Type} {row : Target}

theorem issues_update {keeps : Target → Bool} {data : Target → Target} {f : ℕ → Call α}
    (h : Fenced now held (.updateMany keeps data)) (hf : ∀ n, Issues (Fenced now held) (f n)) :
    Issues (Fenced now held) (updateMany keeps data >>= f) := ⟨h, hf⟩

/-- The fence of an outcome holds on, as a lease that ran out stays so. -/
theorem allowed_of_fence (h : targetOutcomeFence held now row = true) (clock : ℤ)
    (hc : now ≤ clock) : Allowed clock held row := by
  cases held with
  | some trial => exact h
  | none =>
    simp only [Allowed, targetOutcomeFence, targetNoTrialInFlightWhere, Bool.or_eq_true] at h ⊢
    refine h.imp_right ?_
    cases row.halfOpenTrialStartedAt with
    | none => exact id
    | some started =>
      intro hl
      exact decide_eq_true (Int.le_trans (of_decide_eq_true hl) (Int.sub_le_sub_right hc _))

theorem returnTargetTrial_fenced :
    Issues (Fenced now (some trial)) (returnTargetTrial trial now) := by
  refine ⟨trivial, fun target => issues_update (fun row hr => ?_) fun _ => trivial⟩
  exact ⟨fun _ _ => hr, rfl, fun _ => Option.some_ne_none _⟩

theorem releaseTargetHalfOpenTrial_fenced :
    Issues (Fenced now (some trial)) (releaseTargetHalfOpenTrial trial) := by
  refine issues_update (fun row hr => ⟨fun _ _ => hr, rfl, ?_⟩) fun _ => trivial
  simp [Recoverable, (trialWhere_iff.mp hr).1]

/-- Recording a failure writes only under its own trial. -/
theorem failureAttempts_fenced (failureClass : TargetFailureClass) (attempts : ℕ) :
    Issues (Fenced now held) (failureAttempts failureClass held now attempts) := by
  induction attempts with
  | zero => trivial
  | succ attempts ih =>
    refine ⟨trivial, fun target => ?_⟩
    show Issues _ (if _ then _ else _)
    split
    next hoe =>
      refine issues_update (fun row hr => ?_) fun count => ?_
      · refine ⟨allowed_of_fence ?_, rfl, fun _ => Option.some_ne_none _⟩
        simp only [Bool.and_eq_true, decide_eq_true_eq] at hr
        obtain ⟨⟨⟨hh, hsr⟩, -⟩, hf⟩ := hr
        cases held with
        | none => exact hf
        | some trial =>
          obtain ⟨hha, ht⟩ := trialWhere_iff.mp (trialHeldBy_iff.mp hoe)
          exact trialWhere_iff.mpr ⟨hh.trans hha, hsr.trans ht⟩
      · show Issues _ (if _ then _ else _)
        split
        · trivial
        · exact ih
    next => trivial

theorem recordTargetRelayFailure_fenced (failure : RelayFailureClass) :
    Issues (Fenced now held) (recordTargetRelayFailure failure held now) := by
  unfold recordTargetRelayFailure
  split
  · cases held with
    | none => trivial
    | some trial => exact returnTargetTrial_fenced.bind fun _ => trivial
  · cases held with
    | none => trivial
    | some trial => exact releaseTargetHalfOpenTrial_fenced.bind fun _ => trivial
  · exact failureAttempts_fenced _ _

/-- Recording an outcome writes only under its own trial. -/
theorem outcome_fenced {outcome : Outcome} {call : Call Unit}
    (h : outcome.call now held = some call) : Issues (Fenced now held) call := by
  have hd {α : Type} {call : Call α} (h : Issues (Fenced now held) call) :
      Issues (Fenced now held) (discard call) := h.bind fun _ => trivial
  unfold Outcome.call at h
  split at h <;> cases h
  · exact hd (recordTargetRelayFailure_fenced _)
  · exact issues_update (fun row hr => ⟨allowed_of_fence hr, rfl, nofun⟩) fun _ => trivial
  next he trial =>
    refine hd ⟨trivial, fun target => ?_⟩
    show Issues _ (if _ then _ else _)
    split
    · refine issues_update (fun row hr => ⟨fun _ _ => hr, ?_⟩) fun _ => trivial
      cases he with
      | true => exact ⟨rfl, nofun⟩
      | false => exact ⟨rfl, fun _ => Option.some_ne_none _⟩
    · trivial
  · refine hd (issues_update (fun row hr => ?_) fun _ => trivial)
    exact ⟨fun _ _ => hr, rfl, fun _ => Option.some_ne_none _⟩
  · exact returnTargetTrial_fenced
  · exact hd releaseTargetHalfOpenTrial_fenced

/-- One statement of a call whose updates are fenced. -/
theorem advance_fenced {call : Call α} (h : Issues (Fenced now held) call) (hc : now ≤ clock)
    (row : Target) :
    Issues (Fenced now held) (advance call row).2 ∧ ((advance call row).1 = row ∨
      Allowed clock held row ∧ (advance call row).1.halfOpenTrialStartedAt = none ∧
        Recoverable (advance call row).1) := by
  cases call with
  | done a => exact ⟨trivial, .inl rfl⟩
  | act query next =>
    refine ⟨h.2 _, ?_⟩
    cases query with
    | findUnique => exact .inl rfl
    | updateMany keeps data =>
      simp only [advance, Query.answer]
      by_cases hk : keeps row = true
      · rw [if_pos hk]
        exact .inr ((h.1 row hk).imp_left fun ha => ha clock hc)
      · rw [if_neg hk]
        exact .inl rfl

end Fences

/-! ## What a step does -/

section
variable {s s' : State} {move : Move} {i : ℕ} {trial : ℤ}

/-- A call under way is fenced from its own time on. -/
def Called (clock : ℤ) (party : Party) : Prop :=
  ∀ held call, party = .calling held call → ∃ now ≤ clock, Issues (Fenced now held) call

/-- The trials are of claims, the calls are fenced, and the target is due some time. -/
structure Inv (s : State) : Prop where
  trials : ∀ i trial, (s.parties i).trial = some trial → (i, trial) ∈ s.claims
  fenced : ∀ i, Called s.clock (s.parties i)
  recoverable : Recoverable s.row

/-- What a step may make of the row. -/
inductive Rewrites (s : State) (move : Move) (s' : State) : Prop
  | same (same : s'.row = s.row)
  | claimed (caller : move.caller = none)
      (free : targetNoTrialInFlightWhere s.clock s.row = true)
      (claims : ∃ i, s'.claims = (i, s.clock) :: s.claims)
      (trial : trialWhere s.clock s'.row = true)
  | written (i : ℕ) (caller : move.caller = some i)
      (allowed : Allowed s.clock (s.parties i).trial s.row)
      (ended : s'.row.halfOpenTrialStartedAt = none)
  | lost (lost : ∃ failureClass, move = .nodeUnavailable failureClass)
      (ended : s'.row.halfOpenTrialStartedAt = none)

/-- What a step does. -/
structure Stepped (s : State) (move : Move) (s' : State) : Prop where
  inv : Inv s'
  clock : s.clock ≤ s'.clock
  claims : s.claims <:+ s'.claims
  row : Rewrites s move s'

theorem Stepped.apart (h : Stepped s move s') (ha : s'.Apart) : s.Apart :=
  ha.sublist (h.claims.sublist.map Prod.snd)

theorem Stepped.of_run {call : Call Unit} (hi : Inv s) (hc : move.caller = some i)
    (hn : now ≤ s.clock) (h : Issues (Fenced now (s.parties i).trial) call) :
    Stepped s move (s.run i (s.parties i).trial call) := by
  obtain ⟨hr, hw⟩ := advance_fenced h hn s.row
  refine ⟨⟨fun k trial ht => hi.trials k trial ?_, fun k => ?_, ?_⟩,
    Int.le_refl _, suffix_rfl, ?_⟩
  · by_cases hk : k = i
    · subst hk
      simp only [State.run, Function.update_self] at ht
      cases hcl : (advance call s.row).2 <;> rw [hcl] at ht
      · cases ht
      · exact ht
    · simpa only [State.run, Function.update_of_ne hk] using ht
  · by_cases hk : k = i
    · subst hk
      intro held rest hp
      simp only [State.run, Function.update_self] at hp
      cases hcl : (advance call s.row).2 <;> rw [hcl] at hp <;> cases hp
      exact ⟨now, hn, hcl ▸ hr⟩
    · simpa only [State.run, Function.update_of_ne hk] using hi.fenced k
  · exact hw.elim (fun hsm => (congrArg Recoverable hsm).mpr hi.recoverable)
      fun hwr => hwr.2.2
  · rcases hw with hsm | ⟨ha, hed, hre⟩
    · exact .same hsm
    · exact .written i hc ha hed

theorem advance_update {keeps : Target → Bool} :
    advance (updateMany keeps (claimedAt now) >>= fun count =>
      pure (if count = 1 then some now else none)) row =
      if keeps row then (claimedAt now row, .done (some now)) else (row, .done none) := by
  show ((Query.answer _ row).1, _) = _
  rw [Query.answer]
  split <;> rfl

/-- A claim is refused, or takes the trial where none is live. -/
theorem advance_claim (clm : Claimant) (now : ℤ) (row : Target) :
    advance (clm.call now) row = (row, .done none) ∨
      advance (clm.call now) row = (claimedAt now row, .done (some now)) ∧
        targetNoTrialInFlightWhere now row = true := by
  cases clm with
  | request allowDegradedFallback =>
    rw [Claimant.call, markTargetHalfOpenTrial, advance_update]
    unfold targetHalfOpenClaimableWhere targetNoTrialInFlightWhere
    cases row.health <;> grind
  | probe =>
    rw [Claimant.call, claimTargetRecoveryTrial, advance_update]
    unfold targetDueWhere targetNoTrialInFlightWhere
    cases row.health <;> grind

/-- A claim that succeeds. -/
theorem claim_cases {clm : Claimant} (h : step (.claim i clm) s = some s') :
    s.parties i = .idle ∧ (s' = s ∨ targetNoTrialInFlightWhere s.clock s.row = true ∧
      trialWhere s.clock s'.row = true ∧ s'.clock = s.clock ∧
      s'.parties = Function.update s.parties i (.holding s.clock) ∧
      s'.claims = (i, s.clock) :: s.claims) := by
  rw [step] at h
  cases hp : s.parties i <;> rw [hp] at h
  · refine ⟨rfl, ?_⟩
    rcases advance_claim clm s.clock s.row with hcl | ⟨hcl, hf⟩ <;> rw [hcl] at h
    · cases h
      exact .inl rfl
    · cases h
      exact .inr ⟨hf, trialWhere_iff.mpr ⟨rfl, rfl⟩, rfl, rfl, rfl⟩
  · cases h
  · cases h

/-- A claim is granted or changes nothing. -/
theorem Stepped.of_claim {clm : Claimant} (hi : Inv s) (h : step (.claim i clm) s = some s') :
    Stepped s (.claim i clm) s' := by
  obtain ⟨-, rfl | ⟨hr, ht, hc, hpt, hci⟩⟩ := claim_cases h
  · exact ⟨hi, Int.le_refl _, suffix_rfl, .same rfl⟩
  refine ⟨⟨fun k trial hk => ?_, fun k => ?_, ?_⟩, hc ▸ Int.le_refl _, hci ▸ suffix_cons _ _,
    .claimed rfl hr ⟨i, hci⟩ ht⟩
  · rw [hci]
    by_cases hki : k = i
    · subst hki
      rw [hpt, Function.update_self] at hk
      cases hk
      exact mem_cons_self
    · rw [hpt, Function.update_of_ne hki] at hk
      exact mem_cons_of_mem _ (hi.trials k trial hk)
  · rw [hpt, hc]
    by_cases hki : k = i
    · subst hki
      rw [Function.update_self]
      exact nofun
    · rw [Function.update_of_ne hki]
      exact hi.fenced k
  · simp [Recoverable, (trialWhere_iff.mp ht).1]

/-- What any step can do. -/
theorem step_stepped (hi : Inv s) (h : step move s = some s') : Stepped s move s' := by
  cases move with
  | wait ms =>
    cases h
    have hc : s.clock ≤ s.clock + ms := by omega
    refine ⟨{ hi with fenced := fun k held call hp => ?_ }, hc, suffix_rfl, .same rfl⟩
    obtain ⟨now, hn, hf⟩ := hi.fenced k held call hp
    exact ⟨now, Int.le_trans hn hc, hf⟩
  | claim i clm => exact .of_claim hi h
  | call i outcome =>
    rw [step] at h
    split at h
    next => cases h
    next =>
      obtain ⟨call, hcl, rfl⟩ := Option.map_eq_some_iff.mp h
      exact .of_run hi rfl (Int.le_refl _) (outcome_fenced hcl)
  | next i =>
    rw [step] at h
    split at h
    next held call hp =>
      cases h
      obtain ⟨now, hn, hf⟩ := hi.fenced i held call hp
      have hhd : (s.parties i).trial = held := by rw [hp]; rfl
      rw [← hhd] at hf ⊢
      exact .of_run hi rfl hn hf
    next => cases h
  | nodeUnavailable failureClass =>
    cases h
    simp only [markTargetsForNodeUnavailable, updateMany, advance, Query.answer]
    split
    · exact ⟨{ hi with recoverable := fun _ => Option.some_ne_none _ }, Int.le_refl _,
        suffix_rfl, .lost ⟨failureClass, rfl⟩ rfl⟩
    · exact ⟨hi, Int.le_refl _, suffix_rfl, .same rfl⟩

/-- What every step keeps holds at every later state. -/
theorem Later.keeps {P : State → Prop} (h : Later s s') (hi : Inv s) (hs : P s)
    (hP : ∀ {s move s'}, P s → Stepped s move s' → P s') : Inv s' ∧ P s' := by
  induction h with
  | refl => exact ⟨hi, hs⟩
  | tail _ hsp ih =>
    obtain ⟨move, hmv⟩ := hsp
    have ht := step_stepped ih.1 hmv
    exact ⟨ht.inv, hP ih.2 ht⟩

theorem Reachable.inv (h : Reachable s) : Inv s := by
  obtain ⟨clock, hl⟩ := h
  exact (hl.keeps ⟨nofun, nofun, nofun⟩ trivial fun _ _ => trivial).1

end

/-! ## Claims that differ in time -/

section
variable {s s' : State} {move : Move} {i : ℕ} {trial : ℤ}

/-- A live trial is in flight. -/
theorem busy (ht : trialWhere trial row = true) (hlv : clock < trial + targetHalfOpenLeaseMs) :
    ¬ targetNoTrialInFlightWhere clock row = true := by
  unfold targetNoTrialInFlightWhere lapsedTrialCutoff
  simp [trialWhere_iff.mp ht, lte]
  omega

/-- Nobody but its claimant writes the row of a live trial. -/
theorem Stepped.undisturbed (h : Stepped s move s') (hi : Inv s) (ha : s.Apart)
    (hc : (i, trial) ∈ s.claims) (ht : trialWhere trial s.row = true)
    (hlv : s.clock < trial + targetHalfOpenLeaseMs) : Ends i move ∨ s'.row = s.row := by
  have hbu := busy ht hlv
  cases h.row with
  | same hsm => exact .inr hsm
  | claimed _ hfr => exact absurd hfr hbu
  | written k hl hw =>
    cases hhd : (s.parties k).trial <;> rw [hhd] at hw
    · exact absurd hw hbu
    · -- claims of one time are one
      cases (trialWhere_iff.mp ht).2.symm.trans (trialWhere_iff.mp hw).2
      cases inj_on_of_nodup_map ha (hi.trials k _ hhd) hc rfl
      exact .inl (.inl hl)
  | lost hls => exact .inl (.inr hls)

/-- The row has another trial than the one of a claim, or none. -/
structure Gone (i : ℕ) (trial : ℤ) (s : State) : Prop where
  claimed : (i, trial) ∈ s.claims
  gone : s.row.halfOpenTrialStartedAt ≠ some trial

/-- A trial that is over stays over. -/
theorem Gone.step (h : Gone i trial s) (hsp : Stepped s move s') (ha : s'.Apart) :
    Gone i trial s' := by
  refine ⟨hsp.claims.subset h.claimed, ?_⟩
  cases hsp.row with
  | same hsm => exact hsm ▸ h.gone
  | claimed _ _ hc ht =>
    obtain ⟨j, hc⟩ := hc
    rw [State.Apart, hc, map_cons, nodup_cons] at ha
    rw [(trialWhere_iff.mp ht).2]
    rintro ⟨⟩
    exact ha.1 (mem_map.mpr ⟨_, h.claimed, rfl⟩)
  | written _ _ _ hed => simp [hed]
  | lost _ hed => simp [hed]

/-- Its party then writes nothing. -/
theorem Gone.fenced (h : Gone i trial s) (hsp : Stepped s move s')
    (ht : (s.parties i).trial = some trial) (hc : move.caller = some i) :
    s'.row = s.row := by
  cases hsp.row with
  | same hsm => exact hsm
  | claimed hno => cases hno.symm.trans hc
  | written k hk ha =>
    cases hk.symm.trans hc
    rw [ht] at ha
    exact absurd (trialWhere_iff.mp ha).2 h.gone
  | lost hls =>
    obtain ⟨failureClass, rfl⟩ := hls
    cases hc

theorem Claims.cases (h : Claims i s s') :
    targetNoTrialInFlightWhere s.clock s.row = true ∧ trialWhere s.clock s'.row = true ∧
      s'.claims = (i, s.clock) :: s.claims := by
  obtain ⟨clm, hsp, hhl⟩ := h
  obtain ⟨hid, rfl | ⟨hf, ht, -, -, hci⟩⟩ := claim_cases hsp
  · rw [hid] at hhl
    cases hhl
  · exact ⟨hf, ht, hci⟩

theorem Claims.stepped (h : Claims i s s') (hi : Inv s) : ∃ move, Stepped s move s' := by
  obtain ⟨clm, hsp, -⟩ := h
  exact ⟨_, step_stepped hi hsp⟩

/-- A claim that nobody ended has its trial while its lease lasts. -/
theorem Claims.kept {s₁ s₂ : State} (h : Claims i s s₁) (hi : Inv s) (hu : Unended i s₁ s₂) :
    Inv s₂ ∧ (i, s.clock) ∈ s₂.claims ∧ (s₂.Apart →
      s₂.clock < s.clock + targetHalfOpenLeaseMs → trialWhere s.clock s₂.row = true) := by
  obtain ⟨-, ht, hci⟩ := h.cases
  obtain ⟨_, hs⟩ := h.stepped hi
  induction hu with
  | refl => exact ⟨hs.inv, hci ▸ mem_cons_self, fun _ _ => ht⟩
  | tail _ hsp ih =>
    obtain ⟨move, hmv, hnd⟩ := hsp
    obtain ⟨hi, hc, hr⟩ := ih
    have hs := step_stepped hi hmv
    refine ⟨hs.inv, hs.claims.subset hc, fun ha hlv => ?_⟩
    have hb := Int.lt_of_le_of_lt hs.clock hlv
    have hr := hr (hs.apart ha) hb
    have hsm := (hs.undisturbed hi (hs.apart ha) hc hr hb).elim hnd id
    exact hsm ▸ hr

end

/-- Left alone, a breaker that is not closed can be tried again. -/
theorem recovers {s : State} (h : Reachable s)
    (hop : targetBreakerState s.row s.clock ≠ .closed) :
    ∃ time, s.clock ≤ time ∧ targetHalfOpenClaimableWhere time true s.row = true := by
  refine ⟨max s.clock (max (s.row.nextRetryAt.getD 0)
    (s.row.halfOpenTrialStartedAt.getD 0 + targetHalfOpenLeaseMs)), by omega, ?_⟩
  have hd := h.inv.recoverable
  unfold Recoverable at hd
  unfold targetBreakerState at hop
  unfold targetHalfOpenClaimableWhere lapsedTrialCutoff
  cases hh : s.row.health <;> simp only [hh] at hop hd
  · exact absurd rfl hop
  · exact absurd rfl hop
  · cases s.row.halfOpenTrialStartedAt <;> simp [lte]
    omega
  all_goals
    obtain ⟨retryAt, hr⟩ := Option.ne_none_iff_exists'.mp (hd (by simp))
    simp only [hr, lte, Option.getD_some]
    grind

/-- Before the tie: party 2 has read a failure, the trial of party 0 is lost with the node, and
the failure makes the target due. -/
def beforeTie : List Move :=
  [.nodeUnavailable .staleSession, .call 2 (.failed .transport), .wait 60000,
    .claim 0 .probe, .nodeUnavailable .staleSession, .next 2]

theorem Later.of_moves {moves : List Move} {s s' : State}
    (h : moves.foldlM (fun s move => step move s) s = some s') : Later s s' := by
  induction moves generalizing s with
  | nil =>
    cases h
    exact .refl
  | cons move moves ih =>
    obtain ⟨s₁, hmv, hm⟩ := Option.bind_eq_some_iff.mp h
    exact (ih hm).head ⟨move, hmv⟩

/-- Two claims at the time 60000: the first holder ends the trial of the second, and party 3 claims
a millisecond after party 1, which has not ended its trial. -/
theorem two_trials_after_tie : ¬ OneTrial fun _ => True := by
  intro h
  have ho : ¬ Ends 1 (.call 0 .release) := by
    rintro (hc | ⟨failureClass, hls⟩)
    · cases hc
    · cases hls
  obtain ⟨s, s₁, s₂, s₃, hrc, hf, hu, hs, hc⟩ : ∃ s s₁ s₂ s₃, Reachable s ∧ Claims 1 s s₁ ∧
      Unended 1 s₁ s₂ ∧ Claims 3 s₂ s₃ ∧ s₂.clock = s.clock + 1 :=
    ⟨_, _, _, _, ⟨0, .of_moves (show beforeTie.foldlM _ _ = _ from rfl)⟩, ⟨.probe, rfl, rfl⟩,
      .tail (.single ⟨.wait 1, rfl, fun _ => rfl⟩) ⟨.call 0 .release, rfl, fun h => absurd h ho⟩,
      ⟨.request false, rfl, rfl⟩, rfl⟩
  have ha := h.exclusive hrc hf hu hs trivial
  rw [hc, targetHalfOpenLeaseMs] at ha
  omega

/-- **A target has one trial at a time where its claims differ in time.** -/
theorem one_trial_of_apart (kind : State → Prop) (hapart : ∀ s, kind s → s.Apart) :
    OneTrial kind := by
  constructor
  · intro i j s s₁ s₂ s₃ hr hc hu hcl hk
    have ha := hapart _ hk
    obtain ⟨hi, -, hw⟩ := hc.kept hr.inv hu
    obtain ⟨_, hs⟩ := hcl.stepped hi
    by_contra hl
    have hl := Int.not_le.mp hl
    exact busy (hw (hs.apart ha) hl) hl hcl.cases.1
  · intro i s s₁ s₂ s₃ move hr hc hu hl hm hk
    have ha := hapart _ hk
    obtain ⟨hi, hcl, hw⟩ := hc.kept hr.inv hu
    have hs := step_stepped hi hm
    exact hs.undisturbed hi (hs.apart ha) hcl (hw (hs.apart ha) hl) hl
  · intro i j s s₁ s₂ s₃ s₄ s₅ move hr hc hla hcl hl' htr hca hm hk
    have ha := hapart _ hk
    obtain ⟨-, -, hcm⟩ := hc.cases
    obtain ⟨_, hs⟩ := hc.stepped hr.inv
    obtain ⟨hi, hme⟩ : Inv s₂ ∧ (i, s.clock) ∈ s₂.claims :=
      hla.keeps hs.inv (hcm ▸ mem_cons_self) fun hme hs => hs.claims.subset hme
    obtain ⟨-, hw, hcm⟩ := hcl.cases
    obtain ⟨_, hs⟩ := hcl.stepped hi
    have hg : s₃.Apart → Gone i s.clock s₃ := by
      intro ha
      rw [State.Apart, hcm, map_cons, nodup_cons] at ha
      refine ⟨hcm ▸ mem_cons_of_mem _ hme, fun hsa => ha.1 ?_⟩
      rw [← Option.some.inj (hsa.symm.trans (trialWhere_iff.mp hw).2)]
      exact mem_map.mpr ⟨_, hme, rfl⟩
    obtain ⟨hi, hg⟩ := hl'.keeps (P := fun s' => s'.Apart → Gone i s.clock s') hs.inv hg
      fun hg hs ha => (hg (hs.apart ha)).step hs ha
    have hs := step_stepped hi hm
    exact (hg (hs.apart ha)).fenced hs htr hca
  · exact recovers

theorem one_trial_apart : OneTrial State.Apart := one_trial_of_apart _ fun _ h => h

end ModelProxy.Breaker
