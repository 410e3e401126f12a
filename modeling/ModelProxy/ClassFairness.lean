import Mathlib.Tactic.IntervalCases
import Mathlib.Tactic.Linarith
import ModelProxy.Scheduler

/-! # No class starves

Before a class wins, the cursor only moves towards it: the class at the cursor wins what it has
left, each class on the way at most its quantum, and one that empties gives the cursor up.  So the
others' wins before it (`lead`) are at most their quanta, whatever candidates come and go between
the calls.
-/
namespace ModelProxy.Capacity
open List

section Lead
variable {α : Type} {head : Int → Option α} {quanta : List Rat} {state : SchedulerState} {c : Int}

/-- What a class may win before it gives the cursor up. -/
def credit (quanta deficits : List Rat) (i : Nat) : Rat :=
  if deficits.getD i 0 < 1 then quanta.getD i 0 else deficits.getD i 0

/-- How often other classes may win before class `c`. -/
def lead (quanta : List Rat) (state : SchedulerState) (c : Int) : Rat :=
  if c = state.cursor then 0 else credit quanta state.deficits state.cursor.toNat +
    if c = classAt state.cursor 1 then 0 else quanta.getD (classAt state.cursor 1).toNat 0

/-- A valid state in which no class has more than its quantum. -/
structure Within (quanta : List Rat) (state : SchedulerState) : Prop
    extends state.WellFormed, ValidQuanta quanta where
  le : ∀ i, state.deficits.getD i 0 ≤ quanta.getD i 0

theorem resetDeficits_getD {ds : List Rat} (hl : ds.length = priorityClassCount)
    (has : Int → Bool) (i : Nat) :
    (resetDeficits has ds).getD i 0 = if has i then ds.getD i 0 else 0 := by
  obtain ⟨a, b, c, rfl⟩ := length_eq_three.mp hl
  cases h₀ : has 0 <;> cases h₁ : has 1 <;> cases h₂ : has 2 <;>
    rcases i with _ | _ | _ | i <;> simp [resetDeficits, priorityClassCount, range_succ, *]

/-- The class that wins has one less than its credit, one without a candidate nothing. -/
theorem spent_getD {ds : List Rat} (hl : ds.length = priorityClassCount) {has : Int → Bool}
    (hr : IsRank c) (hh : has c = true) (i : Nat) :
    (spend (refill quanta (resetDeficits has ds) c.toNat) c.toNat).getD i 0 =
      if c.toNat = i then credit quanta ds i - 1 else if has i then ds.getD i 0 else 0 := by
  have hre := resetDeficits_getD hl has
  have hn := resetDeficits_length has ds
  have hi : (c.toNat : Int) = c := Int.toNat_of_nonneg hr.1
  have hb := hr.2
  grind [spend, refill, credit]

theorem ValidQuanta.nonneg (h : ValidQuanta quanta) (i : Nat) : 0 ≤ quanta.getD i 0 := by
  by_cases hi : i < priorityClassCount
  · exact zero_le_one.trans (h.one_le hi)
  · simp [getD_eq_getElem?_getD, getElem?_eq_none (h.length ▸ not_lt.mp hi)]

namespace Within

theorem credit_le (h : Within quanta state) (i : Nat) :
    credit quanta state.deficits i ≤ quanta.getD i 0 := by
  grind [credit, h.le i]

theorem one_le_credit (h : Within quanta state) :
    1 ≤ credit quanta state.deficits state.cursor.toNat := by
  obtain ⟨hlo, hhi⟩ := h.cursor
  have hq := h.one_le (by omega : state.cursor.toNat < _)
  grind [credit]

theorem lead_nonneg (h : Within quanta state) (c : Int) : 0 ≤ lead quanta state c := by
  have ho := h.one_le_credit
  have hn := h.nonneg (classAt state.cursor 1).toNat
  grind [lead]

/-- Others lead a class by at most their own quanta. -/
theorem lead_le (h : Within quanta state) (hc : IsRank c) :
    lead quanta state c ≤ (quanta.eraseIdx c.toNat).sum := by
  have ho := h.credit_le state.cursor.toNat
  have hn := h.nonneg
  obtain ⟨hlo, hhi⟩ := h.cursor
  obtain ⟨hlc, hhc⟩ := hc
  obtain ⟨x, y, z, rfl⟩ := length_eq_three.mp h.length
  have hx := hn 0
  have hy := hn 1
  have hz := hn 2
  unfold lead
  generalize state.cursor = cursor at *
  simp only [classAt, priorityClassCount] at *
  interval_cases cursor <;> interval_cases c <;> simp at * <;> linarith

end Within

theorem classAt_classAt (cursor : Int) (i j : Nat) :
    classAt (classAt cursor i) j = classAt cursor (i + j) := by
  simp [classAt, priorityClassCount, add_assoc]

/-- **A pick lets the class win, or brings it nearer.** -/
theorem pick_near (h : Within quanta state) (hc : IsRank c) (hh : head c ≠ none) :
    ∃ p w, head p = some w ∧ (pick head state quanta).winner = some w ∧
      Within quanta (pick head state quanta).state ∧
      (p = c ∨ lead quanta (pick head state quanta).state c + 1 ≤ lead quanta state c) := by
  obtain ⟨n, hn, rfl⟩ := exists_classAt state.cursor hc
  have hwf := @pick_wellFormed _ head _ _ h.toValidQuanta h.toWellFormed
  have hl := (resetDeficits_length (fun p => (head p).isSome) state.deficits).trans h.deficits
  rcases visitClasses_cases h.toValidQuanta hl (Nat.zero_add priorityClassCount) with
    ⟨hno, -⟩ | ⟨i, w, -, hsk, hw, hpk⟩
  · exact absurd (hno n (Nat.zero_le _) hn) hh
  have hsp := @spent_getD quanta _ _ h.deficits (fun p => (head p).isSome)
    (classAt_isRank state.cursor i) (Option.isSome_of_mem hw)
  rw [pick, hpk] at hwf ⊢
  generalize spend _ _ = spent at *
  have hwi : Within quanta (won w (classAt state.cursor i) spent).state := by
    refine ⟨hwf, h.toValidQuanta, fun j => (hsp j).trans_le ?_⟩
    split
    · linarith [h.credit_le j]
    split
    · exact h.le j
    · exact h.nonneg j
  refine ⟨_, w, hw, rfl, hwi, ?_⟩
  rcases lt_trichotomy n i with hlt | rfl | hlt
  · exact absurd (hsk n (Nat.zero_le _) hlt) hh
  · exact .inl rfl
  -- the cursor stays on the winner, or moves to the next class
  obtain ⟨m, hm, hcu, hcr⟩ : ∃ m ≤ 1,
      (won w (classAt state.cursor i) spent).state.cursor = classAt state.cursor (i + m) ∧
      credit quanta spent (classAt state.cursor (i + m)).toNat ≤
        if m = 0 then credit quanta state.deficits (classAt state.cursor i).toNat - 1
        else quanta.getD (classAt state.cursor (i + 1)).toNat 0 := by
    by_cases hge : spent.getD (classAt state.cursor i).toNat 0 ≥ 1
    · have hle := (hsp _).trans (if_pos rfl)
      exact ⟨0, zero_le_one, if_pos hge, ((if_neg (not_lt.mpr hge)).trans hle).le⟩
    · exact ⟨1, le_rfl, (if_neg hge).trans (classAt_classAt ..), hwi.credit_le _⟩
  have ho := h.one_le_credit
  have ht := h.credit_le (classAt state.cursor i).toNat
  have hq := h.nonneg (classAt state.cursor i).toNat
  obtain ⟨hlo, hhi⟩ := h.cursor
  right
  rw [lead, lead, hcu, classAt_classAt]
  clear hsp hsk hh hwf hwi hw hpk hc hcu hl h
  simp only [classAt, priorityClassCount, won] at *
  generalize state.cursor = cursor at *
  interval_cases cursor <;> interval_cases n <;> interval_cases i <;> interval_cases m <;>
    simp at * <;> linarith

end Lead

/-! ## Calls one after the other -/

section Calls
variable {α : Type} (localeCompare : Comparator String) (view : α → SchedulerCandidate)

/-- The winners of calls one after the other, each from the state the one before left. -/
def scheduleCalls (quanta : List Rat) :
    List (List α) → SchedulerState → Except RangeError (List (Option α))
  | [], _ => pure []
  | candidates :: calls, state => do
    let decision ← scheduleWeightedDeficitRoundRobin localeCompare view candidates state quanta
    let winners ← scheduleCalls quanta calls decision.state
    pure (decision.winner :: winners)

/-- All candidates have a class, and one of class `c` is eligible. -/
def Waits (c : Int) (candidates : List α) : Prop :=
  (∀ x ∈ candidates, IsRank (view x).priority) ∧
    ∃ x ∈ candidates, (view x).eligible = true ∧ (view x).priority = c

/-- An eligible candidate, and no other of its class is before it. -/
structure LeastOfClass (candidates : List α) (w : α) : Prop where
  mem : w ∈ candidates
  eligible : (view w).eligible = true
  least : ∀ x ∈ candidates, (view x).eligible = true → (view x).priority = (view w).priority →
    compareSchedulerCandidates localeCompare (view w) (view x) ≤ 0

/-- One of the winners is of class `c`. -/
def Wins (c : Int) (winners : List (Option α)) : Prop :=
  ∃ w, some w ∈ winners ∧ (view w).priority = c

variable {localeCompare view} {cands : List α} {calls : List (List α)} {quanta : List Rat}
  {state : SchedulerState} {c : Int}

/-- The head of a class is its least candidate. -/
theorem leastOfClass_of_head {w : α} (h : classHead localeCompare view cands c = some w) :
    LeastOfClass localeCompare view cands w := by
  obtain ⟨hm, he, rfl⟩ := (mem_classQueue localeCompare view).mp (mem_of_mem_head? h)
  refine ⟨hm, he, fun x hx hxe hxp => ?_⟩
  obtain ⟨rest, hq⟩ := head?_eq_some_iff.mp h
  have hs := ((fifo localeCompare).comap view).sort_pairwise
    (cands.filter fun d => (view d).eligible && (view d).priority == (view w).priority)
  have hxq := (mem_classQueue localeCompare view).mpr ⟨hx, hxe, hxp⟩
  rw [← classQueue, hq] at hs
  rw [← fifo_cmp]
  rcases mem_cons.mp (hq ▸ hxq) with rfl | hxr
  · exact or_self_iff.mp (((fifo localeCompare).comap view).le_total x x)
  · exact rel_of_pairwise_cons hs hxr

/-- **One call**: the class that waits wins it or comes nearer. -/
theorem schedule_near (h : Within quanta state) (hc : IsRank c) (hw : Waits view c cands) :
    ∃ dec, scheduleWeightedDeficitRoundRobin localeCompare view cands state quanta = .ok dec ∧
      Within quanta dec.state ∧
      (∃ w, dec.winner = some w ∧ LeastOfClass localeCompare view cands w) ∧
      (Wins view c [dec.winner] ∨ lead quanta dec.state c + 1 ≤ lead quanta state c) := by
  obtain ⟨hr, x, hx, he, hp⟩ := hw
  have hh : classHead localeCompare view cands c ≠ none := fun hn =>
    ne_nil_of_mem ((mem_classQueue localeCompare view).mpr ⟨hx, he, hp⟩) (head?_eq_none_iff.mp hn)
  obtain ⟨p, w, hw, hwi, hin, hnr⟩ := pick_near h hc hh
  have hfi := leastOfClass_of_head hw
  obtain ⟨-, -, rfl⟩ := (mem_classQueue localeCompare view).mp (mem_of_mem_head? hw)
  rw [schedule_of_ranks localeCompare view hr,
    validateScheduler_iff.mpr ⟨h.toWellFormed, h.toValidQuanta⟩]
  refine ⟨_, rfl, hin, ⟨w, hwi, hfi⟩, hnr.imp_left fun hc => ⟨w, ?_, hc⟩⟩
  rw [hwi]
  exact mem_singleton_self _

/-- A class that waits through the calls wins within the bounds. -/
theorem scheduleCalls_within (h : Within quanta state) (hc : IsRank c)
    (hw : ∀ cands ∈ calls, Waits view c cands) :
    ∃ winners, scheduleCalls localeCompare view quanta calls state = .ok winners ∧
      Forall₂ (fun cands winner =>
        ∃ w, winner = some w ∧ LeastOfClass localeCompare view cands w) calls winners ∧
      (∀ ws, ws <+: winners → lead quanta state c < ws.length → Wins view c ws) ∧
      ∀ ws, ws <:+: winners → (quanta.eraseIdx c.toNat).sum < ws.length → Wins view c ws := by
  induction calls generalizing state with
  | nil =>
    have hn := h.lead_nonneg c
    have hs := hn.trans (h.lead_le hc)
    exact ⟨[], rfl, .nil, by simp [hn.not_gt], by simp [hs.not_gt]⟩
  | cons cands calls ih =>
    obtain ⟨dec, hok, hin, hfi, hnr⟩ := schedule_near h hc (hw _ mem_cons_self)
    obtain ⟨winners, hrun, hfis, hso, hwin⟩ := ih hin fun cs hcs => hw cs (mem_cons_of_mem _ hcs)
    have hso' : ∀ ws, ws <+: dec.winner :: winners → lead quanta state c < ws.length →
        Wins view c ws := by
      intro ws hws hlt
      rcases prefix_cons_iff.mp hws with rfl | ⟨rest, rfl, hre⟩
      · exact absurd hlt (h.lead_nonneg c).not_gt
      rcases hnr with ⟨w, hw, hp⟩ | hnr
      · exact ⟨w, mem_cons.mpr (.inl (mem_singleton.mp hw)), hp⟩
      · rw [length_cons, Nat.cast_succ] at hlt
        obtain ⟨w, hw, hp⟩ := hso rest hre (by linarith)
        exact ⟨w, mem_cons_of_mem _ hw, hp⟩
    refine ⟨dec.winner :: winners, ?_, .cons hfi hfis, hso', fun ws hws hlt => ?_⟩
    · rw [scheduleCalls, hok]
      change (scheduleCalls _ _ _ _ _ >>= _) = _
      rw [hrun]
      rfl
    · rcases infix_cons_iff.mp hws with hpre | hinf
      · exact hso' ws hpre ((h.lead_le hc).trans_lt hlt)
      · exact hwin ws hinf hlt

/-- **No class starves.**  From a valid state in which no class has more than its quantum, calls
whose candidates always include an eligible one of class `c` all succeed, and any run of winners one
longer than the other classes' quanta together has one of class `c`. -/
theorem scheduleCalls_fair (hvalid : validateScheduler state quanta = .ok ())
    (hle : ∀ i, state.deficits.getD i 0 ≤ quanta.getD i 0) (hc : IsRank c)
    (hwaits : ∀ candidates ∈ calls, Waits view c candidates) :
    ∃ winners, scheduleCalls localeCompare view quanta calls state = .ok winners ∧
      winners.length = calls.length ∧
      ∀ window, window <:+: winners →
        (window.length : Rat) = 1 + (quanta.eraseIdx c.toNat).sum → Wins view c window := by
  obtain ⟨hs, hq⟩ := validateScheduler_iff.mp hvalid
  obtain ⟨winners, hrun, hfi, -, hwin⟩ :=
    @scheduleCalls_within α localeCompare view calls quanta state c ⟨hs, hq, hle⟩ hc hwaits
  exact ⟨winners, hrun, hfi.length_eq.symm, fun window hw hn => hwin window hw (hn ▸ lt_one_add _)⟩

/-- **No class starves, and none is served out of turn**: every winner is the first of its class in
the order of `compareSchedulerCandidates`, and one of any `1 + quanta of the other classes` calls in
a row is won by the class that waits. -/
theorem scheduleCalls_in_turn (hvalid : validateScheduler state quanta = .ok ())
    (hle : ∀ i, state.deficits.getD i 0 ≤ quanta.getD i 0) (hc : IsRank c)
    (hwaits : ∀ candidates ∈ calls, Waits view c candidates) :
    ∃ winners, scheduleCalls localeCompare view quanta calls state = .ok winners ∧
      Forall₂ (fun candidates winner =>
        ∃ w, winner = some w ∧ LeastOfClass localeCompare view candidates w) calls winners ∧
      ∀ window, window <:+: winners →
        (window.length : Rat) = 1 + (quanta.eraseIdx c.toNat).sum → Wins view c window := by
  obtain ⟨hs, hq⟩ := validateScheduler_iff.mp hvalid
  obtain ⟨winners, hrun, hfi, -, hwin⟩ :=
    @scheduleCalls_within α localeCompare view calls quanta state c ⟨hs, hq, hle⟩ hc hwaits
  exact ⟨winners, hrun, hfi, fun window hw hn => hwin window hw (hn ▸ lt_one_add _)⟩

end Calls

/-- Background work beside a steady load of the high class. -/
theorem scheduleCalls_fair_background :
    ∃ winners, scheduleCalls (Comparator.difference.comap fun s => (s.length : Int)) id
        defaultPriorityQuanta (replicate 21 [⟨"a", "a", 0, 0, 9, true⟩, ⟨"b", "b", 0, 2, 1, true⟩])
        ⟨2, [0, 0, 0], schedulerVersion⟩ = .ok winners ∧ Wins id 0 winners := by
  refine (scheduleCalls_fair ?_ ?_ ?_ ?_).imp fun winners h =>
    ⟨h.1, h.2.2 winners infix_rfl ?_⟩
  · decide +kernel
  · rintro (_ | _ | _ | i) <;> simp [defaultPriorityQuanta]
  · decide
  · intro cs hcs
    rw [eq_of_mem_replicate hcs]
    simp [Waits, IsRank, priorityClassCount]
  · rw [h.2.1, length_replicate]
    norm_num [defaultPriorityQuanta]

/-- Background work beside two requests of the high class. -/
def mixedCall : List SchedulerCandidate :=
  [⟨"a", "a", 0, 0, 1, true⟩, ⟨"b", "b", 0, 2, 3, true⟩, ⟨"c", "c", 0, 2, 2, true⟩]

/-- A high class waits among others. -/
theorem scheduleCalls_in_turn_high :
    let collation := Comparator.difference.comap fun s : String => (s.length : Int)
    ∃ winners, scheduleCalls collation id defaultPriorityQuanta (replicate 6 mixedCall)
        ⟨0, [0, 0, 0], schedulerVersion⟩ = .ok winners ∧ Wins id 2 winners ∧
      Forall₂ (fun candidates winner => ∃ w, winner = some w ∧
        LeastOfClass collation id candidates w) (replicate 6 mixedCall) winners := by
  refine (scheduleCalls_in_turn ?_ ?_ ?_ ?_).imp fun winners h =>
    ⟨h.1, h.2.2 winners infix_rfl ?_, h.2.1⟩
  · decide +kernel
  · rintro (_ | _ | _ | i) <;> simp [defaultPriorityQuanta]
  · decide
  · intro cs hcs
    rw [eq_of_mem_replicate hcs]
    simp [Waits, IsRank, mixedCall, priorityClassCount]
  · rw [← h.2.1.length_eq, length_replicate]
    decide +kernel

end ModelProxy.Capacity
