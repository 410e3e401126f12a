import ModelProxy.Comparator
import ModelProxy.HostValues
import ModelProxy.OrderedMap
import Mathlib.Algebra.Order.Ring.Rat

/-! # Weighted deficit round robin over priority classes

One pick of the scheduler (`scheduleWeightedDeficitRoundRobin`): candidates are
queued per class in FIFO order, empty classes lose their deficit, and the first
class from the cursor with a candidate spends one unit of its deficit, refilled
from its quantum when it is used up.

Candidates are objects of the host language, compared by identity when the
planner looks its winner up.  The scheduler here is generic in the type of the
objects (`view` reads one as a candidate), so the winner it returns *is* one of
the objects it was given.
-/
namespace ModelProxy.Capacity
open List OrderedMap Comparator

/-- A `RangeError` of the host language. -/
structure RangeError where
  message : String
deriving DecidableEq, Repr

/-- Priority classes, in rank order. -/
inductive PriorityClass
  | background
  | normal
  | high
deriving DecidableEq, Repr

/-- The rank that hot-path rows store. -/
def priorityClassRank : PriorityClass → Int
  | .background => 0
  | .normal => 1
  | .high => 2

/-- PRIORITY_CLASS_COUNT -/
def priorityClassCount : Nat := 3

/-- The rank of the class of a request that names no other. -/
def normalPriorityRank : Int := 1

/-- SCHEDULER_VERSION -/
def schedulerVersion : Int := 2

/-- Quanta by class rank. -/
def defaultPriorityQuanta : List Rat := [1, 4, 16]

/-- A priority is the rank of a class. -/
def assertPriority (priority : Int) : Except RangeError Int :=
  if priority < 0 ∨ priority ≥ priorityClassCount then
    .error ⟨"Admission priority must be a class rank from 0 through 2."⟩
  else .ok priority

/-- What the scheduler reads of a waiter. -/
structure SchedulerCandidate where
  admissionRequestId : String
  waiterId : String
  candidateOrder : Int
  priority : Int
  enqueueSequence : Int
  eligible : Bool
deriving DecidableEq, Repr

/-- Where the scheduler stands. -/
structure SchedulerState where
  cursor : Int
  deficits : List Rat
  version : Int
deriving DecidableEq, Repr

/-- A pick: the winner, if a class has a candidate, and the next state. -/
structure SchedulerDecision (α : Type) where
  winner : Option α
  state : SchedulerState

/-- FIFO by durable enqueue sequence, then request id, candidate order and waiter
id.  `localeCompare` is the runtime's collation. -/
def compareSchedulerCandidates (localeCompare : Comparator String)
    (a b : SchedulerCandidate) : Int :=
  if a.enqueueSequence ≠ b.enqueueSequence then
    (if a.enqueueSequence < b.enqueueSequence then -1 else 1)
  else if localeCompare.cmp a.admissionRequestId b.admissionRequestId ≠ 0 then
    localeCompare.cmp a.admissionRequestId b.admissionRequestId
  else if a.candidateOrder - b.candidateOrder ≠ 0 then a.candidateOrder - b.candidateOrder
  else localeCompare.cmp a.waiterId b.waiterId

/-- The comparison is consistent whenever the collation is. -/
def fifo (localeCompare : Comparator String) : Comparator SchedulerCandidate :=
  (Comparator.sign.comap (·.enqueueSequence)).thenBy
    ((localeCompare.comap (·.admissionRequestId)).thenBy
      ((Comparator.difference.comap (·.candidateOrder)).thenBy
        (localeCompare.comap (·.waiterId))))

theorem fifo_cmp (localeCompare : Comparator String) (a b : SchedulerCandidate) :
    (fifo localeCompare).cmp a b = compareSchedulerCandidates localeCompare a b := by
  simp only [fifo, thenBy, comap, sign, difference, compareSchedulerCandidates]
  by_cases h : a.enqueueSequence = b.enqueueSequence
  · by_cases hr : localeCompare.cmp a.admissionRequestId b.admissionRequestId = 0 <;>
      by_cases hc : a.candidateOrder - b.candidateOrder = 0 <;> simp [h, hr, hc]
  · by_cases hlt : a.enqueueSequence < b.enqueueSequence <;> simp [h, hlt]

/-- A state and quanta the scheduler takes. -/
def validateScheduler (state : SchedulerState) (quanta : List Rat) : Except RangeError Unit :=
  if state.cursor < 0 ∨ state.cursor ≥ priorityClassCount then
    .error ⟨"Scheduler cursor is invalid."⟩
  else if state.deficits.length ≠ priorityClassCount ∨ quanta.length ≠ priorityClassCount then
    .error ⟨"Scheduler arrays must contain 3 priority classes."⟩
  else if quanta.any (fun quantum => quantum.den ≠ 1 ∨ quantum ≤ 0) then
    .error ⟨"Every scheduler quantum must be a positive integer."⟩
  else .ok ()

section Schedule
variable {α : Type} (localeCompare : Comparator String) (view : α → SchedulerCandidate)

/-- Puts an eligible candidate at the end of its class's queue. -/
def enqueue (queues : OrderedMap Int (List α)) (candidate : α) :
    Except RangeError (OrderedMap Int (List α)) := do
  let priority ← assertPriority (view candidate).priority
  if (view candidate).eligible then
    pure (queues.set priority ((queues.get priority).getD [] ++ [candidate]))
  else pure queues

/-- The candidates by class, in the order they were given. -/
def classQueues (candidates : List α) : Except RangeError (OrderedMap Int (List α)) :=
  candidates.foldlM (enqueue view) OrderedMap.empty

/-- Every queue sorted. -/
def sortQueues (queues : OrderedMap Int (List α)) : OrderedMap Int (List α) :=
  queues.mapValues ((fifo localeCompare).comap view).sort

/-- A class without a queue loses its deficit. -/
def resetDeficits (has : Int → Bool) (deficits : List Rat) : List Rat :=
  (List.range priorityClassCount).foldl (fun deficits (priority : Nat) =>
    if has priority then deficits else deficits.set priority 0) deficits

/-- A class refills only after it has spent its prior quantum. -/
def refill (quanta deficits : List Rat) (index : Nat) : List Rat :=
  if deficits.getD index 0 < 1 then deficits.set index (quanta.getD index 0) else deficits

/-- A class spends one unit. -/
def spend (deficits : List Rat) (index : Nat) : List Rat :=
  deficits.set index (deficits.getD index 0 - 1)

/-- The visiting loop, with `left` classes still to visit.  `head` is the first
candidate of a class's queue, if it has one. -/
def visitClasses (head : Int → Option α) (cursor : Int) (quanta : List Rat) :
    (left : Nat) → (deficits : List Rat) → SchedulerDecision α
  | 0, deficits => ⟨none, ⟨cursor, deficits, schedulerVersion⟩⟩
  | left + 1, deficits =>
    let priority := (cursor + (priorityClassCount - (left + 1) : Nat)) % priorityClassCount
    match head priority with
    | none => visitClasses head cursor quanta left deficits
    | some candidate =>
      let refilled := refill quanta deficits priority.toNat
      if refilled.getD priority.toNat 0 < 1 then visitClasses head cursor quanta left refilled
      else
        let spent := spend refilled priority.toNat
        ⟨some candidate,
          ⟨if spent.getD priority.toNat 0 ≥ 1 then priority
            else (priority + 1) % priorityClassCount,
            spent, schedulerVersion⟩⟩

/-- One call of the scheduler. -/
def scheduleWeightedDeficitRoundRobin (candidates : List α) (state : SchedulerState)
    (quanta : List Rat) : Except RangeError (SchedulerDecision α) := do
  validateScheduler state quanta
  let queues := sortQueues localeCompare view (← classQueues view candidates)
  pure (visitClasses (fun p => (queues.get p).bind List.head?) state.cursor quanta
    priorityClassCount (resetDeficits queues.has state.deficits))

/-! ### A pick sees only the head of each class -/

/-- The class's queue: its eligible candidates in FIFO order. -/
def classQueue (candidates : List α) (priority : Int) : List α :=
  ((fifo localeCompare).comap view).sort
    (candidates.filter (fun c => (view c).eligible && (view c).priority == priority))

/-- The head of the class's queue. -/
def classHead (candidates : List α) (priority : Int) : Option α :=
  (classQueue localeCompare view candidates priority).head?

/-- The rank of one of the classes. -/
def IsRank (priority : Int) : Prop := 0 ≤ priority ∧ priority < priorityClassCount

instance (rank : Int) : Decidable (IsRank rank) :=
  inferInstanceAs (Decidable (_ ∧ _))

variable {priority : Int} {cands : List α} {head : Int → Option α} {quanta : List Rat}
  {state : SchedulerState} {cursor : Int}

theorem assertPriority_of_isRank (h : IsRank priority) :
    assertPriority priority = .ok priority := by
  obtain ⟨h₀, h₁⟩ := h
  exact if_neg (by omega)

theorem assertPriority_of_not_isRank (h : ¬ IsRank priority) :
    assertPriority priority =
      .error ⟨"Admission priority must be a class rank from 0 through 2."⟩ := by
  unfold IsRank at h
  exact if_pos (by omega)

section Queues
variable {view}

theorem enqueue_get (qs : OrderedMap Int (List α)) (cand : α)
    (hem : ∀ p, qs.get p ≠ some []) (h : IsRank (view cand).priority) :
    ∃ qs', enqueue view qs cand = .ok qs' ∧ (∀ p, qs'.get p ≠ some []) ∧
      ∀ p, (qs'.get p).getD [] = (qs.get p).getD [] ++
        [cand].filter (fun c => (view c).eligible && (view c).priority == p) := by
  simp only [enqueue, assertPriority_of_isRank h]
  cases he : (view cand).eligible with
  | false => exact ⟨qs, rfl, hem, fun p => by simp [he]⟩
  | true =>
    refine ⟨_, rfl, fun p => ?_, fun p => ?_⟩ <;>
      by_cases hp : (view cand).priority = p
    · simp [hp]
    · simpa [get_set, hp] using hem p
    · simp [he, hp]
    · simp [get_set, he, hp]

theorem classQueues_of_ranks : ∀ (cands : List α) (queues : OrderedMap Int (List α)),
    (∀ p, queues.get p ≠ some []) → (∀ c ∈ cands, IsRank (view c).priority) →
    ∃ qs', cands.foldlM (enqueue view) queues = .ok qs' ∧
      (∀ p, qs'.get p ≠ some []) ∧
      ∀ p, (qs'.get p).getD [] = (queues.get p).getD [] ++
        cands.filter (fun c => (view c).eligible && (view c).priority == p)
  | [], queues, he, _ => ⟨queues, rfl, he, fun p => by simp⟩
  | c :: cands, queues, he, h => by
    obtain ⟨first, hf, hne, hg⟩ := enqueue_get queues c he (h c mem_cons_self)
    obtain ⟨final, hn, hs, hge⟩ := classQueues_of_ranks cands first hne
      (fun d hd => h d (mem_cons_of_mem c hd))
    refine ⟨final, ?_, hs, fun p => ?_⟩
    · rw [foldlM_cons, hf]
      exact hn
    · rw [hge, hg, append_assoc, ← filter_append, singleton_append]

/-- A bad rank is refused. -/
theorem classQueues_error : ∀ (cands : List α) (queues : OrderedMap Int (List α)),
    (∀ p, queues.get p ≠ some []) → (∃ c ∈ cands, ¬ IsRank (view c).priority) →
    cands.foldlM (enqueue view) queues =
      .error ⟨"Admission priority must be a class rank from 0 through 2."⟩
  | [], _, _, h => by simp at h
  | c :: cands, queues, he, h => by
    rw [foldlM_cons]
    by_cases hc : IsRank (view c).priority
    · obtain ⟨first, hf, hne, -⟩ := enqueue_get queues c he hc
      rw [hf]
      refine classQueues_error cands first hne ?_
      obtain ⟨d, hd, hrn⟩ := h
      rcases mem_cons.mp hd with rfl | hd
      · exact absurd hc hrn
      · exact ⟨d, hd, hrn⟩
    · simp only [enqueue, assertPriority_of_not_isRank hc]
      rfl

end Queues

/-- One pick, from the heads of the classes' queues. -/
def pick (head : Int → Option α) (state : SchedulerState) (quanta : List Rat) :
    SchedulerDecision α :=
  visitClasses head state.cursor quanta priorityClassCount
    (resetDeficits (fun p => (head p).isSome) state.deficits)

/-- **A pick sees only the head of each class.** -/
theorem schedule_of_ranks (h : ∀ c ∈ cands, IsRank (view c).priority)
    (state : SchedulerState) (quanta : List Rat) :
    scheduleWeightedDeficitRoundRobin localeCompare view cands state quanta =
      (validateScheduler state quanta).map
        (fun _ => pick (classHead localeCompare view cands) state quanta) := by
  obtain ⟨qs, hqs, hne, hg⟩ :=
    classQueues_of_ranks cands empty (by simp) h
  have hh : (fun p => ((sortQueues localeCompare view qs).get p).bind head?) =
      classHead localeCompare view cands := by
    funext p
    have hp := hg p
    simp only [get_empty, Option.getD_none, nil_append] at hp
    rw [sortQueues, get_mapValues, classHead, classQueue, ← hp]
    cases qs.get p <;> rfl
  have hha : (sortQueues localeCompare view qs).has =
      fun p => (classHead localeCompare view cands p).isSome := by
    funext p
    simp only [← hh, has, sortQueues, get_mapValues]
    cases hq : qs.get p with
    | none => rfl
    | some queue =>
      have hl := (((fifo localeCompare).comap view).sort_perm queue).length_eq
      cases hs : ((fifo localeCompare).comap view).sort queue with
      | nil =>
        rw [hs, length_nil, eq_comm, length_eq_zero_iff] at hl
        exact absurd (hl ▸ hq) (hne p)
      | cons c rest => simp [hs]
  unfold scheduleWeightedDeficitRoundRobin
  cases validateScheduler state quanta with
  | error e => rfl
  | ok _ =>
    change (cands.foldlM (enqueue view) empty >>= _) = _
    rw [hqs]
    change Except.ok (visitClasses _ _ _ _ (resetDeficits _ _)) = Except.ok (pick _ _ _)
    rw [hh, hha, pick]

/-- A candidate outside the classes fails the whole pick. -/
theorem schedule_error (h : ∃ c ∈ cands, ¬ IsRank (view c).priority) (state : SchedulerState)
    (quanta : List Rat) :
    scheduleWeightedDeficitRoundRobin localeCompare view cands state quanta =
      (validateScheduler state quanta).bind
        (fun _ => .error ⟨"Admission priority must be a class rank from 0 through 2."⟩) := by
  unfold scheduleWeightedDeficitRoundRobin classQueues
  rw [classQueues_error cands empty (by simp) h]
  rfl

/-- Two candidate lists with the same heads and no candidate outside the classes, or
both with one, are picked from alike. -/
theorem schedule_congr {candidates' : List α} (hr : (∀ c ∈ cands, IsRank (view c).priority) ↔
      ∀ c ∈ candidates', IsRank (view c).priority)
    (hh : ∀ p, classHead localeCompare view cands p =
      classHead localeCompare view candidates' p) (state : SchedulerState) (quanta : List Rat) :
    scheduleWeightedDeficitRoundRobin localeCompare view cands state quanta =
      scheduleWeightedDeficitRoundRobin localeCompare view candidates' state quanta := by
  by_cases h : ∀ c ∈ cands, IsRank (view c).priority
  · rw [schedule_of_ranks localeCompare view h, schedule_of_ranks localeCompare view (hr.mp h),
      funext hh]
  · have h' := mt hr.mpr h
    push Not at h h'
    rw [schedule_error localeCompare view h, schedule_error localeCompare view h']

/-! ### Well-formed states -/

/-- The cursor is a class, and every class has a deficit. -/
structure SchedulerState.WellFormed (state : SchedulerState) : Prop where
  cursor : IsRank state.cursor
  deficits : state.deficits.length = priorityClassCount

/-- Every class has a quantum, a positive integer. -/
structure ValidQuanta (quanta : List Rat) : Prop where
  length : quanta.length = priorityClassCount
  positive : ∀ q ∈ quanta, q.den = 1 ∧ 0 < q

/-- What the check accepts. -/
theorem validateScheduler_iff :
    validateScheduler state quanta = .ok () ↔ state.WellFormed ∧ ValidQuanta quanta := by
  unfold validateScheduler
  constructor
  · intro h
    split at h
    · cases h
    split at h
    · cases h
    split at h
    · cases h
    next hc hl hq =>
      exact ⟨⟨⟨by omega, by omega⟩, by omega⟩, by omega, by simpa using hq⟩
  · rintro ⟨⟨⟨hw, hhi⟩, hn⟩, hle, hq⟩
    rw [if_neg (by omega), if_neg (by omega), if_neg (by simpa using hq)]

theorem ValidQuanta.one_le (h : ValidQuanta quanta) {i : Nat}
    (hi : i < priorityClassCount) : 1 ≤ quanta.getD i 0 := by
  have hl : i < quanta.length := h.length ▸ hi
  obtain ⟨hd, hp⟩ := h.positive _ (getElem_mem hl)
  rw [getD_eq_getElem?_getD, getElem?_eq_getElem hl, Option.getD_some]
  -- a positive quantum that is an integer is at least one
  have hn : 0 < quanta[i].num := Rat.num_pos.mpr hp
  rw [← Rat.coe_int_num_of_den_eq_one hd]
  exact_mod_cast hn

/-! ### What a pick returns -/

/-- The class a pick visits after `visited` others. -/
def classAt (cursor : Int) (visited : Nat) : Int := (cursor + visited) % priorityClassCount

theorem classAt_isRank (cursor : Int) (seen : Nat) : IsRank (classAt cursor seen) :=
  ⟨Int.emod_nonneg _ (by decide), Int.emod_lt_of_pos _ (by decide)⟩

theorem exists_classAt (cursor : Int) (h : IsRank priority) :
    ∃ seen < priorityClassCount, classAt cursor seen = priority := by
  obtain ⟨hl, hhi⟩ := h
  refine ⟨((priority - cursor) % priorityClassCount).toNat, ?_, ?_⟩ <;>
    simp only [classAt, priorityClassCount] at * <;> omega

/-- The class wins with what it has left: it keeps the cursor while it can spend. -/
def won (w : α) (priority : Int) (spent : List Rat) : SchedulerDecision α :=
  ⟨some w, ⟨if spent.getD priority.toNat 0 ≥ 1 then priority
    else (priority + 1) % priorityClassCount, spent, schedulerVersion⟩⟩

/-- A refilled class can spend. -/
theorem one_le_refill (hq : ValidQuanta quanta) {i : Nat}
    (hi : i < priorityClassCount) {ds : List Rat}
    (hl : ds.length = priorityClassCount) :
    1 ≤ (refill quanta ds i).getD i 0 := by
  unfold refill
  split
  · simpa [getD_eq_getElem?_getD, hl ▸ hi] using hq.one_le hi
  next h => exact not_lt.mp h

/-- **The first class visited that has a candidate wins.** -/
theorem visitClasses_cases (hq : ValidQuanta quanta) {deficits : List Rat}
    (hl : deficits.length = priorityClassCount) :
    ∀ {left visited : Nat}, visited + left = priorityClassCount →
      (∀ i, visited ≤ i → i < priorityClassCount → head (classAt cursor i) = none) ∧
        visitClasses head cursor quanta left deficits =
          ⟨none, ⟨cursor, deficits, schedulerVersion⟩⟩ ∨
      ∃ i w, i < priorityClassCount ∧ (∀ j, visited ≤ j → j < i → head (classAt cursor j) = none) ∧
        head (classAt cursor i) = some w ∧
        visitClasses head cursor quanta left deficits = won w (classAt cursor i)
          (spend (refill quanta deficits (classAt cursor i).toNat) (classAt cursor i).toNat)
  | 0, visited, hc => .inl ⟨fun _ _ _ => by omega, rfl⟩
  | left + 1, visited, hc => by
    have hv : priorityClassCount - (left + 1) = visited := by omega
    obtain ⟨hw, hhi⟩ := classAt_isRank cursor visited
    have hs := not_lt.mpr (one_le_refill hq
      (by omega : (classAt cursor visited).toNat < priorityClassCount) hl)
    have hcl : (cursor + visited) % priorityClassCount = classAt cursor visited := rfl
    simp only [visitClasses, hv, hcl]
    cases hh : head (classAt cursor visited) with
    | some w => exact .inr ⟨visited, w, by omega, fun _ _ _ => by omega, hh, if_neg hs⟩
    | none =>
      rcases visitClasses_cases hq hl (by omega : visited + 1 + left = _) with
        ⟨hno, hpk⟩ | ⟨i, w, hi, hno, hso, hpk⟩
      · refine .inl ⟨fun j hj hlt => ?_, hpk⟩
        rcases Nat.eq_or_lt_of_le hj with rfl | hj
        · exact hh
        · exact hno j hj hlt
      · refine .inr ⟨i, w, hi, fun j hj hlt => ?_, hso, hpk⟩
        rcases Nat.eq_or_lt_of_le hj with rfl | hj
        · exact hh
        · exact hno j hj hlt

theorem resetDeficits_length (has : Int → Bool) (ds : List Rat) :
    (resetDeficits has ds).length = ds.length := by
  unfold resetDeficits
  generalize range priorityClassCount = classes
  induction classes generalizing ds with
  | nil => rfl
  | cons p classes ih =>
    rw [foldl_cons, ih]
    split <;> simp

theorem mem_classQueue {c : α} :
    c ∈ classQueue localeCompare view cands priority ↔
      c ∈ cands ∧ (view c).eligible = true ∧ (view c).priority = priority := by
  simp [classQueue]

/-- **Spec of one pick.**  It fails on a candidate outside the classes; its winner is an
eligible candidate; and it names one whenever there is one. -/
theorem schedule_ok {dec : SchedulerDecision α}
    (h : scheduleWeightedDeficitRoundRobin localeCompare view cands state quanta = .ok dec) :
    (∀ c ∈ cands, IsRank (view c).priority) ∧
    (∀ w, dec.winner = some w → w ∈ cands ∧ (view w).eligible = true) ∧
    (dec.winner = none → ∀ c ∈ cands, (view c).eligible = false) := by
  by_cases hr : ∀ c ∈ cands, IsRank (view c).priority
  case neg =>
    push Not at hr
    rw [schedule_error localeCompare view hr] at h
    cases hv : validateScheduler state quanta <;> rw [hv] at h <;> cases h
  rw [schedule_of_ranks localeCompare view hr] at h
  cases hv : validateScheduler state quanta with
  | error e => rw [hv] at h; cases h
  | ok _ =>
    rw [hv] at h
    cases h
    obtain ⟨hs, hq⟩ := validateScheduler_iff.mp hv
    refine ⟨hr, ?_⟩
    rcases visitClasses_cases hq ((resetDeficits_length _ _).trans hs.deficits)
      (Nat.zero_add priorityClassCount) with ⟨hno, hpk⟩ | ⟨i, w, -, -, hh, hpk⟩
    · -- the class of an eligible candidate is visited, and its queue has a head
      rw [pick, hpk]
      refine ⟨nofun, fun _ c hc => ?_⟩
      by_contra he
      obtain ⟨seen, hvi, hl⟩ := exists_classAt state.cursor (hr c hc)
      have hp := hno seen (Nat.zero_le _) hvi
      rw [hl, classHead, head?_eq_none_iff] at hp
      have hin := (mem_classQueue localeCompare view).mpr
        ⟨hc, by simpa using he, (rfl : (view c).priority = _)⟩
      rw [hp] at hin
      exact not_mem_nil hin
    · rw [pick, hpk]
      refine ⟨fun w' hw => ?_, nofun⟩
      cases hw
      obtain ⟨hm, hel, -⟩ :=
        (mem_classQueue localeCompare view).mp (mem_of_mem_head? hh)
      exact ⟨hm, hel⟩

theorem refill_length (quanta ds : List Rat) (i : Nat) :
    (refill quanta ds i).length = ds.length := by
  unfold refill
  split <;> simp

/-- A pick keeps the state well formed. -/
theorem pick_wellFormed (hq : ValidQuanta quanta) (hs : state.WellFormed) :
    (pick head state quanta).state.WellFormed := by
  have hl := (resetDeficits_length (fun p => (head p).isSome) state.deficits).trans hs.deficits
  rcases visitClasses_cases hq hl (Nat.zero_add priorityClassCount) with
    ⟨-, hpk⟩ | ⟨i, w, -, -, -, hpk⟩
  · rw [pick, hpk]
    exact ⟨hs.cursor, hl⟩
  rw [pick, hpk]
  refine ⟨?_, by simp [won, spend, refill_length, hl]⟩
  unfold won
  split
  · exact classAt_isRank _ _
  · exact classAt_isRank _ 1

/-- From a well-formed state a pick among candidates of the classes succeeds, and its state is
well formed again. -/
theorem schedule_total (hs : state.WellFormed) (h : ∀ c ∈ cands, IsRank (view c).priority) :
    ∃ dec, scheduleWeightedDeficitRoundRobin localeCompare view cands state
      defaultPriorityQuanta = .ok dec ∧ dec.state.WellFormed := by
  have hq : ValidQuanta defaultPriorityQuanta := ⟨rfl, by decide⟩
  rw [schedule_of_ranks localeCompare view h, validateScheduler_iff.mpr ⟨hs, hq⟩]
  exact ⟨_, rfl, pick_wellFormed hq hs⟩

end Schedule

end ModelProxy.Capacity
