import Mathlib.Algebra.Order.Field.Rat
import Mathlib.Tactic.Linarith
import ModelProxy.ResetLedger

/-! # Evidence of evictions

A session that is continued counts once in the row of its capacity, as a hit or a miss.  The
reducer decides once for a batch whether the lifetime of the row has ended.  The statement of the
database decides it for every item again, on the row the last item left.
-/

namespace ModelProxy.KvEviction
open Js (JsString)

/-- KV_EVICTION_STEP -/
def step : ℚ := 1 / 20

/-- KV_EVICTION_MAX_CUT -/
def maxCut : ℚ := 1 / 2

/-- KV_EVICTION_RECOVERY_MS -/
def recoveryMs : ℚ := 1800000

/-- KV_EVICTION_MAX_OBSERVATIONS_PER_FLUSH -/
def maxObservationsPerFlush : ℕ := 10

/-- KV_EVICTION_SESSION_CAP -/
def sessionCap : ℕ := 16

/-- KV_EVICTION_MISS_RATIO -/
def missRatio : ℚ := 3 / 20

/-- What a cut recovers in a millisecond. -/
def decayPerMs : ℚ := maxCut / recoveryMs

/-- Whether a continuation found its cache. -/
inductive KvEvictionContinuationKind | hit | miss
  deriving DecidableEq

/-- A continuation of a flush. -/
structure Item where
  sessionId : JsString
  kind : KvEvictionContinuationKind

/-- One for a miss. -/
def Item.missInc (item : Item) : ℕ := if item.kind = .miss then 1 else 0

/-- The state of the reducer.  Instants are milliseconds.  A stored count is not negative; here it
has no upper bound, where its column is an `int4`. -/
structure State where
  cutFraction : ℚ
  observedAt : ℚ
  sessionIds : List JsString
  missCount : ℕ
  continuationCount : ℕ

/-- A row of `capacity_kv_eviction`. -/
structure Row extends State where
  userId : JsString
  expiresAt : ℚ

/-- A stored cut, within what a cut may be. -/
def boundedCut (cut : ℚ) : ℚ := min maxCut (max 0 cut)

/-- What is left of the cut: it fades at a fixed rate. -/
def effectiveKvCut (s : State) (now : ℚ) : ℚ :=
  max 0 (boundedCut s.cutFraction - decayPerMs * max 0 (now - s.observedAt))

/-- The cut is in force: not faded, and not older than the recovery. -/
def isActiveCut (s : State) (now : ℚ) : Bool :=
  0 < effectiveKvCut s now ∧ ¬recoveryMs ≤ now - s.observedAt

/-- No evidence. -/
def emptyKvEvictionState (now : ℚ) : State := ⟨0, now, [], 0, 0⟩

/-- The row, unless it has expired. -/
def liveKvEvictionState (row : Option Row) (now : ℚ) : Option Row :=
  row.filter (now < ·.expiresAt)

/-- The live row whose cut is in force, or that has none. -/
def liveOrArmedKvEvictionState (row : Option Row) (now : ℚ) : Option Row :=
  (liveKvEvictionState row now).filter fun live =>
    isActiveCut live.toState now || boundedCut live.cutFraction = 0

/-- The cut after a raise. -/
def nextCut (s : State) (now : ℚ) : ℚ :=
  if isActiveCut s now then effectiveKvCut s now + step
  else if boundedCut s.cutFraction = 0 then step else 0

/-- The body of the loop for a session that is counted. -/
def accept (now : ℚ) (s : State) (item : Item) : State :=
  let continuationCount := s.continuationCount + 1
  let missCount := s.missCount + item.missInc
  let counted :=
    { s with sessionIds := s.sessionIds ++ [item.sessionId], missCount, continuationCount }
  if item.kind = .miss ∧ 2 ≤ missCount ∧ missRatio ≤ (missCount / continuationCount : ℚ) then
    { counted with
      cutFraction := min maxCut (nextCut s now), observedAt := max s.observedAt now }
  else counted

/-- The loop over a batch: at most ten sessions count, each once. -/
def continuations (now : ℚ) : List Item → ℕ → State → State
  | [], _, s => s
  | item :: items, accepted, s =>
    if maxObservationsPerFlush ≤ accepted then s
    else if !validId item.sessionId || item.sessionId ∈ s.sessionIds
        || sessionCap ≤ s.sessionIds.length then
      continuations now items accepted s
    else continuations now items (accepted + 1) (accept now s item)

/-- What the reducer starts from. -/
def start (row : Option Row) (now : ℚ) : State :=
  (liveOrArmedKvEvictionState row now).elim (emptyKvEvictionState now) Row.toState

/-- The reducer. -/
def applyKvEvictionContinuations (row : Option Row) (items : List Item) (now : ℚ) : State :=
  continuations now items 0 (start row now)

namespace Row
variable (existing : Row) (now : ℚ)

/-- The cut that is left by now. -/
def liveCutSql : ℚ :=
  max 0 (min maxCut (max 0 existing.cutFraction)
    - decayPerMs * max 0 (now - existing.observedAt))

/-- The time since the row was written. -/
def elapsedSql : ℚ := now - existing.observedAt

/-- The misses ask for a step. -/
def shouldStepSql (missInc : ℕ) : Bool :=
  missInc = 1 ∧ 2 ≤ existing.missCount + missInc ∧ 0 < existing.continuationCount + 1 ∧
    missRatio ≤ ((existing.missCount + missInc : ℕ) / (existing.continuationCount + 1 : ℕ) : ℚ)

/-- The cut has recovered. -/
def recoveredSql : Bool :=
  0 < existing.cutFraction ∧
    (existing.liveCutSql now ≤ 0 ∨ recoveryMs ≤ existing.elapsedSql now)

/-- The row starts over. -/
def newLifetimeSql : Bool := existing.expiresAt ≤ now ∨ existing.recoveredSql now

/-- The cut after a step. -/
def nextCutSql : ℚ :=
  min maxCut
    (if 0 < existing.liveCutSql now ∧ existing.elapsedSql now < recoveryMs then
      existing.liveCutSql now + step
    else if 0 < existing.cutFraction then 0 else step)

end Row

/-- The statement, as a function of the row that conflicts. -/
def upsertKvEvictionSession (ownerId : JsString) (now : ℚ) (existing : Option Row) (item : Item) :
    Option Row :=
  match existing with
  | none => some ⟨⟨0, now, [item.sessionId], item.missInc, 1⟩, ownerId, now + recoveryMs⟩
  | some row =>
    let fresh := row.newLifetimeSql now
    let steps := row.shouldStepSql item.missInc
    if row.userId = ownerId ∧
        (fresh ∨ item.sessionId ∉ row.sessionIds ∧ row.sessionIds.length < sessionCap) then
      some
        { row with
          sessionIds := if fresh then [item.sessionId] else row.sessionIds ++ [item.sessionId]
          missCount := if fresh then item.missInc else row.missCount + item.missInc
          continuationCount := if fresh then 1 else row.continuationCount + 1
          cutFraction :=
            if fresh then 0 else if steps then row.nextCutSql now else row.cutFraction
          observedAt :=
            if fresh then now else if steps then max row.observedAt now else row.observedAt
          expiresAt := max row.expiresAt (now + recoveryMs) }
    else some row

variable {ownerId : JsString} {now : ℚ} {existing : Option Row} {row : Row} (item : Item)
  {s : State} {items : List Item}

theorem boundedCut_eq_zero {cut : ℚ} (h : 0 ≤ cut) : boundedCut cut = 0 ↔ ¬0 < cut := by
  grind [boundedCut, maxCut]

theorem isActiveCut_iff :
    isActiveCut s now ↔ 0 < effectiveKvCut s now ∧ now - s.observedAt < recoveryMs := by
  rw [isActiveCut, decide_eq_true_iff, not_le]

/-- A state whose cut is in force, or that has none. -/
def Armed (now : ℚ) (s : State) : Prop :=
  0 ≤ s.cutFraction ∧ (isActiveCut s now ∨ boundedCut s.cutFraction = 0)

theorem nextCut_pos (h : Armed now s) : 0 < nextCut s now := by
  have hp : 0 < step := by norm_num [step]
  unfold nextCut
  split_ifs with hc hz
  · linarith [(isActiveCut_iff.mp hc).1]
  · exact hp
  · exact absurd h.2 (not_or.mpr ⟨hc, hz⟩)

/-- A cut that has just been raised is in force. -/
theorem accept_armed (h : Armed now s) : Armed now (accept now s item) := by
  have hn : 0 < min maxCut (nextCut s now) := lt_min (by norm_num [maxCut]) (nextCut_pos h)
  unfold accept
  extract_lets
  split_ifs
  · refine ⟨hn.le, .inl (isActiveCut_iff.mpr ?_)⟩
    grind [effectiveKvCut, boundedCut, recoveryMs]
  · exact h

theorem start_some (h : 0 ≤ row.cutFraction) : start (some row) now =
    if row.newLifetimeSql now then emptyKvEvictionState now else row.toState := by
  have hc : row.liveCutSql now = effectiveKvCut row.toState now := rfl
  have hz := boundedCut_eq_zero h
  unfold start liveOrArmedKvEvictionState liveKvEvictionState Row.newLifetimeSql
    Row.recoveredSql isActiveCut
  grind [Row.elapsedSql]

theorem start_armed (h : ∀ row ∈ existing, 0 ≤ row.cutFraction) :
    Armed now (start existing now) := by
  unfold start
  cases hl : liveOrArmedKvEvictionState existing now with
  | none => exact ⟨le_rfl, .inr ((boundedCut_eq_zero le_rfl).mpr (lt_irrefl _))⟩
  | some row =>
    rw [liveOrArmedKvEvictionState, Option.filter_eq_some_iff, liveKvEvictionState,
      Option.filter_eq_some_iff] at hl
    exact ⟨h row hl.1.1, by simpa using hl.2⟩

theorem accept_empty : accept now (emptyKvEvictionState now) item =
    ⟨0, now, [item.sessionId], item.missInc, 1⟩ := by
  have hm : ¬2 ≤ 0 + item.missInc := by
    unfold Item.missInc
    split <;> omega
  rw [accept, if_neg fun hs => hm hs.2.1]
  simp [emptyKvEvictionState]

theorem accept_eq (h : 0 ≤ row.cutFraction) : accept now row.toState item =
    { cutFraction :=
        if row.shouldStepSql item.missInc then row.nextCutSql now else row.cutFraction
      observedAt :=
        if row.shouldStepSql item.missInc then max row.observedAt now else row.observedAt
      sessionIds := row.sessionIds ++ [item.sessionId]
      missCount := row.missCount + item.missInc
      continuationCount := row.continuationCount + 1 } := by
  have hn : row.nextCutSql now = min maxCut (nextCut row.toState now) := by
    simp only [nextCut, boundedCut_eq_zero h, isActiveCut_iff, ite_not]
    rfl
  simp only [accept, hn, Row.shouldStepSql, Item.missInc]
  grind

/-- The step: the statement leaves what the reducer makes of the item, as a row that lives on. -/
theorem upsert_step (h : ∀ row ∈ existing, row.userId = ownerId ∧ 0 ≤ row.cutFraction) :
    ∃ next : Row, upsertKvEvictionSession ownerId now existing item = some next ∧
      (next.userId = ownerId ∧ 0 ≤ next.cutFraction) ∧ start (some next) now = next.toState ∧
      next.toState = if item.sessionId ∈ (start existing now).sessionIds ∨
        sessionCap ≤ (start existing now).sessionIds.length then start existing now
        else accept now (start existing now) item := by
  have ha := accept_armed item (start_armed fun row hr => (h row hr).2 : Armed now _)
  have hw : now < now + recoveryMs := lt_add_of_pos_right _ (by norm_num [recoveryMs])
  have hl {s : State} {x : ℚ} (hs : Armed now s) (hx : now + recoveryMs ≤ x) :
      start (some ⟨s, ownerId, x⟩) now = s := by
    rw [start, liveOrArmedKvEvictionState, liveKvEvictionState,
      Option.filter_some_pos (by simpa using hw.trans_le hx),
      Option.filter_some_pos (by simpa using hs.2), Option.elim_some]
  cases existing with
  | none =>
    change Armed now (accept now (emptyKvEvictionState now) item) at ha
    rw [accept_empty] at ha
    refine ⟨_, rfl, ⟨rfl, le_rfl⟩, hl ha le_rfl, ?_⟩
    rw [← accept_empty]
    rfl
  | some row =>
    obtain ⟨ho, h0⟩ := h row rfl
    cases hf : row.newLifetimeSql now with
    | true =>
      rw [start_some h0, hf, if_pos rfl, accept_empty] at ha ⊢
      refine ⟨_, ?_, ⟨rfl, le_rfl⟩, hl ha (le_max_right row.expiresAt _), rfl⟩
      simp [upsertKvEvictionSession, hf, ho]
    | false =>
      simp only [start_some h0, hf, Bool.false_eq_true, if_false] at ha ⊢
      split_ifs with hk
      · -- a session that is known, or one too many, leaves the row as it is
        refine ⟨row, ?_, ⟨ho, h0⟩, by simp [start_some h0, hf], rfl⟩
        grind [upsertKvEvictionSession]
      · refine ⟨⟨accept now row.toState item, ownerId, _⟩, ?_, ⟨rfl, ha.1⟩,
          hl ha (le_max_right row.expiresAt _), rfl⟩
        rw [accept_eq item h0]
        grind [upsertKvEvictionSession]

/-- The columns follow the reducer over the whole batch. -/
theorem foldl_upsert {accepted : ℕ} (hne : items ≠ [])
    (h : ∀ row ∈ existing, row.userId = ownerId ∧ 0 ≤ row.cutFraction)
    (hn : accepted + items.length ≤ maxObservationsPerFlush)
    (hv : ∀ item ∈ items, validId item.sessionId) : ∃ next : Row,
    items.foldl (upsertKvEvictionSession ownerId now) existing = some next ∧
      next.toState = continuations now items accepted (start existing now) := by
  induction items generalizing existing accepted with
  | nil => contradiction
  | cons item items ih =>
    obtain ⟨next, hu, ho, hs, ht⟩ := @upsert_step ownerId now existing item h
    have hk {n : ℕ} (hn : n + items.length ≤ maxObservationsPerFlush) : ∃ last : Row,
        items.foldl (upsertKvEvictionSession ownerId now) (some next) = some last ∧
          last.toState = continuations now items n next.toState := by
      by_cases hi : items = []
      · subst hi
        exact ⟨next, rfl, rfl⟩
      · rw [← hs]
        exact ih hi (fun row hr => by cases hr; exact ho) hn (List.forall_mem_of_forall_mem_cons hv)
    rw [List.length_cons] at hn
    rw [List.foldl_cons, hu, continuations, if_neg (by omega), hv item List.mem_cons_self]
    simp only [Bool.not_true, Bool.false_or, Bool.or_eq_true, decide_eq_true_eq]
    split_ifs at ht ⊢
    · exact ht ▸ hk (by omega)
    · exact ht ▸ hk (by omega)

/-- **The statement is the reducer**: run for the items of a batch one by one, it leaves the state
the reducer computes from the row that was there. -/
theorem upserts_eq_reducer (hne : items ≠ [])
    (hrow : ∀ row ∈ existing,
      row.userId = ownerId ∧ 0 ≤ row.cutFraction ∧ row.cutFraction ≤ maxCut)
    (hlen : items.length ≤ maxObservationsPerFlush)
    (hv : ∀ item ∈ items, validId item.sessionId) : ∃ next : Row,
    items.foldl (upsertKvEvictionSession ownerId now) existing = some next ∧
      next.toState = applyKvEvictionContinuations existing items now :=
  foldl_upsert hne (fun row hr => ⟨(hrow row hr).1, (hrow row hr).2.1⟩) (by omega) hv

/-- A second miss raises the cut, a session that is known counts no more, and a hit counts. -/
theorem upserts_eq_reducer_armed :
    let row : Row := ⟨⟨0, 0, [[98]], 1, 1⟩, [], 5⟩
    let items : List Item := [⟨[97], .miss⟩, ⟨[98], .miss⟩, ⟨[99], .hit⟩]
    ∃ next : Row, items.foldl (upsertKvEvictionSession [] 3) (some row) = some next ∧
      next.toState = applyKvEvictionContinuations (some row) items 3 ∧
      next.cutFraction = step ∧ next.missCount = 2 ∧ next.continuationCount = 3 := by
  intro row items
  obtain ⟨next, hn, hs⟩ := @upserts_eq_reducer [] 3 (some row) items (by simp [items])
    (by simp [row, maxCut]) (by decide) (by decide)
  refine ⟨next, hn, hs, ?_⟩
  rw [hs]
  decide +kernel

end ModelProxy.KvEviction
