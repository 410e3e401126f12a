import Mathlib.Data.Int.ConditionallyCompleteOrder
import Mathlib.Data.List.Perm.Subperm
import Mathlib.Order.WithBotTop
import ModelProxy.JsStrings
import ModelProxy.OrderedMap

/-! # Resets of the prefix caches

An engine that restarts has lost its prefix cache, and a miss from before says nothing about
evictions.  The ledger keeps the last reset of at most `maxResetCapacities` capacities; one
frontier stands in for all that were pruned.  A request carries the generation of its snapshot,
and asks with it for the reset it must be newer than.

The history of a ledger is the list of its resets, newest first.  `lastReset` is the ledger without
a bound, and `Stands` says how the bounded one stands in for it.
-/
namespace ModelProxy.KvEviction
open Js (JsString)

/-- MAX_RESET_CAPACITIES -/
def maxResetCapacities : ℕ := 1024

/-- A number of milliseconds, the infinities included. -/
abbrev Ms := WithBotTop ℤ

/-- When a capacity was reset, and as which of all resets. -/
structure Reset where
  ms : Ms
  generation : ℕ

/-- The resets that are remembered. -/
structure ResetLedger where
  resetAtByCapacity : OrderedMap JsString Reset
  generation : ℕ
  prunedThrough : ℕ
  prunedResetMs : Ms

/-- A call of `note`; the time is `none` where it is not finite. -/
structure Note where
  capacityIds : List JsString
  now : Option ℤ

/-- An id that is kept. -/
def validId (capacityId : JsString) : Bool := !capacityId.isEmpty && capacityId.length ≤ 128

namespace ResetLedger

/-- No reset yet. -/
def create : ResetLedger := ⟨OrderedMap.empty, 0, 0, ⊥⟩

/-- What a request remembers when it starts. -/
def snapshot (s : ResetLedger) : ℕ := s.generation

/-- The time evidence must be newer than; `none` if there was no reset. -/
def resetMs (s : ResetLedger) (capacityId : JsString) (requestGeneration : ℕ) : Option Ms :=
  let retained := s.resetAtByCapacity.get capacityId
  if requestGeneration < s.prunedThrough ∨ retained.any (requestGeneration < ·.generation) then
    some ⊤
  else
    let ms := max (retained.elim ⊥ Reset.ms) s.prunedResetMs
    if ms = ⊥ then none else some ms

/-- How many capacities are remembered. -/
def size (s : ResetLedger) : ℕ := s.resetAtByCapacity.entries.length

/-- Over the size the oldest entry goes, and the frontier moves up to it. -/
def prune (s : ResetLedger) : ResetLedger :=
  if maxResetCapacities < s.size then
    match s.resetAtByCapacity.entries with
    | [] => s
    | (capacityId, oldest) :: _ =>
      { s with
        resetAtByCapacity := s.resetAtByCapacity.delete capacityId
        prunedThrough := max s.prunedThrough oldest.generation
        prunedResetMs := max s.prunedResetMs oldest.ms }
  else s

/-- The updated key moves to the end. -/
def record (s : ResetLedger) (capacityId : JsString) (ms : ℤ) : ResetLedger :=
  let previous := s.resetAtByCapacity.get capacityId
  { s with
    resetAtByCapacity := (s.resetAtByCapacity.delete capacityId).set capacityId
      ⟨max ms (previous.elim s.prunedResetMs Reset.ms), s.generation + 1⟩
    generation := s.generation + 1 }

/-- A reset is noted. -/
def note (s : ResetLedger) (call : Note) : ResetLedger :=
  match call.now with
  | none => s
  | some ms =>
    call.capacityIds.foldl (fun s id => if validId id then (s.record id ms).prune else s) s

/-- Calls one after the other. -/
def run (calls : List Note) : ResetLedger := calls.foldl note create

end ResetLedger

/-- The resets of a list of calls, newest first. -/
def history (calls : List Note) : List (JsString × ℤ) :=
  (calls.flatMap fun call =>
    call.now.elim [] fun ms => (call.capacityIds.filter validId).map (·, ms)).reverse

/-- The reset of a capacity that a ledger without a bound keeps. -/
def lastReset (c : JsString) : List (JsString × ℤ) → Option Reset
  | [] => none
  | (k, ms) :: es =>
    if k = c then some ⟨max (ms : Ms) ((lastReset c es).elim ⊥ Reset.ms), es.length + 1⟩
    else lastReset c es

/-- No more ids were reset than the ledger has room for. -/
def FewIds (es : List (JsString × ℤ)) : Prop :=
  ∃ ids : List JsString, ids.length ≤ maxResetCapacities ∧ ∀ e ∈ es, e.1 ∈ ids

/-- What a ledger may keep, retained or behind its frontier, for the reset it should. -/
def StandsFor (s : ResetLedger) : Option Reset → Option Reset → Prop
  | some r, some full => r.generation = full.generation ∧ full.ms ≤ r.ms
  | none, some full => full.generation ≤ s.prunedThrough ∧ full.ms ≤ s.prunedResetMs
  | some _, none => False
  | none, none => True

/-- The ledger says of every capacity what the resets say. -/
structure Stands (s : ResetLedger) (es : List (JsString × ℤ)) : Prop where
  generation : s.generation = es.length
  each : ∀ c, StandsFor s (s.resetAtByCapacity.get c) (lastReset c es)
  unpruned : FewIds es → s.prunedThrough = 0 ∧ s.prunedResetMs = ⊥ ∧
    ∀ c, s.resetAtByCapacity.get c = lastReset c es

open ResetLedger OrderedMap List

variable {s : ResetLedger} {es : List (JsString × ℤ)} {c : JsString}

/-! ### The ledger without a bound -/

/-- The last reset is the greatest recorded. -/
theorem lastReset_spec (c : JsString) (es : List (JsString × ℤ)) :
    (lastReset c es = none ∧ ∀ t, (c, t) ∉ es) ∨
      ∃ gen, ∃ t : ℤ, lastReset c es = some ⟨t, gen⟩ ∧ gen ≤ es.length ∧
        IsGreatest {t | (c, t) ∈ es} t := by
  induction es with
  | nil => exact .inl ⟨rfl, by simp⟩
  | cons e es ih =>
    obtain ⟨k, ms⟩ := e
    rw [lastReset]
    split
    next hk =>
      subst hk
      rcases ih with ⟨hl, hno⟩ | ⟨gen, t, hl, -, hme, hm⟩
      · exact .inr ⟨_, ms, by simp [hl], le_rfl, by simp, fun t ht => by simp_all⟩
      · refine .inr ⟨_, max ms t, ?_, le_rfl, ?_, fun u hu => ?_⟩
        · have hm : ((max ms t : ℤ) : Ms) = max (ms : Ms) t := WithBotTop.coe_monotone.map_max
          rw [hl, hm]
          rfl
        · rcases max_choice ms t with h | h <;> simp_all
        · rcases mem_cons.mp hu with hu | hu
          · cases hu
            exact le_max_left _ _
          · exact (hm hu).trans (le_max_right _ _)
    next hk =>
      rcases ih with ⟨hl, hno⟩ | ⟨gen, t, hl, hg, hm⟩
      · exact .inl ⟨hl, by simpa [Ne.symm hk] using hno⟩
      · exact .inr ⟨gen, t, hl, Nat.le_succ_of_le hg, by simpa [Ne.symm hk] using hm⟩

theorem lastReset_append (later : List (JsString × ℤ)) :
    (∀ t, (c, t) ∉ later) ∧ (∀ r, lastReset c (later ++ es) = some r → r.generation ≤ es.length) ∨
      (∃ t, (c, t) ∈ later) ∧
        ∃ r, lastReset c (later ++ es) = some r ∧ es.length < r.generation := by
  induction later with
  | nil =>
    refine .inl ⟨by simp, fun r hr => ?_⟩
    rcases lastReset_spec c es with ⟨hl, -⟩ | ⟨gen, t, hl, hg, -⟩
    · cases hl.symm.trans hr
    · cases hl.symm.trans hr
      exact hg
  | cons e later ih =>
    obtain ⟨k, ms⟩ := e
    rw [cons_append, lastReset]
    split
    next hk => exact .inr ⟨⟨ms, by simp [hk]⟩, _, rfl, by simp only [length_append]; omega⟩
    next hk => simpa [Ne.symm hk] using ih

/-! ### Steps of the bounded one -/

theorem Stands.size_le (h : Stands s es) (hf : FewIds es) : s.size ≤ maxResetCapacities := by
  obtain ⟨ids, hi, hes⟩ := hf
  have hs : s.resetAtByCapacity.keys ⊆ ids := by
    intro c hc
    obtain ⟨r, hr⟩ := mem_keys.mp hc
    rcases lastReset_spec c es with ⟨hl, -⟩ | ⟨_, t, -, -, ht, -⟩
    · have he := h.each c
      rw [hr, hl] at he
      exact he.elim
    · exact hes _ ht
  have hn := (subperm_of_subset s.resetAtByCapacity.keys_nodup hs).length_le
  rw [OrderedMap.keys, length_map] at hn
  exact hn.trans hi

/-- Recording keeps the ledger. -/
theorem Stands.record (h : Stands s es) (k : JsString) (ms : ℤ) :
    Stands (s.record k ms) ((k, ms) :: es) := by
  have hg : ∀ c, (s.record k ms).resetAtByCapacity.get c =
      if k = c then some ⟨max (ms : Ms) ((s.resetAtByCapacity.get k).elim s.prunedResetMs Reset.ms),
        s.generation + 1⟩
      else s.resetAtByCapacity.get c := by
    intro c
    unfold ResetLedger.record
    rw [get_set]
    split
    · rfl
    next hk => rw [get_delete, if_neg hk]
  refine ⟨congrArg Nat.succ h.generation, fun c => ?_, fun hf => ?_⟩
  · have he := h.each c
    rw [hg, lastReset]
    split
    next hk =>
      subst hk
      refine ⟨congrArg Nat.succ h.generation, max_le_max le_rfl ?_⟩
      cases hr : s.resetAtByCapacity.get k <;> cases hl : lastReset k es <;>
        simp only [hr, hl, StandsFor] at he ⊢ <;> simp_all
    · exact he
  · obtain ⟨ids, hi, hes⟩ := hf
    obtain ⟨hth, hms, hsm⟩ :=
      h.unpruned ⟨ids, hi, fun e he => hes e (mem_cons_of_mem _ he)⟩
    refine ⟨hth, hms, fun c => ?_⟩
    rw [hg, lastReset, hms, h.generation, hsm, hsm]
    split
    next hk => rw [hk]
    · rfl

/-- Pruning keeps the ledger. -/
theorem Stands.prune (h : Stands s es) : Stands s.prune es := by
  unfold ResetLedger.prune
  split
  next hsz =>
    split
    · exact h
    next k oldest rest hes =>
      have hold : s.resetAtByCapacity.get k = some oldest := get_eq_some.mpr (hes ▸ mem_cons_self)
      refine ⟨h.generation, fun c => ?_, fun hf => absurd (h.size_le hf) (by omega)⟩
      have he := h.each c
      rw [get_delete]
      split
      next hk =>
        -- the pruned entry: the frontier has moved up to it
        subst hk
        rw [hold] at he
        cases hl : lastReset k es <;> simp_all [StandsFor]
      · cases hr : s.resetAtByCapacity.get c <;> cases hl : lastReset c es <;>
          simp_all [StandsFor]
  · exact h

theorem size_record (k : JsString) (ms : ℤ) : (s.record k ms).size ≤ s.size + 1 := by
  have hgo : k ∉ (s.resetAtByCapacity.delete k).entries.map Prod.fst :=
    fun hk => (mem_keys_delete.mp hk).1 rfl
  simp only [ResetLedger.size, ResetLedger.record, OrderedMap.set]
  rw [put_of_not_mem _ hgo, length_append]
  exact Nat.succ_le_succ (length_filter_le _ _)

theorem size_prune (h : s.size ≤ maxResetCapacities + 1) : s.prune.size ≤ maxResetCapacities := by
  unfold ResetLedger.prune
  split
  next hsz =>
    unfold ResetLedger.size at *
    cases hes : s.resetAtByCapacity.entries with
    | nil => simp [hes] at hsz
    | cons e rest =>
      have hr : ((e :: rest).filter (·.1 ≠ e.1)).length ≤ rest.length := by
        simpa using length_filter_le _ rest
      simp only [OrderedMap.delete, hes, length_cons] at h ⊢
      omega
  next hsz => exact Nat.not_lt.mp hsz

/-- A run is a fold over its history. -/
theorem run_eq (calls : List Note) :
    run calls = (history calls).foldr (fun e s => (s.record e.1 e.2).prune) create := by
  unfold run history
  rw [foldr_reverse]
  generalize create = s
  induction calls generalizing s with
  | nil => rfl
  | cons call calls ih =>
    rw [foldl_cons, ih, flatMap_cons, foldl_append]
    congr 1
    unfold note
    cases call.now with
    | none => rfl
    | some ms => simp only [Option.elim_some, foldl_map, foldl_filter]

theorem stands_run (calls : List Note) : Stands (run calls) (history calls) ∧
    (run calls).size ≤ maxResetCapacities := by
  rw [run_eq]
  induction history calls with
  | nil => exact ⟨⟨rfl, fun _ => trivial, fun _ => ⟨rfl, rfl, fun _ => rfl⟩⟩, Nat.zero_le _⟩
  | cons e es ih =>
    exact ⟨(ih.1.record e.1 e.2).prune, size_prune ((size_record ..).trans (Nat.succ_le_succ ih.2))⟩

/-! ### What a request is told -/

theorem resetMs_fenced {g : ℕ} {full : Reset}
    (h : StandsFor s (s.resetAtByCapacity.get c) (some full)) (hg : g < full.generation) :
    s.resetMs c g = some ⊤ := by
  refine if_pos ?_
  cases hr : s.resetAtByCapacity.get c with
  | none => exact .inl (hg.trans_le (hr ▸ h).1)
  | some r => exact .inr (by simpa [(hr ▸ h).1] using hg)

theorem resetMs_told {t : Ms} {full : Reset} (ht : t ≠ ⊥) (hle : t ≤ full.ms)
    (h : StandsFor s (s.resetAtByCapacity.get c) (some full)) (g : ℕ) :
    ∃ ms, s.resetMs c g = some ms ∧ t ≤ ms := by
  have hm : t ≤ max ((s.resetAtByCapacity.get c).elim ⊥ Reset.ms) s.prunedResetMs := by
    cases hr : s.resetAtByCapacity.get c with
    | none => exact le_max_of_le_right (hle.trans (hr ▸ h).2)
    | some r => exact le_max_of_le_left (hle.trans (hr ▸ h).2)
  simp only [resetMs]
  split
  · exact ⟨⊤, rfl, le_top⟩
  · exact ⟨_, if_neg (ne_bot_of_le_ne_bot ht hm), hm⟩

/-- **Old evidence is never revived.**  A request whose snapshot is older than a reset of its
capacity is told infinity ever after.  Any other is told infinity or a time no reset of the
capacity is after; as long as the ledger has had room for every id it is the latest. -/
theorem resetMs_never_revives (before later : List Note) (c : JsString) :
    let g := (run before).snapshot
    let s := run (before ++ later)
    let es := history (before ++ later)
    ((∃ t, (c, t) ∈ history later) → s.resetMs c g = some ⊤) ∧
    (∀ t : ℤ, (c, t) ∈ es → ∃ ms, s.resetMs c g = some ms ∧ (t : Ms) ≤ ms) ∧
    (FewIds es → (∀ t, (c, t) ∉ history later) → (s.resetMs c g = none ∧ ∀ t, (c, t) ∉ es) ∨
        ∃ t : ℤ, IsGreatest {t | (c, t) ∈ es} t ∧ s.resetMs c g = some (t : Ms)) ∧
    s.size ≤ maxResetCapacities := by
  intro g s es
  obtain ⟨hst, hsz⟩ := stands_run (before ++ later)
  have hg : g = (history before).length := (stands_run before).1.generation
  have hes : es = history later ++ history before := by
    simp [es, history]
  have he := hst.each c
  have ha := @lastReset_append (history before) c (history later)
  rw [← hes, ← hg] at ha
  refine ⟨fun ⟨t, ht⟩ => ?_, fun t ht => ?_, fun hf hno => ?_, hsz⟩
  · rcases ha with ⟨hno, -⟩ | ⟨-, r, hr, hlt⟩
    · exact absurd ht (hno t)
    · exact resetMs_fenced (hr ▸ he) hlt
  · rcases lastReset_spec c es with ⟨-, hno⟩ | ⟨gen, u, hr, -, -, hm⟩
    · exact absurd ht (hno t)
    · exact resetMs_told (by simp) (WithBotTop.coe_le_coe.mpr (hm ht)) (hr ▸ he) g
  · obtain ⟨hth, hms, hsm⟩ := hst.unpruned hf
    rcases lastReset_spec c es with ⟨hr, hnv⟩ | ⟨gen, t, hr, -, hm⟩
    · exact .inl ⟨by simp [s, resetMs, hsm, hr, es, hth, hms], hnv⟩
    · have hn : gen ≤ g := by
        rcases ha with ⟨-, hle⟩ | ⟨⟨u, hu⟩, -⟩
        · exact hle _ hr
        · exact absurd hu (hno u)
      exact .inr ⟨t, hm, by simp [s, resetMs, hsm, hr, es, hth, hms, Nat.not_lt.mpr hn]⟩

end ModelProxy.KvEviction
