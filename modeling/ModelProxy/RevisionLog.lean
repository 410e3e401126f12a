import ModelProxy.Comparator
import Mathlib.Algebra.BigOperators.Group.List.Basic
import Mathlib.Data.List.Induction

/-! # Logs of snapshots and deltas

An amount is revised by an append-only log: a snapshot states the whole amount so
far, a delta adds to it, and a revision may leave the amount open.  The total can
be folded in sequence order (`total`) or aggregated without an order, from the
latest snapshot's sequence onward (`settled`).  Both say the same of every log
whose sequences are distinct (`total_sort`), and one appended revision changes the
aggregate as the fold would.  A ledger holds the logs of many owners; a sum over the
ledger is the sum over the owners (`sum_fibers`).
-/
namespace ModelProxy
open List Comparator

/-- A revision is the whole or a change. -/
inductive RevisionKind
  | snapshot
  | delta
deriving DecidableEq, Repr

/-- A revision of the log. -/
structure Revision (α : Type) where
  sequence : Int
  kind : RevisionKind
  amount : Option α
deriving DecidableEq, Repr

namespace Revision
variable {α : Type} [AddCommMonoid α]

/-- One revision on a running total. -/
def apply (total : Option α) (r : Revision α) : Option α :=
  match r.kind with
  | .snapshot => r.amount
  | .delta =>
    match r.amount with
    | none => total
    | some amount => some (total.getD 0 + amount)

/-- The total, folded in the order of the list. -/
def total (log : List (Revision α)) : Option α := log.foldl apply none

/-- The sequence of the latest snapshot. -/
def snapshotSequence (log : List (Revision α)) : Option Int :=
  ((log.filter (fun r => decide (r.kind = .snapshot))).map sequence).max?

/-- A revision with an amount, from the latest snapshot onward. -/
def counted (log : List (Revision α)) (r : Revision α) : Bool :=
  r.amount.isSome && (snapshotSequence log).all (fun sequence => decide (sequence ≤ r.sequence))

/-- The aggregate: the sum of the counted amounts. -/
def settled (log : List (Revision α)) : α :=
  ((log.filter (counted log)).map (fun r => r.amount.getD 0)).sum

/-! ### The latest snapshot -/

variable {log' : List (Revision α)}

section Latest
omit [AddCommMonoid α]

variable {log : List (Revision α)}

theorem snapshotSequence_eq_none : snapshotSequence log = none ↔ ∀ r ∈ log, r.kind ≠ .snapshot := by
  simp [snapshotSequence, max?_eq_none_iff, filter_eq_nil_iff]

theorem snapshotSequence_eq_some {sequence : Int} :
    snapshotSequence log = some sequence ↔
      (∃ r ∈ log, r.kind = .snapshot ∧ r.sequence = sequence) ∧
        ∀ r ∈ log, r.kind = .snapshot → r.sequence ≤ sequence := by
  simp only [snapshotSequence, max?_eq_some_iff, mem_map, mem_filter, decide_eq_true_eq]
  constructor
  · rintro ⟨⟨r, ⟨hr, hkd⟩, hs⟩, hm⟩
    exact ⟨⟨r, hr, hkd, hs⟩, fun r' hr' hkd' => hm _ ⟨r', ⟨hr', hkd'⟩, rfl⟩⟩
  · rintro ⟨⟨r, hr, hkd, hs⟩, hm⟩
    refine ⟨⟨r, ⟨hr, hkd⟩, hs⟩, ?_⟩
    rintro b ⟨r', ⟨hr', hkd'⟩, rfl⟩
    exact hm r' hr' hkd'

theorem snapshotSequence_perm (h : log.Perm log') :
    snapshotSequence log = snapshotSequence log' := by
  cases hs : snapshotSequence log' with
  | none =>
    rw [snapshotSequence_eq_none] at hs ⊢
    exact fun r hr => hs r (h.mem_iff.mp hr)
  | some sequence =>
    rw [snapshotSequence_eq_some] at hs ⊢
    obtain ⟨⟨r, hr, hre⟩, hm⟩ := hs
    exact ⟨⟨r, h.mem_iff.mpr hr, hre⟩, fun r hr => hm r (h.mem_iff.mp hr)⟩

theorem snapshotSequence_append_snapshot {r : Revision α} (hkd : r.kind = .snapshot)
    (hla : ∀ r' ∈ log, r'.sequence < r.sequence) :
    snapshotSequence (log ++ [r]) = some r.sequence := by
  rw [snapshotSequence_eq_some]
  refine ⟨⟨r, by simp, hkd, rfl⟩, ?_⟩
  intro r' hr' _
  rcases mem_append.mp hr' with hr' | hr'
  · exact (hla r' hr').le
  · rw [mem_singleton.mp hr']

end Latest

/-! ### One more revision -/

variable {log : List (Revision α)} {r : Revision α}

omit [AddCommMonoid α] in
theorem counted_congr (h : snapshotSequence log = snapshotSequence log') :
    counted log = counted log' := by
  funext r
  rw [counted, counted, h]

theorem settled_perm (h : log.Perm log') : settled log = settled log' := by
  unfold settled
  rw [counted_congr (snapshotSequence_perm h)]
  exact ((h.filter _).map _).sum_eq

/-- A newer snapshot sets the total. -/
theorem settled_append_snapshot (hkd : r.kind = .snapshot)
    (hla : ∀ r' ∈ log, r'.sequence < r.sequence) : settled (log ++ [r]) = r.amount.getD 0 := by
  have hs := snapshotSequence_append_snapshot hkd hla
  have hold : log.filter (counted (log ++ [r])) = [] := by
    rw [filter_eq_nil_iff]
    intro r' hr'
    have := hla r' hr'
    simp [counted, hs, this]
  unfold settled
  rw [filter_append, hold, nil_append]
  cases ha : r.amount with
  | none => simp [counted, ha]
  | some amt => simp [counted, ha, hs]

/-- A newer delta adds to the total. -/
theorem settled_append_delta (hkd : r.kind = .delta) (hla : ∀ r' ∈ log, r'.sequence < r.sequence) :
    settled (log ++ [r]) = settled log + r.amount.getD 0 := by
  have hq : snapshotSequence (log ++ [r]) = snapshotSequence log := by
    simp [snapshotSequence, filter_append, hkd]
  -- the latest snapshot is older than the new revision
  have hl : (snapshotSequence log).all (fun q => decide (q ≤ r.sequence)) = true := by
    cases hs : snapshotSequence log with
    | none => rfl
    | some q =>
      obtain ⟨⟨r', hr', -, rfl⟩, -⟩ := snapshotSequence_eq_some.mp hs
      simpa using (hla r' hr').le
  unfold settled
  rw [counted_congr hq, filter_append, map_append, sum_append]
  congr 1
  cases ha : r.amount with
  | none => simp [counted, ha]
  | some amt => simp [counted, ha, hl]

/-- One revision changes the aggregate as it changes the fold. -/
theorem settled_append (hla : ∀ r' ∈ log, r'.sequence < r.sequence) (running : Option α)
    (hr : running.getD 0 = settled log) :
    (apply running r).getD 0 = settled (log ++ [r]) := by
  cases hkd : r.kind with
  | snapshot =>
    rw [settled_append_snapshot hkd hla]
    simp [apply, hkd]
  | delta =>
    rw [settled_append_delta hkd hla, ← hr]
    cases ha : r.amount <;> simp [apply, hkd, ha]

/-- **The fold and the aggregate agree** on a log in sequence order. -/
theorem total_eq_settled (h : log.Pairwise (fun r r' => r.sequence < r'.sequence)) :
    (total log).getD 0 = settled log := by
  induction log using reverseRecOn with
  | nil => rfl
  | append_singleton log r ih =>
    obtain ⟨hl, -, hc⟩ := pairwise_append.mp h
    rw [total, foldl_append]
    exact settled_append (fun r' hr' => hc r' hr' r (mem_singleton_self r)) _ (ih hl)

/-- **The fold over the sorted log is the aggregate** of the log, whatever its order. -/
theorem total_sort (h : (log.map sequence).Nodup) :
    (total ((sign.comap sequence).sort log)).getD 0 = settled log := by
  have hpm := (sign.comap sequence).sort_perm log
  rw [← settled_perm hpm]
  refine total_eq_settled ?_
  have hd : ((sign.comap sequence).sort log).Pairwise
      (fun r r' => r.sequence ≠ r'.sequence) := by
    rw [← pairwise_map (f := sequence)]
    exact (hpm.map sequence).nodup_iff.mpr h
  refine (((sign.comap sequence).sort_pairwise log).and hd).imp ?_
  rintro r r' ⟨hle, hne⟩
  exact lt_of_le_of_ne (sign_le.mp hle) hne

/-! ### Open amounts -/

/-- The revision with an open amount read as nothing. -/
def filled (r : Revision α) : Revision α := { r with amount := some (r.amount.getD 0) }

theorem snapshotSequence_map_filled (log : List (Revision α)) :
    snapshotSequence (log.map filled) = snapshotSequence log := by
  simp only [snapshotSequence, filter_map, map_map]
  rfl

/-- An open amount counts as nothing. -/
theorem settled_map_filled (log : List (Revision α)) : settled (log.map filled) = settled log := by
  -- the amounts of the counted revisions, read off the whole log
  have hs : ∀ (p : Revision α → Bool) (l : List (Revision α)),
      ((l.filter (fun r => r.amount.isSome && p r)).map (fun r => r.amount.getD 0)).sum =
        ((l.filter p).map (fun r => r.amount.getD 0)).sum := by
    intro p l
    induction l with
    | nil => rfl
    | cons r l ih =>
      cases hp : p r <;> cases ha : r.amount <;> simp [hp, ha, ih]
  unfold settled counted
  rw [snapshotSequence_map_filled, hs, hs, filter_map, map_map]
  rfl

end Revision

/-! ## Many logs in one ledger -/

section
variable {α β κ M : Type} [AddCommMonoid M] [DecidableEq κ]

theorem sum_map_ite_zero (p : α → Bool) (amt : α → M) (rows : List α) :
    (rows.map (fun a => if p a then amt a else 0)).sum = ((rows.filter p).map amt).sum := by
  rw [sum_map_ite]
  simp

/-- **A sum over the ledger is the sum over its owners**, if every row has one and no
two share a name. -/
theorem sum_fibers {rows : List α} {os : List β} (key : α → κ) (name : β → κ)
    (hn : (os.map name).Nodup) (hoe : ∀ a ∈ rows, ∃ b ∈ os, name b = key a)
    (amt : α → M) :
    (rows.map amt).sum = (os.map (fun b =>
      ((rows.filter (fun a => decide (key a = name b))).map amt).sum)).sum := by
  induction rows with
  | nil => simp
  | cons a rows ih =>
    -- the row's own owner takes it, no other does
    have ho : (os.map (fun b => if key a = name b then amt a else 0)).sum =
        amt a := by
      obtain ⟨b, hb, hk⟩ := hoe a mem_cons_self
      have hm : key a ∈ os.map name := hk ▸ mem_map_of_mem hb
      have hc := count_eq_one_of_mem hn hm
      have hs := sum_map_ite_zero (fun k => decide (k = key a)) (fun _ => amt a) (os.map name)
      rw [filter_eq, hc, map_map] at hs
      simpa [Function.comp_def, eq_comm] using hs
    have hp : ∀ b, (((a :: rows).filter (fun a => decide (key a = name b))).map amt).sum =
        (if key a = name b then amt a else 0) +
          ((rows.filter (fun a => decide (key a = name b))).map amt).sum := by
      intro b
      by_cases h : key a = name b <;> simp [h]
    rw [map_cons, sum_cons, ih (fun a ha => hoe a (mem_cons_of_mem _ ha)),
      map_congr_left (fun b _ => hp b), sum_map_add, ho]

end

end ModelProxy
