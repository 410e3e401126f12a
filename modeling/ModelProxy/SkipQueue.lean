import Mathlib.Data.List.Basic

/-! # A FIFO queue that skips its dead entries

Entries stay where they were pushed.  Each has a link to the next entry worth
looking at, and the queue a head; an entry that is dead, now and forever, is
passed over once and then unlinked, from the head or from the last live entry
before it.  Entries that are only blocked for the moment are passed over and
kept.

Whatever has been unlinked, a scan finds the first entry of the whole queue that
is neither dead nor blocked (`scan_spec`): every entry a link jumps over is dead
(`Linked`), and a dead entry stays dead (`Linked.mono`).
-/
namespace ModelProxy
open List

/-- A queue whose head moves over what is dead. -/
structure SkipQueue (α : Type) where
  entries : List α
  head : Nat
  next : List Nat
deriving DecidableEq

namespace SkipQueue
variable {α σ : Type} {e : α} {q : SkipQueue α} {dead dead' : α → Bool}

/-- The empty queue. -/
def empty : SkipQueue α := ⟨[], 0, []⟩

/-- Add an entry at the end, linked to the one after it. -/
def push (q : SkipQueue α) (a : α) : SkipQueue α :=
  { q with entries := q.entries ++ [a], next := q.next ++ [q.entries.length + 1] }

/-- The link of the entry at `index`. -/
def link (q : SkipQueue α) (index : Nat) : Nat := q.next.getD index q.entries.length

/-- Follow the links from `head` over dead entries. -/
def pruneFrom (dead : α → Bool) (q : SkipQueue α) : (fuel head : Nat) → Nat
  | 0, head => head
  | fuel + 1, head =>
    match q.entries[head]? with
    | none => head
    | some e => if dead e then pruneFrom dead q fuel (q.link head) else head

/-- Moves the head past what is dead. -/
def pruneHead (dead : α → Bool) (q : SkipQueue α) : SkipQueue α :=
  { q with head := pruneFrom dead q q.entries.length q.head }

/-- Unlink the entry before `next`: from the head, or from the entry at `previous`. -/
def unlink (q : SkipQueue α) (previous : Option Nat) (next : Nat) : SkipQueue α :=
  match previous with
  | none => { q with head := next }
  | some p => { q with next := q.next.set p next }

/-- The first entry from `index` that is neither dead nor blocked.  Asking whether an
entry is blocked may change the asker's state. -/
def scan (dead : α → Bool) (blocked : α → σ → Bool × σ) :
    (fuel : Nat) → SkipQueue α → (previous : Option Nat) → (index : Nat) → σ →
      Option α × SkipQueue α × σ
  | 0, q, _, _, s => (none, q, s)
  | fuel + 1, q, previous, index, s =>
    match q.entries[index]? with
    | none => (none, q, s)
    | some e =>
      if dead e then
        scan dead blocked fuel (q.unlink previous (q.link index)) previous (q.link index) s
      else
        let answer := blocked e s
        if answer.1 then scan dead blocked fuel q (some index) (q.link index) answer.2
        else (some e, q, answer.2)

/-- Every entry in `[i, j)` is dead. -/
def DeadBetween (dead : α → Bool) (entries : List α) (i j : Nat) : Prop :=
  ∀ k e, i ≤ k → k < j → entries[k]? = some e → dead e = true

/-- Links go forward, and jump over dead entries only. -/
structure Linked (dead : α → Bool) (q : SkipQueue α) : Prop where
  length : q.next.length = q.entries.length
  head_le : q.head ≤ q.entries.length
  pruned : DeadBetween dead q.entries 0 q.head
  forward : ∀ i < q.entries.length, i < q.link i ∧ q.link i ≤ q.entries.length
  skipped : ∀ i < q.entries.length, DeadBetween dead q.entries (i + 1) (q.link i)

namespace DeadBetween
variable {entries : List α} {i j k : Nat}

theorem refl : DeadBetween dead entries i i := fun _ _ h₁ h₂ => absurd h₂ (Nat.not_lt.mpr h₁)

theorem trans (h₁ : DeadBetween dead entries i j) (h₂ : DeadBetween dead entries j k) :
    DeadBetween dead entries i k := by
  intro l e hil hlk he
  rcases Nat.lt_or_ge l j with hlj | hjl
  · exact h₁ l e hil hlj he
  · exact h₂ l e hjl hlk he

theorem cons (he : entries[i]? = some e) (hde : dead e = true)
    (h : DeadBetween dead entries (i + 1) j) : DeadBetween dead entries i j := by
  intro l d hil hlj hd
  rcases Nat.eq_or_lt_of_le hil with rfl | hlt
  · rw [he] at hd
    exact Option.some.inj hd ▸ hde
  · exact h l d hlt hlj hd

theorem mono (hmn : ∀ e, dead e = true → dead' e = true) (h : DeadBetween dead entries i j) :
    DeadBetween dead' entries i j := fun l e h₁ h₂ he => hmn e (h l e h₁ h₂ he)

/-- A search that dead entries fail may start after a dead stretch. -/
theorem find_drop {p : α → Bool} (h : DeadBetween dead entries i j) (hij : i ≤ j)
    (hp : ∀ e, dead e = true → p e = false) :
    (entries.drop i).find? p = (entries.drop j).find? p := by
  obtain ⟨d, rfl⟩ := Nat.exists_eq_add_of_le hij
  clear hij
  induction d generalizing i with
  | zero => rfl
  | succ d ih =>
    have ih := @ih (i + 1) (fun k e h₁ h₂ he => h k e (by omega) (by omega) he)
    rw [show i + (d + 1) = i + 1 + d by omega, ← ih]
    cases he : entries[i]? with
    | none =>
      have hl := getElem?_eq_none_iff.mp he
      rw [drop_eq_nil_of_le hl, drop_eq_nil_of_le (by omega)]
    | some e =>
      obtain ⟨hi, rfl⟩ := List.getElem?_eq_some_iff.mp he
      rw [drop_eq_getElem_cons hi, find?_cons_of_neg]
      simp [hp _ (h i _ (Nat.le_refl i) (by omega) he)]

end DeadBetween

namespace Linked

theorem mono (hmn : ∀ e, dead e = true → dead' e = true) (h : Linked dead q) :
    Linked dead' q where
  length := h.length
  head_le := h.head_le
  pruned := h.pruned.mono hmn
  forward := h.forward
  skipped i hi := (h.skipped i hi).mono hmn

end Linked

/-- A queue nothing has been unlinked from. -/
structure Fresh (q : SkipQueue α) : Prop where
  head : q.head = 0
  next : q.next = (List.range q.entries.length).map (· + 1)

theorem Fresh.empty : Fresh (SkipQueue.empty : SkipQueue α) := ⟨rfl, rfl⟩

theorem Fresh.push (h : Fresh q) (a : α) : Fresh (q.push a) where
  head := h.head
  next := by simp [SkipQueue.push, h.next, range_succ]

theorem Fresh.linked (h : Fresh q) (dead : α → Bool) : Linked dead q := by
  have hli : ∀ i < q.entries.length, q.link i = i + 1 := by
    intro i hi
    simp [link, h.next, hi]
  refine ⟨by simp [h.next], by simp [h.head], ?_, fun i hi => ?_, fun i hi => ?_⟩
  · rw [h.head]
    exact .refl
  · rw [hli i hi]
    omega
  · rw [hli i hi]
    exact .refl

/-! ### Pruning the head -/

/-- Pruning passes only what is dead. -/
theorem pruneFrom_spec (h : Linked dead q) :
    ∀ {fuel head}, head ≤ q.entries.length → DeadBetween dead q.entries 0 head →
      q.entries.length ≤ head + fuel →
      pruneFrom dead q fuel head ≤ q.entries.length ∧
      DeadBetween dead q.entries 0 (pruneFrom dead q fuel head) ∧
      ∀ e, q.entries[pruneFrom dead q fuel head]? = some e → dead e = false
  | 0, head, hle, hde, hfu => by
    refine ⟨hle, hde, fun e he => ?_⟩
    have := (List.getElem?_eq_some_iff.mp he).1
    simp only [pruneFrom] at this
    omega
  | fuel + 1, head, hle, hde, hfu => by
    simp only [pruneFrom]
    cases he : q.entries[head]? with
    | none => exact ⟨hle, hde, fun e h => by simp [he] at h⟩
    | some e =>
      by_cases hd : dead e = true
      · have hlt := (List.getElem?_eq_some_iff.mp he).1
        obtain ⟨hf, hen⟩ := h.forward head hlt
        simp only [hd, if_true]
        exact pruneFrom_spec h hen (hde.trans (.cons he hd (h.skipped head hlt))) (by omega)
      · simp only [hd, if_false, Bool.false_eq_true]
        refine ⟨hle, hde, fun e' he' => ?_⟩
        rw [he] at he'
        exact Option.some.inj he' ▸ (Bool.not_eq_true _ ▸ hd)

theorem Linked.pruneHead (h : Linked dead q) : Linked dead (q.pruneHead dead) := by
  obtain ⟨hle, hde, -⟩ := pruneFrom_spec h h.head_le h.pruned (Nat.le_add_left _ _)
  exact ⟨h.length, hle, hde, h.forward, h.skipped⟩

/-- **A pruned queue has a head entry iff an entry is alive.** -/
theorem pruneHead_head (h : Linked dead q) :
    q.entries[(q.pruneHead dead).head]?.isSome = true ↔ ∃ e ∈ q.entries, dead e = false := by
  obtain ⟨hle, hde, hh⟩ := pruneFrom_spec h h.head_le h.pruned (Nat.le_add_left _ _)
  change q.entries[pruneFrom dead q q.entries.length q.head]?.isSome = true ↔ _
  cases he : q.entries[pruneFrom dead q q.entries.length q.head]? with
  | some e => exact ⟨fun _ => ⟨e, mem_of_getElem? he, hh e he⟩, fun _ => rfl⟩
  | none =>
    refine ⟨fun h => absurd h (by simp), fun ⟨e, hm, ha⟩ => ?_⟩
    have hl := getElem?_eq_none_iff.mp he
    obtain ⟨i, hi, rfl⟩ := mem_iff_getElem.mp hm
    have := hde i _ (Nat.zero_le i) (by omega) (getElem?_eq_getElem hi)
    simp [ha] at this

/-! ### Scanning -/

/-- What a scan at `index` has passed: only dead entries since the head, or since the last
blocked entry. -/
def Passed (dead : α → Bool) (q : SkipQueue α) (index : Nat) : Option Nat → Prop
  | none => DeadBetween dead q.entries 0 index
  | some p => p < index ∧ DeadBetween dead q.entries (p + 1) index

/-- Unlinking what is dead keeps the links. -/
theorem Linked.unlink {index : Nat} {previous : Option Nat} (h : Linked dead q)
    (hs : Passed dead q index previous) (he : q.entries[index]? = some e) (hde : dead e = true) :
    Linked dead (q.unlink previous (q.link index)) ∧
      Passed dead (q.unlink previous (q.link index)) (q.link index) previous := by
  have hlt := (List.getElem?_eq_some_iff.mp he).1
  obtain ⟨hf, hd⟩ := h.forward index hlt
  have hr := DeadBetween.cons he hde (h.skipped index hlt)
  cases previous with
  | none =>
    have hb := DeadBetween.trans hs hr
    exact ⟨⟨h.length, hd, hb, h.forward, h.skipped⟩, hb⟩
  | some p =>
    obtain ⟨hp, ht⟩ := hs
    have hjm := ht.trans hr
    have hli : ∀ i, (q.unlink (some p) (q.link index)).link i =
        if i = p then q.link index else q.link i := by
      intro i
      have hl : p < q.next.length := by rw [h.length]; omega
      by_cases hi : i = p
      · subst hi
        simp [SkipQueue.unlink, link, hl]
      · simp [SkipQueue.unlink, link, hi, Ne.symm hi]
    refine ⟨⟨by simp [SkipQueue.unlink, h.length], h.head_le, h.pruned, fun i hi => ?_,
      fun i hi => ?_⟩, by omega, hjm⟩
    · rw [hli i]
      split
      · exact ⟨by omega, hd⟩
      · exact h.forward i hi
    · rw [hli i]
      split
      next hip => exact hip ▸ hjm
      · exact h.skipped i hi

theorem unlink_entries (q : SkipQueue α) (prev : Option Nat) (next : Nat) :
    (q.unlink prev next).entries = q.entries := by
  cases prev <;> rfl

section Scan
variable {blocked : α → σ → Bool × σ} {b : α → Bool} {Inv : σ → Prop}

/-- **A scan finds the first entry that is neither dead nor blocked**, provided the answers of
`blocked` do not depend on what it was asked before. -/
theorem scan_spec (hbl : ∀ e s, Inv s → (blocked e s).1 = b e ∧ Inv (blocked e s).2) :
    ∀ (fuel : Nat) (q : SkipQueue α) (previous : Option Nat) (index : Nat) (s : σ),
      Linked dead q → Passed dead q index previous → Inv s → q.entries.length ≤ index + fuel →
      (scan dead blocked fuel q previous index s).1 =
        (q.entries.drop index).find? (fun e => !dead e && !b e) ∧
      Linked dead (scan dead blocked fuel q previous index s).2.1 ∧
      (scan dead blocked fuel q previous index s).2.1.entries = q.entries ∧
      Inv (scan dead blocked fuel q previous index s).2.2
  | 0, q, _, index, s, hq, _, hs, hfu => by
    refine ⟨?_, hq, rfl, hs⟩
    rw [drop_eq_nil_of_le (by omega)]
    rfl
  | fuel + 1, q, previous, index, s, hq, hp, hs, hfu => by
    simp only [scan]
    cases he : q.entries[index]? with
    | none =>
      refine ⟨?_, hq, rfl, hs⟩
      rw [drop_eq_nil_of_le (getElem?_eq_none_iff.mp he)]
      rfl
    | some e =>
      obtain ⟨hlt, rfl⟩ := List.getElem?_eq_some_iff.mp he
      obtain ⟨hf, hen⟩ := hq.forward index hlt
      -- the search passes an entry it does not want along its link
      have hjm := (hq.skipped index hlt).find_drop
        (p := fun e => !dead e && !b e) hf (fun e hd => by simp [hd])
      have hfn : (q.entries.drop index).find? (fun e => !dead e && !b e) =
          if (!dead q.entries[index] && !b q.entries[index]) = true then
            some q.entries[index]
          else (q.entries.drop (q.link index)).find? (fun e => !dead e && !b e) := by
        rw [drop_eq_getElem_cons hlt, find?_cons, hjm]
        cases (!dead q.entries[index] && !b q.entries[index]) <;> rfl
      rw [hfn]
      by_cases hd : dead q.entries[index] = true
      · obtain ⟨hq', hp'⟩ := hq.unlink hp he hd
        have ih := scan_spec hbl fuel _ previous _ s hq' hp' hs
          (by rw [unlink_entries]; omega)
        simp only [unlink_entries] at ih
        simpa [hd] using ih
      · obtain ⟨ha, hs'⟩ := hbl q.entries[index] s hs
        by_cases hb : b q.entries[index] = true
        · have ih := scan_spec hbl fuel q (some index) _ _ hq
            ⟨hf, hq.skipped index hlt⟩ hs' (by omega)
          simpa [hd, hb, ha] using ih
        · simp [hd, hb, ha, hq, hs']

end Scan

end SkipQueue
end ModelProxy
