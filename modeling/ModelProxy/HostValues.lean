import Mathlib.Data.Int.Order.Basic

/-! # Values of the host

Instants are milliseconds of one clock.  A calendar cuts them into months: every
instant lies in the window it is given, and every instant of that window is given
the same one.  Code that throws returns `Except`.
-/
namespace ModelProxy

/-- Milliseconds of one clock. -/
abbrev Instant := Int

/-- A string that is there and not empty, as the source tests for one. -/
def present (value : Option String) : Option String := value.filter (fun s => decide (s ≠ ""))

/-- A month as its first instant and the next month's. -/
structure MonthWindow where
  start : Instant
  stop : Instant
deriving DecidableEq, Repr

namespace MonthWindow

/-- The instant is in the month. -/
def contains (window : MonthWindow) (at_ : Instant) : Bool :=
  decide (window.start ≤ at_) && decide (at_ < window.stop)

end MonthWindow

/-- The months of the clock. -/
structure Calendar where
  window : Instant → MonthWindow
  start_le : ∀ now, (window now).start ≤ now
  lt_stop : ∀ now, now < (window now).stop
  same : ∀ now at_, (window now).start ≤ at_ → at_ < (window now).stop → window at_ = window now

namespace Calendar

/-- Months of one fixed length. -/
def ofLength (length : Int) (hlength : 0 < length) : Calendar where
  window now := ⟨now / length * length, (now / length + 1) * length⟩
  start_le now := Int.ediv_mul_le now (ne_of_gt hlength)
  lt_stop now := Int.lt_ediv_add_one_mul_self now hlength
  same now at_ hstart hstop := by
    have hle : now / length ≤ at_ / length := (Int.le_ediv_iff_mul_le hlength).mpr hstart
    have hlt : at_ / length < now / length + 1 := (Int.ediv_lt_iff_lt_mul hlength).mpr hstop
    have hsame : at_ / length = now / length := le_antisymm (Int.lt_add_one_iff.mp hlt) hle
    rw [hsame]

end Calendar

/-! ## Code that throws -/

section
variable {ε α β : Type}

/-- A check made only on a value that is there. -/
def optional (check : α → Except ε β) : Option α → Except ε (Option β)
  | none => .ok none
  | some a => (check a).map some

variable {x : Except ε α} {b : β}

/-- A sequence returns when both parts do. -/
theorem bind_eq_ok {f : α → Except ε β} : (x >>= f) = .ok b ↔ ∃ a, x = .ok a ∧ f a = .ok b := by
  cases x <;> simp [bind, Except.bind]

theorem map_eq_ok {f : α → β} : x.map f = .ok b ↔ ∃ a, x = .ok a ∧ f a = b := by
  cases x <;> simp [Except.map]

theorem optional_eq_some {check : α → Except ε β} {v : Option α}
    (h : optional check v = .ok (some b)) : ∃ a, v = some a ∧ check a = .ok b := by
  cases v with
  | none => cases h
  | some a =>
    obtain ⟨b', hb', hso⟩ := map_eq_ok.mp h
    exact ⟨a, rfl, Option.some.inj hso ▸ hb'⟩

end

end ModelProxy
