import Mathlib.Data.List.Basic

/-! # Transducers

A transducer reads one symbol at a time and writes any number of symbols.  Its run over a
list is cut anywhere without a difference (`run_append`), and what every step keeps the
run keeps (`run_inv`).
-/
namespace ModelProxy

/-- One step: the next state, and what is written. -/
abbrev Transducer (σ α β : Type) := σ → α → σ × List β

namespace Transducer
variable {σ τ α β γ : Type}

/-- The state after a list, and everything written on the way. -/
def run (step : Transducer σ α β) : σ → List α → σ × List β
  | s, [] => (s, [])
  | s, a :: l =>
    let next := step s a
    let rest := run step next.1 l
    (rest.1, next.2 ++ rest.2)

section Run
variable (step : Transducer σ α β)

@[simp] theorem run_nil (s : σ) : run step s [] = (s, []) := rfl

theorem run_cons (s : σ) (a : α) (l : List α) :
    run step s (a :: l) =
      ((run step (step s a).1 l).1, (step s a).2 ++ (run step (step s a).1 l).2) := rfl

theorem run_append (s : σ) (l l' : List α) :
    run step s (l ++ l') =
      ((run step (run step s l).1 l').1, (run step s l).2 ++ (run step (run step s l).1 l').2) := by
  induction l generalizing s with
  | nil => simp
  | cons a l ih => simp [run_cons, ih, List.append_assoc]

end Run

/-- What every step keeps and everything written has, the run keeps and has. -/
theorem run_inv {step : Transducer σ α β} (I : σ → Prop) (P : β → Prop)
    (hsp : ∀ s a, I s → I (step s a).1 ∧ ∀ b ∈ (step s a).2, P b) {s : σ} (h : I s)
    (l : List α) : I (run step s l).1 ∧ ∀ b ∈ (run step s l).2, P b := by
  induction l generalizing s with
  | nil => exact ⟨h, by simp⟩
  | cons a l ih =>
    obtain ⟨hnx, hwr⟩ := hsp s a h
    obtain ⟨hla, hr⟩ := ih hnx
    refine ⟨hla, fun b hb => ?_⟩
    rcases List.mem_append.mp hb with hb | hb
    · exact hwr b hb
    · exact hr b hb

end Transducer

end ModelProxy
