import Mathlib.Logic.Basic

/-! # A loop with a bound, breaks and exceptions

`for (step = 0; step < bound; step++) { … break … throw … }`: the body either
goes on with a new state, breaks with a reason, or throws.  Four rules carry
every proof about such a loop: bodies in step make loops in step
(`run_simulates`); what the body keeps the loop keeps (`run_keeps`); where a
measure keeps the bound out of reach, what every break leaves the loop leaves
(`run_post`); and any such bound gives the same run (`run_stable`).
-/
namespace ModelProxy

/-- What a body does: go on, or break with a reason. -/
inductive LoopStep (ρ σ : Type) where
  | stop (reason : ρ) (state : σ)
  | next (state : σ)
deriving DecidableEq

/-- The state a step leaves. -/
def LoopStep.state {ρ σ : Type} : LoopStep ρ σ → σ
  | .stop _ s => s
  | .next s => s

namespace BoundedLoop
variable {ε ρ σ τ : Type}

/-- At most `bound` rounds of the body; `exhausted` is the reason when none broke. -/
def run (exhausted : ρ) (body : σ → Except ε (LoopStep ρ σ)) : Nat → σ → Except ε (ρ × σ)
  | 0, s => .ok (exhausted, s)
  | bound + 1, s =>
    match body s with
    | .error e => .error e
    | .ok (.stop reason s') => .ok (reason, s')
    | .ok (.next s') => run exhausted body bound s'

/-- Two bodies in step: the same exception, or the same move to related states. -/
def InStep (R : σ → τ → Prop) :
    Except ε (LoopStep ρ σ) → Except ε (LoopStep ρ τ) → Prop
  | .error e, .error e' => e = e'
  | .ok (.stop reason s), .ok (.stop reason' t) => reason = reason' ∧ R s t
  | .ok (.next s), .ok (.next t) => R s t
  | _, _ => False

/-- Two loops in step: the same exception, or the same reason and related states. -/
def Agree (R : σ → τ → Prop) : Except ε (ρ × σ) → Except ε (ρ × τ) → Prop
  | .error e, .error e' => e = e'
  | .ok (reason, s), .ok (reason', t) => reason = reason' ∧ R s t
  | _, _ => False

/-- **Bodies in step make loops in step.** -/
theorem run_simulates {R : σ → τ → Prop} (exh : ρ) {f : σ → Except ε (LoopStep ρ σ)}
    {g : τ → Except ε (LoopStep ρ τ)} (hsp : ∀ s t, R s t → InStep R (f s) (g t)) :
    ∀ (bound : Nat) (s : σ) (t : τ), R s t →
      Agree R (run exh f bound s) (run exh g bound t)
  | 0, s, t, h => ⟨rfl, h⟩
  | bound + 1, s, t, h => by
    have hst := hsp s t h
    simp only [run]
    cases hf : f s with
    | error e =>
      cases hg : g t with
      | error e' =>
        rw [hf, hg] at hst
        exact hst
      | ok move => simp [hf, hg, InStep] at hst
    | ok move =>
      cases hg : g t with
      | error e' => cases move <;> simp [hf, hg, InStep] at hst
      | ok move' =>
        rw [hf, hg] at hst
        cases move with
        | stop why s' =>
          cases move' with
          | stop why' t' => exact hst
          | next t' => exact hst.elim
        | next s' =>
          cases move' with
          | stop why' t' => exact hst.elim
          | next t' => exact run_simulates exh hsp bound s' t' hst

/-- The body keeps the invariant and, when it goes on, lowers the measure. -/
def Descends (Inv : σ → Prop) (measure : σ → Nat) (body : σ → Except ε (LoopStep ρ σ)) : Prop :=
  ∀ s s', Inv s → body s = .ok (.next s') → Inv s' ∧ measure s' < measure s

variable {Inv : σ → Prop} {exh : ρ} {body : σ → Except ε (LoopStep ρ σ)}

variable {measure : σ → Nat}

/-- **What every break leaves, the loop leaves**, if the bound exceeds the measure: the loop
then ends by a break. -/
theorem run_post {Post : ρ → σ → Prop} (hbo : Descends Inv measure body)
    (hst : ∀ s reason s', Inv s → body s = .ok (.stop reason s') → Post reason s') :
    ∀ (bound : Nat) (s : σ) (reason : ρ) (s' : σ), Inv s → measure s < bound →
      run exh body bound s = .ok (reason, s') → Post reason s'
  | 0, s, reason, s', _, hlt, _ => absurd hlt (Nat.not_lt_zero _)
  | bound + 1, s, reason, s', h, hlt, hr => by
    simp only [run] at hr
    split at hr
    · cases hr
    next reason₁ s₁ hs =>
      obtain ⟨rfl, rfl⟩ := Prod.mk.inj (Except.ok.inj hr)
      exact hst s reason₁ s₁ h hs
    next s₁ hs =>
      obtain ⟨h₁, hd⟩ := hbo s s₁ h hs
      exact run_post hbo hst bound s₁ reason s' h₁ (by omega) hr

/-- Two bounds that exceed the measure are the same to the loop. -/
theorem run_stable (hbo : Descends Inv measure body) :
    ∀ (bound bound' : Nat) (s : σ), Inv s → measure s < bound → measure s < bound' →
      run exh body bound s = run exh body bound' s
  | 0, _, _, _, hlt, _ => absurd hlt (Nat.not_lt_zero _)
  | _, 0, _, _, _, hlt => absurd hlt (Nat.not_lt_zero _)
  | bound + 1, bound' + 1, s, h, hlt, hlt' => by
    simp only [run]
    split
    · rfl
    · rfl
    next s₁ hs =>
      obtain ⟨h₁, hd⟩ := hbo s s₁ h hs
      exact run_stable hbo bound bound' s₁ h₁ (by omega) (by omega)

/-- **What the body keeps, the loop keeps**, whatever ends it. -/
theorem run_keeps (hbo : ∀ s move, Inv s → body s = .ok move → Inv move.state) :
    ∀ (bound : Nat) (s : σ) (reason : ρ) (s' : σ), Inv s →
      run exh body bound s = .ok (reason, s') → Inv s'
  | 0, s, reason, s', h, hr => by
    cases hr
    exact h
  | bound + 1, s, reason, s', h, hr => by
    simp only [run] at hr
    split at hr
    · cases hr
    next reason₁ s₁ hs =>
      cases hr
      exact hbo s _ h hs
    next s₁ hs => exact run_keeps hbo bound s₁ reason s' (hbo s _ h hs) hr

/-- A loop whose body never throws, in the states it reaches, does not throw. -/
theorem run_ok (exh : ρ)
    (hbo : ∀ s, Inv s → ∃ move, body s = .ok move ∧ ∀ s', move = .next s' → Inv s') :
    ∀ (bound : Nat) (s : σ), Inv s → ∃ res, run exh body bound s = .ok res
  | 0, s, _ => ⟨_, rfl⟩
  | bound + 1, s, h => by
    obtain ⟨move, hmv, hnx⟩ := hbo s h
    simp only [run, hmv]
    cases move with
    | stop why s' => exact ⟨_, rfl⟩
    | next s' => exact run_ok exh hbo bound s' (hnx s' rfl)

end BoundedLoop
end ModelProxy
