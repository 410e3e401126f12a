import Mathlib.Data.List.Basic

/-! # Programs that may stop anywhere

A program performs operations on a store one after another, each chosen after the reply to
the one before.  An operation is nondeterministic: it may fail, or fail and still have had
its effect.  A run may end after any operation, which is what a crash leaves behind.

`Safe` is the obligation on a program from a given store: every operation it can perform is
good, whatever the replies.  It is closed under sequencing (`Safe.bind`), and a safe program
performs only good operations in every run, stopped or not (`Safe.runs`).  A **history** is a
sequence of such runs, one call after another on the same store (`History`); an invariant
that every call keeps holds along the whole of it (`History.good`).

Some operations may be *excused*: a program is then safe up to its first excused operation,
and the rules speak of the runs that have none.
-/
namespace ModelProxy
open List

/-- A program over operations `Op`, where `op` is answered in `Reply op`. -/
inductive Program (Op : Type) (Reply : Op → Type) (α : Type) where
  | done (a : α)
  | act (op : Op) (next : Reply op → Program Op Reply α)

/-- One performed operation, with the stores around it. -/
structure Event (σ Op : Type) where
  before : σ
  op : Op
  after : σ

namespace Program
variable {Op : Type} {Reply : Op → Type} {σ α β : Type}

protected def bind : Program Op Reply α → (α → Program Op Reply β) → Program Op Reply β
  | .done a, f => f a
  | .act op next, f => .act op fun r => (next r).bind f

instance : Monad (Program Op Reply) where
  pure := .done
  bind := Program.bind

section Runs
variable (step : σ → (op : Op) → Reply op → σ → Prop)

/-- The runs of a program: the operations it performed before it finished or stopped. -/
inductive Runs : Program Op Reply α → σ → List (Event σ Op) → σ → Prop
  | stop (p : Program Op Reply α) (s : σ) : Runs p s [] s
  | act {op : Op} {next : Reply op → Program Op Reply α} {r : Reply op} {s s' t : σ}
      {events : List (Event σ Op)} (h : step s op r s') (rest : Runs (next r) s' events t) :
      Runs (.act op next) s (⟨s, op, s'⟩ :: events) t

/-- The runs that nothing stops: what the program returns, and the store it leaves. -/
inductive Finishes : Program Op Reply α → σ → α → σ → Prop
  | done (a : α) (s : σ) : Finishes (.done a) s a s
  | act {op : Op} {next : Reply op → Program Op Reply α} {r : Reply op} {s s' t : σ} {a : α}
      (h : step s op r s') (rest : Finishes (next r) s' a t) : Finishes (.act op next) s a t

/-- Every operation the program can perform from `s` is good, up to the first excused one,
and what it returns satisfies `post`. -/
def Safe (excused good : Event σ Op → Prop) (post : α → σ → Prop) :
    Program Op Reply α → σ → Prop
  | .done a, s => post a s
  | .act op next, s => ∀ r s', step s op r s' →
      excused ⟨s, op, s'⟩ ∨ good ⟨s, op, s'⟩ ∧ Safe excused good post (next r) s'

variable {step} {exc good : Event σ Op → Prop} {post : α → σ → Prop}

variable {p : Program Op Reply α} {s : σ}

theorem Safe.bind {f : α → Program Op Reply β} {last : β → σ → Prop}
    (h : Safe step exc good post p s)
    (hf : ∀ a t, post a t → Safe step exc good last (f a) t) :
    Safe step exc good last (p >>= f) s := by
  induction p generalizing s with
  | done a => exact hf a s h
  | act op next ih =>
    intro r s' hsp
    rcases h r s' hsp with hex | ⟨hgd, hr⟩
    · exact .inl hex
    · exact .inr ⟨hgd, ih r hr⟩

theorem Safe.ite {c : Prop} [Decidable c] {q : Program Op Reply α}
    (hp : c → Safe step exc good post p s) (hq : ¬ c → Safe step exc good post q s) :
    Safe step exc good post (if c then p else q) s := by
  by_cases h : c
  · rw [if_pos h]
    exact hp h
  · rw [if_neg h]
    exact hq h

theorem Safe.weaken {last : α → σ → Prop} (h : Safe step exc good post p s)
    (hp : ∀ a t, post a t → last a t) : Safe step exc good last p s := by
  induction p generalizing s with
  | done a => exact hp a s h
  | act op next ih =>
    intro r s' hsp
    rcases h r s' hsp with hex | ⟨hgd, hr⟩
    · exact .inl hex
    · exact .inr ⟨hgd, ih r hr⟩

/-- A program is safe when fewer things can happen. -/
theorem Safe.restrict {step' : σ → (op : Op) → Reply op → σ → Prop}
    (hsp : ∀ s op r s', step' s op r s' → step s op r s') (h : Safe step exc good post p s) :
    Safe step' exc good post p s := by
  induction p generalizing s with
  | done a => exact h
  | act op next ih =>
    intro r s' ha
    rcases h r s' (hsp _ _ _ _ ha) with hex | ⟨hgd, hr⟩
    · exact .inl hex
    · exact .inr ⟨hgd, ih r hr⟩

/-- A run that nothing stops ends as the program promises. -/
theorem Safe.finishes {t : σ} {a : α} (h : Safe step exc good post p s)
    (hn : Finishes step p s a t) (hno : ∀ e, ¬ exc e) : post a t := by
  induction hn with
  | done a s => exact h
  | act hsp hr ih =>
    rcases h _ _ hsp with hex | ⟨-, hnx⟩
    · exact absurd hex (hno _)
    · exact ih hnx

/-- **A safe program performs only good operations**, wherever it stops. -/
theorem Safe.runs {t : σ} {events : List (Event σ Op)} {inv : σ → Prop}
    (h : Safe step exc good post p s) (hn : Runs step p s events t) (hi : inv s)
    (hgd : ∀ e, good e → inv e.after) (hno : ∀ e ∈ events, ¬ exc e) :
    inv t ∧ ∀ e ∈ events, inv e.before ∧ (∃ r, step e.before e.op r e.after) ∧ good e := by
  induction hn with
  | stop p s => exact ⟨hi, by simp⟩
  | act hsp hr ih =>
    rcases h _ _ hsp with hex | ⟨hg, hnx⟩
    · exact absurd hex (hno _ mem_cons_self)
    · obtain ⟨ht, ha⟩ := ih hnx (hgd _ hg) fun e he => hno e (mem_cons_of_mem _ he)
      exact ⟨ht, forall_mem_cons.mpr ⟨⟨hi, ⟨_, hsp⟩, hg⟩, ha⟩⟩

end Runs

section Play
variable {step : σ → (op : Op) → Reply op → σ → Prop}

/-- The run in which every operation is answered by `answer` and nothing stops it. -/
def play (answer : σ → (op : Op) → Reply op × σ) :
    Program Op Reply α → σ → List (Event σ Op) × σ × α
  | .done a, s => ([], s, a)
  | .act op next, s =>
    let rest := play answer (next (answer s op).1) (answer s op).2
    (⟨s, op, (answer s op).2⟩ :: rest.1, rest.2)

theorem play_runs {answer : σ → (op : Op) → Reply op × σ}
    (h : ∀ s op, step s op (answer s op).1 (answer s op).2) (p : Program Op Reply α) (s : σ) :
    Runs step p s (play answer p s).1 (play answer p s).2.1 := by
  induction p generalizing s with
  | done a => exact .stop _ _
  | act op next ih => exact .act (h s op) (ih _ _)

/-- Where every operation has an answer, a program that nothing stops finishes. -/
theorem exists_finishes (h : ∀ s op, ∃ r s', step s op r s') (p : Program Op Reply α) (s : σ) :
    ∃ a t, Finishes step p s a t := by
  induction p generalizing s with
  | done a => exact ⟨a, s, .done a s⟩
  | act op next ih =>
    obtain ⟨r, s', hsp⟩ := h s op
    obtain ⟨a, t, hr⟩ := ih r s'
    exact ⟨a, t, .act hsp hr⟩

end Play

end Program

section History
variable {Op : Type} {Reply : Op → Type} {σ Call : Type}

/-- Calls made one after another on one store, each with the operations it performed. -/
inductive History (step : σ → (op : Op) → Reply op → σ → Prop)
    (program : Call → Program Op Reply Unit) (allowed : σ → Call → Prop) :
    σ → List (Call × List (Event σ Op)) → σ → Prop
  | nil (s : σ) : History step program allowed s [] s
  | cons {s t u : σ} {c : Call} {events : List (Event σ Op)}
      {rest : List (Call × List (Event σ Op))} (hc : allowed s c)
      (hrun : (program c).Runs step s events t)
      (hrest : History step program allowed t rest u) :
      History step program allowed s ((c, events) :: rest) u

/-- **What every call keeps holds along every history** without an excused operation. -/
theorem History.good {step : σ → (op : Op) → Reply op → σ → Prop}
    {program : Call → Program Op Reply Unit} {allowed : σ → Call → Prop} (inv : σ → Prop)
    (exc : Call → Event σ Op → Prop) {good : Event σ Op → Prop}
    (hsa : ∀ s c, inv s → allowed s c → (program c).Safe step (exc c) good (fun _ _ => True) s)
    (hgd : ∀ e, good e → inv e.after) {s t : σ} {h : List (Call × List (Event σ Op))}
    (hh : History step program allowed s h t) (hs : inv s)
    (hno : ∀ c ∈ h, ∀ e ∈ c.2, ¬ exc c.1 e) :
    inv t ∧ ∀ c ∈ h, ∀ e ∈ c.2,
      inv e.before ∧ (∃ r, step e.before e.op r e.after) ∧ good e := by
  induction hh with
  | nil s => exact ⟨hs, by simp⟩
  | cons hc hn hr ih =>
    obtain ⟨hm, he⟩ := (hsa _ _ hs hc).runs hn hs hgd (hno _ mem_cons_self)
    obtain ⟨hd, ha⟩ := ih hm fun c hc' => hno c (mem_cons_of_mem _ hc')
    exact ⟨hd, forall_mem_cons.mpr ⟨he, ha⟩⟩

end History

end ModelProxy
