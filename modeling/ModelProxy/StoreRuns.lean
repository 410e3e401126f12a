import ModelProxy.StoreTransactions

/-! # Runs of the capacity store

A history is any interleaving of transactions, each atomic under the fences it
takes and each on the graph as it finds it.  A transaction that throws commits
nothing.  Whatever the history, slots are never oversubscribed, an attempt gets
one lease, an ended request stays ended, and fencing tokens only grow.
-/
namespace ModelProxy.Capacity
open CapacityLease List

/-- The atomic steps: one per operation, for the sweeps one per row their scan read. -/
inductive Transaction
  | acquire (env : AcquireEnv) (attempt : AdmissionAttempt) (aborted : Bool)
  | heartbeat (now : Instant) (lease : CapacityLeaseHandle) (extensionMs : Option Int)
  | release (env : FillEnv) (now : Instant) (lease : CapacityLeaseHandle)
  | terminalizeAttempt (now : Instant) (attemptId : String) (state : Ending)
  | reclaimExpired (env : FillEnv) (lockedNow : Instant) (lease : CapacityLease)
  | sweepAbandoned (lockedNow : Instant) (graceMs : Int) (requestId : String)
  | sweepOrphans (env : FillEnv) (now : Instant) (busy : Bool) (requestId : String)

/-- The store after a transaction: what it committed, or the store as it was. -/
def committed {ε α : Type} (s : Store) : Except ε (α × Store) → Store
  | .ok result => result.2
  | .error _ => s

/-- The store once the transaction has ended. -/
def Transaction.commit (g : Graph) (s : Store) : Transaction → Store
  | .acquire env attempt aborted => committed s (Capacity.acquire env g attempt aborted s)
  | .heartbeat now lease extensionMs => committed s (Capacity.heartbeat now lease extensionMs s)
  | .release env now lease => committed s (Capacity.release env g now lease s)
  | .terminalizeAttempt now attemptId state => (Capacity.terminalizeAttempt now attemptId state s).2
  | .reclaimExpired env lockedNow lease => committed s (reclaimLease env g lockedNow lease s)
  | .sweepAbandoned lockedNow graceMs requestId =>
    (sweepAbandonedRequest lockedNow graceMs requestId s).2
  | .sweepOrphans env now busy requestId =>
    committed s (sweepOrphanedRequest env g now busy requestId s)

/-- One step of a history: a transaction on the graph it reads. -/
structure HistoryStep where
  graph : Graph
  transaction : Transaction

/-- The store after a history. -/
def execute (s : Store) (history : List HistoryStep) : Store :=
  history.foldl (fun s step => step.transaction.commit step.graph s) s

section Runs
variable {g : Graph} {s : Store}

theorem committed_moves {ε α : Type} {limit : String → Option (Option Int)}
    {outcome : Except ε (α × Store)}
    (h : ∀ res, outcome = .ok res → Moves limit s res.2) :
    Moves limit s (committed s outcome) := by
  cases outcome with
  | error e => exact .refl
  | ok res => exact h res rfl

/-- **A step is a run of moves.** -/
theorem commit_moves (hi : StoreInvariant s) (t : Transaction) :
    Moves g.limitOf s (t.commit g s) := by
  cases t with
  | acquire env attempt aborted => exact committed_moves (fun _ h => acquire_moves hi h)
  | heartbeat now l extensionMs => exact committed_moves (fun _ h => heartbeat_moves h)
  | release env now l => exact committed_moves (fun _ h => release_moves hi h)
  | terminalizeAttempt now aid st => exact terminalizeAttempt_moves aid st
  | reclaimExpired env lockedNow l =>
    exact committed_moves (fun _ h => reclaimLease_moves hi h)
  | sweepAbandoned lockedNow graceMs requestId =>
    exact sweepAbandonedRequest_moves graceMs requestId
  | sweepOrphans env now busy requestId =>
    exact committed_moves (fun _ h => sweepOrphanedRequest_moves hi h)

theorem execute_invariant : ∀ (history : List HistoryStep) {s : Store}, StoreInvariant s →
    StoreInvariant (execute s history)
  | [], _, h => h
  | step :: history, _, h =>
    execute_invariant history (h.moves (commit_moves h step.transaction))

/-- What lasts over a run, whatever the limits were on the way. -/
structure Lasting (s s' : Store) : Prop where
  leases : s.leases.map CapacityLease.identity <+: s'.leases.map CapacityLease.identity
  ended : ∀ r ∈ s.requests, ∃ r' ∈ s'.requests, r'.id = r.id ∧
    (r.state.IsTerminal → r'.state.IsTerminal)

theorem execute_lasting : ∀ (history : List HistoryStep) {s : Store}, StoreInvariant s →
    Lasting s (execute s history)
  | [], s, _ => ⟨prefix_rfl, fun r hr => ⟨r, hr, rfl, fun h => h⟩⟩
  | step :: history, s, h => by
    have hm := commit_moves (g := step.graph) h step.transaction
    have he := Evolves.of_moves hm
    have hs := execute_lasting history (h.moves hm)
    refine ⟨he.leases.trans hs.leases, fun r hr => ?_⟩
    obtain ⟨r', hr', hid, -, htr⟩ := he.ended r hr
    obtain ⟨r'', hr'', hid', htr'⟩ := hs.ended r' hr'
    exact ⟨r'', hr'', hid'.trans hid, fun hr => htr' (htr hr)⟩

end Runs

/-! ## Safety -/

variable {r : AdmissionRequest}

section Safety
variable {s s' : Store}

theorem StoreInvariant.lease_attempts (h : StoreInvariant s) :
    (s.leases.map attemptId).Nodup := by
  have hon := pairwise_map.mp h.leaseOnce
  refine pairwise_map.mpr (List.Pairwise.imp_of_mem ?_ hon)
  intro l l' hl hl' hne ha
  obtain ⟨r, hr, hid, hra, -⟩ := h.leaseRequest l hl
  obtain ⟨r', hr', hid', hra', -⟩ := h.leaseRequest l' hl'
  have hsm : r = r' :=
    inj_on_of_nodup_map h.attemptIds hr hr' (hra.trans (ha.trans hra'.symm))
  exact hne (hid.symm.trans ((congrArg AdmissionRequest.id hsm).trans hid'))

/-- Only a waiting request has waiting waiters. -/
theorem StoreInvariant.noWaiting (h : StoreInvariant s) (hr : r ∈ s.requests)
    (hs : r.state ≠ .waiting) : s.NoWaiting r.id :=
  fun w hw hid hwa => hs (h.waiting w hw hwa r hr hid.symm)

/-- The lease of an admitted request. -/
theorem StoreInvariant.admitted_lease (h : StoreInvariant s) (hr : r ∈ s.requests)
    (hs : r.state = .admitted) :
    ∃ l ∈ s.leases, l.admissionRequestId = r.id ∧ l.attemptId = r.attemptId ∧
      ∀ l' ∈ s.leases, l'.attemptId = r.attemptId → l' = l := by
  obtain ⟨l, hl, hid⟩ := h.admitted r hr hs
  obtain ⟨r', hr', hid', ha, -⟩ := h.leaseRequest l hl
  have hsm : r' = r := inj_on_of_nodup_map h.requestIds hr' hr (hid'.trans hid)
  have hla : l.attemptId = r.attemptId := by rw [← ha, hsm]
  exact ⟨l, hl, hid, hla, fun l' hl' hla' =>
    inj_on_of_nodup_map h.lease_attempts hl' hl (hla'.trans hla.symm)⟩

/-- A lease granted later has a larger token than every earlier one of its capacity. -/
theorem Lasting.later_token (h : Lasting s s') (hi : StoreInvariant s') {l l' : CapacityLease}
    (hl : l ∈ s.leases) (hl' : l' ∈ s'.leases)
    (hn : l'.identity ∉ s.leases.map identity)
    (hc : l.capacityId = l'.capacityId) : l.fencingToken < l'.fencingToken := by
  obtain ⟨later, ht⟩ := h.leases
  have hk : (s'.leases.map identity).Pairwise
      (fun i i' => i.capacityId = i'.capacityId → i.fencingToken < i'.fencingToken) :=
    pairwise_map.mpr hi.tokens
  rw [← ht] at hk
  have hm : l'.identity ∈ s.leases.map identity ++ later :=
    ht ▸ mem_map_of_mem hl'
  have hm' : l'.identity ∈ later := (mem_append.mp hm).resolve_left hn
  exact (pairwise_append.mp hk).2.2 _ (mem_map_of_mem hl) _ hm' hc

/-- **Safety of the capacity store over every interleaving.**  After any history from
the empty store: a step raises a capacity's active leases only within the limit
then in force; an attempt has at most one lease, which an admitted request has, and
no waiting waiter beside it; an ended request has no waiting waiter and stays ended
whatever follows; the tokens of a capacity increase in the order of the grants, and
leases are never lost. -/
theorem capacityStore_safe (history : List HistoryStep) :
    let s := execute Store.empty history
    (∀ (g : Graph) (t : Transaction) (capacityId : String),
      s.activeCount capacityId < (t.commit g s).activeCount capacityId →
        WithinLimit (g.limitOf capacityId) ((t.commit g s).activeCount capacityId)) ∧
    ((s.leases.map attemptId).Nodup ∧ ∀ r ∈ s.requests, r.state = .admitted → s.NoWaiting r.id ∧
        ∃ l ∈ s.leases, l.admissionRequestId = r.id ∧ l.attemptId = r.attemptId ∧
          ∀ l' ∈ s.leases, l'.attemptId = r.attemptId → l' = l) ∧
    (∀ r ∈ s.requests, r.state.IsTerminal → s.NoWaiting r.id ∧
      ∀ later, ∀ r' ∈ (execute s later).requests, r'.id = r.id → r'.state.IsTerminal) ∧
    (s.leases.Pairwise (fun l l' => l.capacityId = l'.capacityId →
        l.fencingToken < l'.fencingToken) ∧
      ∀ later, s.leases.map identity <+: (execute s later).leases.map identity ∧
        ∀ l ∈ s.leases, ∀ l' ∈ (execute s later).leases,
          l'.identity ∉ s.leases.map identity → l.capacityId = l'.capacityId →
            l.fencingToken < l'.fencingToken) := by
  intro s
  have hi : StoreInvariant s := execute_invariant history storeInvariant_empty
  refine ⟨?_, ⟨hi.lease_attempts, ?_⟩, ?_, hi.tokens, ?_⟩
  · intro g t capacityId hra
    rcases (Evolves.of_moves (commit_moves hi t)).active capacityId with hle | hw
    · exact absurd hra (Nat.not_lt.mpr hle)
    · exact hw
  · intro r hr hs
    exact ⟨hi.noWaiting hr (by rw [hs]; decide), hi.admitted_lease hr hs⟩
  · intro r hr ht
    refine ⟨hi.noWaiting hr ht.1, fun later r' hr' hid => ?_⟩
    obtain ⟨r'', hr'', hid'', he⟩ := (execute_lasting later hi).ended r hr
    have hm : r'' = r' := inj_on_of_nodup_map (execute_invariant later hi).requestIds hr'' hr'
      (hid''.trans hid.symm)
    exact hm ▸ he ht
  · intro later
    refine ⟨(execute_lasting later hi).leases, ?_⟩
    intro l hl l' hl' hn hc
    exact (execute_lasting later hi).later_token (execute_invariant later hi) hl hl' hn
      hc

end Safety

end ModelProxy.Capacity
