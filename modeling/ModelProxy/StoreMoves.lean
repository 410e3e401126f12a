import ModelProxy.CapacityTables

/-! # What a write of the capacity store can do

Every write of every transaction is one of four moves: it touches rows without
reviving any, it queues a new request, it sets a scheduler row above all issued
tokens, or it grants a batch of winners within the limit.  What one move preserves
(`StoreInvariant`) and how it may change the store (`Evolves`) is proved once
here; the transactions only have to be shown to be runs of moves.
-/
namespace ModelProxy.Capacity
open List Store

/-- A state a request never leaves for a live one. -/
def AdmissionRequestState.IsTerminal (state : AdmissionRequestState) : Prop :=
  state ≠ .waiting ∧ state ≠ .admitted

instance (state : AdmissionRequestState) : Decidable state.IsTerminal :=
  inferInstanceAs (Decidable (_ ∧ _))

/-- What a lease keeps for ever. -/
structure LeaseIdentity where
  id : String
  admissionRequestId : String
  attemptId : String
  capacityId : String
  fencingToken : Int
deriving DecidableEq, Repr

/-- What names the lease. -/
def CapacityLease.identity (l : CapacityLease) : LeaseIdentity :=
  ⟨l.id, l.admissionRequestId, l.attemptId, l.capacityId, l.fencingToken⟩

/-- The request with this id has no waiting waiter. -/
def Store.NoWaiting (s : Store) (requestId : String) : Prop :=
  ∀ w ∈ s.waiters, w.admissionRequestId = requestId → w.state ≠ .waiting

/-- Rows replaced one by one. -/
def Store.touch (s : Store) (request : AdmissionRequest → AdmissionRequest)
    (waiter : CapacityWaiter → CapacityWaiter) (lease : CapacityLease → CapacityLease) : Store :=
  { s with
    requests := s.requests.map request
    waiters := s.waiters.map waiter
    leases := s.leases.map lease }

/-- A request keeps its identity, and its state unless it ends. -/
structure RequestKept (r r' : AdmissionRequest) : Prop where
  id : r'.id = r.id
  attemptId : r'.attemptId = r.attemptId
  state : r'.state = r.state ∨ r'.state.IsTerminal

/-- A waiter keeps its identity and never waits again. -/
structure WaiterKept (w w' : CapacityWaiter) : Prop where
  id : w'.id = w.id
  admissionRequestId : w'.admissionRequestId = w.admissionRequestId
  waiting : w'.state = .waiting → w.state = .waiting

/-- A lease keeps its identity and is never active again. -/
structure LeaseKept (l l' : CapacityLease) : Prop where
  identity : l'.identity = l.identity
  active : l'.state = .active → l.state = .active

theorem RequestKept.refl (r : AdmissionRequest) : RequestKept r r := ⟨rfl, rfl, .inl rfl⟩

theorem WaiterKept.refl (w : CapacityWaiter) : WaiterKept w w := ⟨rfl, rfl, fun h => h⟩

theorem LeaseKept.refl (l : CapacityLease) : LeaseKept l l := ⟨rfl, fun h => h⟩

variable {l l' : CapacityLease}

theorem LeaseKept.admissionRequestId (h : LeaseKept l l') :
    l'.admissionRequestId = l.admissionRequestId :=
  congrArg LeaseIdentity.admissionRequestId h.identity

theorem LeaseKept.attemptId (h : LeaseKept l l') :
    l'.attemptId = l.attemptId := congrArg LeaseIdentity.attemptId h.identity

theorem LeaseKept.capacityId (h : LeaseKept l l') :
    l'.capacityId = l.capacityId := congrArg LeaseIdentity.capacityId h.identity

theorem LeaseKept.fencingToken (h : LeaseKept l l') :
    l'.fencingToken = l.fencingToken := congrArg LeaseIdentity.fencingToken h.identity

/-- A batch of winners on one capacity: their leases, and the scheduler row after it. -/
structure GrantBatch (s : Store) (capacityId : String) (leases : List CapacityLease)
    (row : CapacityScheduler) (waiter : CapacityWaiter → CapacityWaiter) : Prop where
  once : (leases.map CapacityLease.admissionRequestId).Nodup
  free : ∀ l ∈ leases, ∀ l₀ ∈ s.leases, l₀.admissionRequestId ≠ l.admissionRequestId
  request : ∀ l ∈ leases, ∃ r ∈ s.requests, r.id = l.admissionRequestId ∧
    r.attemptId = l.attemptId
  waiting : ∀ l ∈ leases, ∀ r ∈ s.requests, r.id = l.admissionRequestId → r.state = .waiting
  capacity : ∀ l ∈ leases, l.capacityId = capacityId
  increasing : leases.Pairwise (fun l l' => l.fencingToken < l'.fencingToken)
  above : ∀ l ∈ leases, ∀ l₀ ∈ s.leases, l₀.capacityId = capacityId →
    l₀.fencingToken < l.fencingToken
  counter : ∀ l ∈ s.leases ++ leases, l.capacityId = capacityId →
    l.fencingToken < row.nextFencingToken
  kept : ∀ w ∈ s.waiters, WaiterKept w (waiter w)
  closed : ∀ w ∈ s.waiters, w.admissionRequestId ∈ leases.map CapacityLease.admissionRequestId →
    (waiter w).state ≠ .waiting

/-- The store after a batch. -/
def Store.granted (s : Store) (capacityId : String) (leases : List CapacityLease)
    (row : CapacityScheduler) (waiter : CapacityWaiter → CapacityWaiter) : Store :=
  { s with
    requests := s.requests.map (fun r =>
      if r.id ∈ leases.map CapacityLease.admissionRequestId then { r with state := .admitted }
      else r)
    waiters := s.waiters.map waiter
    leases := s.leases ++ leases
    schedulers := s.schedulers.set capacityId row }

/-- The count stays within the effective limit: `none` is a capacity that does not
exist, `some none` one without a limit. -/
def WithinLimit (limit : Option (Option Int)) (count : Nat) : Prop :=
  ∃ bound, limit = some bound ∧ ∀ n, bound = some n → (count : Int) ≤ n

/-- One write, at the limits in force. -/
inductive Move (limit : String → Option (Option Int)) (s : Store) : Store → Prop
  | touch (request : AdmissionRequest → AdmissionRequest)
      (waiter : CapacityWaiter → CapacityWaiter) (lease : CapacityLease → CapacityLease)
      (hrequest : ∀ r ∈ s.requests, RequestKept r (request r))
      (hwaiter : ∀ w ∈ s.waiters, WaiterKept w (waiter w))
      (hlease : ∀ l ∈ s.leases, LeaseKept l (lease l))
      (hclosed : ∀ r ∈ s.requests, r.state = .waiting → (request r).state ≠ .waiting →
        ∀ w ∈ s.waiters, w.admissionRequestId = r.id → (waiter w).state ≠ .waiting) :
      Move limit s (s.touch request waiter lease)
  | queue (request : AdmissionRequest) (waiters : List CapacityWaiter) (sequence : Int)
      (hid : request.id ∉ s.requests.map AdmissionRequest.id)
      (hattempt : request.attemptId ∉ s.requests.map AdmissionRequest.attemptId)
      (hstate : request.state = .waiting)
      (hids : ((s.waiters ++ waiters).map CapacityWaiter.id).Nodup)
      (hwaiters : ∀ w ∈ waiters, w.admissionRequestId = request.id) :
      Move limit s { s with
        requests := s.requests ++ [request]
        waiters := s.waiters ++ waiters
        enqueueSequence := sequence }
  | schedule (capacityId : String) (row : CapacityScheduler)
      (hrow : ∀ l ∈ s.leases, l.capacityId = capacityId → l.fencingToken < row.nextFencingToken) :
      Move limit s { s with schedulers := s.schedulers.set capacityId row }
  | grant (capacityId : String) (leases : List CapacityLease) (row : CapacityScheduler)
      (waiter : CapacityWaiter → CapacityWaiter)
      (hbatch : GrantBatch s capacityId leases row waiter)
      (hlimit : WithinLimit (limit capacityId) (s.activeCount capacityId + leases.length)) :
      Move limit s (s.granted capacityId leases row waiter)

/-- A run of writes. -/
abbrev Moves (limit : String → Option (Option Int)) : Store → Store → Prop :=
  Relation.ReflTransGen (Move limit)

/-! ## The invariant -/

/-- What every transaction keeps. -/
structure StoreInvariant (s : Store) : Prop where
  requestIds : (s.requests.map AdmissionRequest.id).Nodup
  attemptIds : (s.requests.map AdmissionRequest.attemptId).Nodup
  waiterIds : (s.waiters.map CapacityWaiter.id).Nodup
  waiting : ∀ w ∈ s.waiters, w.state = .waiting →
    ∀ r ∈ s.requests, r.id = w.admissionRequestId → r.state = .waiting
  leaseRequest : ∀ l ∈ s.leases, ∃ r ∈ s.requests, r.id = l.admissionRequestId ∧
    r.attemptId = l.attemptId ∧ r.state ≠ .waiting
  leaseOnce : (s.leases.map CapacityLease.admissionRequestId).Nodup
  admitted : ∀ r ∈ s.requests, r.state = .admitted →
    ∃ l ∈ s.leases, l.admissionRequestId = r.id
  counter : ∀ capacityId row, s.schedulers.get capacityId = some row →
    ∀ l ∈ s.leases, l.capacityId = capacityId → l.fencingToken < row.nextFencingToken
  tokens : s.leases.Pairwise
    (fun l l' => l.capacityId = l'.capacityId → l.fencingToken < l'.fencingToken)

theorem storeInvariant_empty : StoreInvariant Store.empty where
  requestIds := nodup_nil
  attemptIds := nodup_nil
  waiterIds := nodup_nil
  waiting := by simp [Store.empty]
  leaseRequest := by simp [Store.empty]
  leaseOnce := nodup_nil
  admitted := by simp [Store.empty]
  counter := by simp [Store.empty]
  tokens := List.Pairwise.nil

theorem map_congr_kept {α β : Type} {l : List α} {f : α → α} {field : α → β}
    (h : ∀ a ∈ l, field (f a) = field a) : (l.map f).map field = l.map field := by
  rw [map_map]
  exact map_congr_left h

variable {req : AdmissionRequest → AdmissionRequest} {waiter w : CapacityWaiter → CapacityWaiter}
  {lease : CapacityLease → CapacityLease} {ls : List CapacityLease} {s' : Store}

section Preservation
variable {s : Store}

/-- Updates of rows keep the invariant. -/
theorem StoreInvariant.touch (h : StoreInvariant s) (hq : ∀ r ∈ s.requests, RequestKept r (req r))
    (ht : ∀ w ∈ s.waiters, WaiterKept w (waiter w)) (hle : ∀ l ∈ s.leases, LeaseKept l (lease l))
    (hcl : ∀ r ∈ s.requests, r.state = .waiting → (req r).state ≠ .waiting →
      ∀ w ∈ s.waiters, w.admissionRequestId = r.id → (waiter w).state ≠ .waiting) :
    StoreInvariant (s.touch req waiter lease) where
  requestIds := by
    rw [Store.touch, map_congr_kept (fun r hr => (hq r hr).id)]
    exact h.requestIds
  attemptIds := by
    rw [Store.touch, map_congr_kept (fun r hr => (hq r hr).attemptId)]
    exact h.attemptIds
  waiterIds := by
    rw [Store.touch, map_congr_kept (fun w hw => (ht w hw).id)]
    exact h.waiterIds
  waiting := by
    intro w' hw' hwa r' hr' hid
    obtain ⟨w, hw, rfl⟩ := mem_map.mp hw'
    obtain ⟨r, hr, rfl⟩ := mem_map.mp hr'
    have hsm : w.admissionRequestId = r.id := by
      rw [← (ht w hw).admissionRequestId, ← (hq r hr).id, hid]
    have hrw : r.state = .waiting :=
      h.waiting w hw ((ht w hw).waiting hwa) r hr hsm.symm
    by_contra hed
    exact hcl r hr hrw hed w hw hsm hwa
  leaseRequest := by
    intro l' hl'
    obtain ⟨l, hl, rfl⟩ := mem_map.mp hl'
    obtain ⟨r, hr, hid, hat, hs⟩ := h.leaseRequest l hl
    refine ⟨req r, mem_map_of_mem hr, ?_, ?_, ?_⟩
    · rw [(hq r hr).id, (hle l hl).admissionRequestId, hid]
    · rw [(hq r hr).attemptId, (hle l hl).attemptId, hat]
    · rcases (hq r hr).state with hsm | htr
      · rw [hsm]
        exact hs
      · exact htr.1
  leaseOnce := by
    rw [Store.touch, map_congr_kept (fun l hl => (hle l hl).admissionRequestId)]
    exact h.leaseOnce
  admitted := by
    intro r' hr' ha
    obtain ⟨r, hr, rfl⟩ := mem_map.mp hr'
    rcases (hq r hr).state with hs | htr
    · obtain ⟨l, hl, hid⟩ := h.admitted r hr (hs ▸ ha)
      refine ⟨lease l, mem_map_of_mem hl, ?_⟩
      rw [(hq r hr).id, (hle l hl).admissionRequestId, hid]
    · exact absurd ha htr.2
  counter := by
    intro capacityId row hro l' hl' hc
    obtain ⟨l, hl, rfl⟩ := mem_map.mp hl'
    rw [(hle l hl).capacityId] at hc
    rw [(hle l hl).fencingToken]
    exact h.counter capacityId row hro l hl hc
  tokens := by
    simp only [Store.touch, pairwise_map]
    refine List.Pairwise.imp_of_mem ?_ h.tokens
    intro l l' hl hl' hlt hc
    rw [(hle l hl).capacityId, (hle l' hl').capacityId] at hc
    rw [(hle l hl).fencingToken, (hle l' hl').fencingToken]
    exact hlt hc

theorem nodup_map_append_singleton {α β : Type} {l : List α} {f : α → β} {a : α}
    (h : (l.map f).Nodup) (ha : f a ∉ l.map f) : ((l ++ [a]).map f).Nodup := by
  rw [map_append, map_singleton]
  exact h.append (nodup_singleton _) (disjoint_singleton.mpr ha)

/-- A queued request keeps the invariant. -/
theorem StoreInvariant.queue (h : StoreInvariant s) {req : AdmissionRequest}
    {waiters : List CapacityWaiter} {sequence : Int}
    (hid : req.id ∉ s.requests.map AdmissionRequest.id)
    (ht : req.attemptId ∉ s.requests.map AdmissionRequest.attemptId)
    (hs : req.state = .waiting)
    (hi : ((s.waiters ++ waiters).map CapacityWaiter.id).Nodup)
    (hwt : ∀ w ∈ waiters, w.admissionRequestId = req.id) :
    StoreInvariant { s with
      requests := s.requests ++ [req]
      waiters := s.waiters ++ waiters
      enqueueSequence := sequence } where
  requestIds := nodup_map_append_singleton h.requestIds hid
  attemptIds := nodup_map_append_singleton h.attemptIds ht
  waiterIds := hi
  waiting := by
    intro w hw hwa r hr hrw
    rcases mem_append.mp hr with hr | hr
    · rcases mem_append.mp hw with hw | hw
      · exact h.waiting w hw hwa r hr hrw
      · exact absurd (mem_map.mpr ⟨r, hr, hrw.trans (hwt w hw)⟩) hid
    · rw [mem_singleton.mp hr]
      exact hs
  leaseRequest := by
    intro l hl
    obtain ⟨r, hr, hrl⟩ := h.leaseRequest l hl
    exact ⟨r, mem_append_left _ hr, hrl⟩
  leaseOnce := h.leaseOnce
  admitted := by
    intro r hr ha
    rcases mem_append.mp hr with hr | hr
    · exact h.admitted r hr ha
    · rw [mem_singleton.mp hr, hs] at ha
      cases ha
  counter := h.counter
  tokens := h.tokens

variable {capacityId : String} {row : CapacityScheduler}

theorem counter_set {scheds : OrderedMap String CapacityScheduler}
    (h : ∀ capacityId' row', capacityId ≠ capacityId' → scheds.get capacityId' = some row' →
      ∀ l ∈ ls, l.capacityId = capacityId' → l.fencingToken < row'.nextFencingToken)
    (hr : ∀ l ∈ ls, l.capacityId = capacityId → l.fencingToken < row.nextFencingToken) :
    ∀ capacityId' row', (scheds.set capacityId row).get capacityId' = some row' →
      ∀ l ∈ ls, l.capacityId = capacityId' → l.fencingToken < row'.nextFencingToken := by
  intro capacityId' row' hg l hl hc
  rw [OrderedMap.get_set] at hg
  split at hg
  next heq =>
    cases hg
    exact hr l hl (hc.trans heq.symm)
  next hne => exact h capacityId' row' hne hg l hl hc

theorem StoreInvariant.schedule (h : StoreInvariant s)
    (hr : ∀ l ∈ s.leases, l.capacityId = capacityId → l.fencingToken < row.nextFencingToken) :
    StoreInvariant { s with schedulers := s.schedulers.set capacityId row } :=
  { h with counter := counter_set (fun capacityId' row' _ => h.counter capacityId' row') hr }

/-- A batch of grants keeps the invariant. -/
theorem StoreInvariant.grant (h : StoreInvariant s) (hb : GrantBatch s capacityId ls row waiter) :
    StoreInvariant (s.granted capacityId ls row waiter) where
  requestIds := by
    rw [granted, map_congr_kept (fun r _ => by split <;> rfl)]
    exact h.requestIds
  attemptIds := by
    rw [granted, map_congr_kept (fun r _ => by split <;> rfl)]
    exact h.attemptIds
  waiterIds := by
    rw [granted, map_congr_kept (fun w hw => (hb.kept w hw).id)]
    exact h.waiterIds
  waiting := by
    intro w' hw' hwa r' hr' hid
    obtain ⟨w, hw, rfl⟩ := mem_map.mp hw'
    obtain ⟨r, hr, rfl⟩ := mem_map.mp hr'
    rw [(hb.kept w hw).admissionRequestId] at hid
    by_cases hn : r.id ∈ ls.map CapacityLease.admissionRequestId
    · rw [if_pos hn] at hid
      exact absurd hwa (hb.closed w hw (hid ▸ hn))
    · rw [if_neg hn] at hid ⊢
      exact h.waiting w hw ((hb.kept w hw).waiting hwa) r hr hid
  leaseRequest := by
    intro l hl
    rcases mem_append.mp hl with hl | hl
    · obtain ⟨r, hr, hid, ha, hs⟩ := h.leaseRequest l hl
      refine ⟨_, mem_map_of_mem hr, ?_⟩
      split
      · exact ⟨hid, ha, by simp⟩
      · exact ⟨hid, ha, hs⟩
    · obtain ⟨r, hr, hid, ha⟩ := hb.request l hl
      refine ⟨_, mem_map_of_mem hr, ?_⟩
      rw [if_pos (mem_map.mpr ⟨l, hl, hid.symm⟩)]
      exact ⟨hid, ha, by simp⟩
  leaseOnce := by
    rw [granted, map_append]
    refine h.leaseOnce.append hb.once ?_
    intro id hold hnw
    obtain ⟨l₀, hl₀, rfl⟩ := mem_map.mp hold
    obtain ⟨l, hl, heq⟩ := mem_map.mp hnw
    exact hb.free l hl l₀ hl₀ heq.symm
  admitted := by
    intro r' hr' hm
    obtain ⟨r, hr, rfl⟩ := mem_map.mp hr'
    by_cases hn : r.id ∈ ls.map CapacityLease.admissionRequestId
    · obtain ⟨l, hl, hid⟩ := mem_map.mp hn
      rw [if_pos hn]
      exact ⟨l, mem_append_right _ hl, hid⟩
    · rw [if_neg hn] at hm ⊢
      obtain ⟨l, hl, hid⟩ := h.admitted r hr hm
      exact ⟨l, mem_append_left _ hl, hid⟩
  counter := by
    refine counter_set ?_ hb.counter
    intro capacityId' row' hne hg l hl hc
    rcases mem_append.mp hl with hl | hl
    · exact h.counter capacityId' row' hg l hl hc
    · exact absurd ((hb.capacity l hl).symm.trans hc) hne
  tokens := by
    refine pairwise_append.mpr ⟨h.tokens, ?_, ?_⟩
    · refine hb.increasing.imp ?_
      intro l l' hlt _
      exact hlt
    · intro l₀ hl₀ l hl hc
      exact hb.above l hl l₀ hl₀ (hc.trans (hb.capacity l hl))

variable {limit : String → Option (Option Int)}

/-- **One write keeps the invariant.** -/
theorem StoreInvariant.move (h : StoreInvariant s) (hmv : Move limit s s') : StoreInvariant s' := by
  cases hmv with
  | touch req w l hr hw hl hcl =>
    exact h.touch hr hw hl hcl
  | queue req ws sequence hid ha hs hi hwt =>
    exact h.queue hid ha hs hi hwt
  | schedule capacityId row hro => exact h.schedule hro
  | grant capacityId ls row w hb hm => exact h.grant hb

theorem StoreInvariant.moves (h : StoreInvariant s) (hm : Moves limit s s') :
    StoreInvariant s' := by
  induction hm with
  | refl => exact h
  | tail _ hmv ih => exact ih.move hmv

end Preservation

/-! ## How a store may change -/

/-- Leases stay, ended requests stay ended, and active counts grow only within the
limits. -/
structure Evolves (limit : String → Option (Option Int)) (s s' : Store) : Prop where
  leases : s.leases.map CapacityLease.identity <+: s'.leases.map CapacityLease.identity
  ended : ∀ r ∈ s.requests, ∃ r' ∈ s'.requests, r'.id = r.id ∧ r'.attemptId = r.attemptId ∧
    (r.state.IsTerminal → r'.state.IsTerminal)
  active : ∀ capacityId, s'.activeCount capacityId ≤ s.activeCount capacityId ∨
    WithinLimit (limit capacityId) (s'.activeCount capacityId)

section Evolution
variable {limit : String → Option (Option Int)} {s s' s'' : Store}

theorem WithinLimit.mono {bound : Option (Option Int)} {m n : Nat} (h : WithinLimit bound n)
    (hle : m ≤ n) : WithinLimit bound m := by
  obtain ⟨b, hb, hn⟩ := h
  refine ⟨b, hb, fun k hk => ?_⟩
  have := hn k hk
  omega

theorem Evolves.refl (s : Store) : Evolves limit s s :=
  ⟨prefix_rfl, fun r hr => ⟨r, hr, rfl, rfl, fun h => h⟩, fun _ => .inl le_rfl⟩

theorem Evolves.trans (h : Evolves limit s s') (h' : Evolves limit s' s'') :
    Evolves limit s s'' where
  leases := h.leases.trans h'.leases
  ended := by
    intro r hr
    obtain ⟨r', hr', hid, ha, htr⟩ := h.ended r hr
    obtain ⟨r'', hr'', hid', ha', htr'⟩ := h'.ended r' hr'
    exact ⟨r'', hr'', hid'.trans hid, ha'.trans ha, fun hr => htr' (htr hr)⟩
  active := by
    intro capacityId
    rcases h'.active capacityId with hle | hw
    · rcases h.active capacityId with hle' | hw
      · exact .inl (hle.trans hle')
      · exact .inr (hw.mono hle)
    · exact .inr hw

theorem Evolves.touch (hq : ∀ r ∈ s.requests, RequestKept r (req r))
    (hle : ∀ l ∈ s.leases, LeaseKept l (lease l)) :
    Evolves limit s (s.touch req w lease) where
  leases := by
    have hsm := map_congr_kept (fun l hl => (hle l hl).identity)
    exact hsm.symm ▸ prefix_rfl
  ended := by
    intro r hr
    refine ⟨req r, mem_map_of_mem hr, (hq r hr).id, (hq r hr).attemptId, fun htr => ?_⟩
    rcases (hq r hr).state with hs | hed
    · rw [hs]
      exact htr
    · exact hed
  active := by
    intro capacityId
    left
    simp only [Store.activeCount, Store.touch, countP_map]
    refine countP_mono_left ?_
    intro l hl
    simp only [Function.comp_apply, Bool.and_eq_true, decide_eq_true_eq]
    rintro ⟨hc, ha⟩
    exact ⟨(hle l hl).capacityId ▸ hc, (hle l hl).active ha⟩

theorem Evolves.grant {capacityId : String} {leases : List CapacityLease} {row : CapacityScheduler}
    (hb : GrantBatch s capacityId leases row w)
    (hm : WithinLimit (limit capacityId) (s.activeCount capacityId + leases.length)) :
    Evolves limit s (s.granted capacityId leases row w) where
  leases := by
    rw [granted, map_append]
    exact prefix_append _ _
  ended := by
    intro r hr
    refine ⟨_, mem_map_of_mem hr, ?_, ?_, fun htr => ?_⟩
    · split <;> rfl
    · split <;> rfl
    -- a winner waited before the batch
    rw [if_neg]
    · exact htr
    · intro hw
      obtain ⟨l, hl, hid⟩ := mem_map.mp hw
      exact htr.1 (hb.waiting l hl r hr hid.symm)
  active := by
    intro capacityId'
    simp only [activeCount, granted, countP_append]
    by_cases hc : capacityId' = capacityId
    · subst hc
      right
      refine hm.mono ?_
      exact Nat.add_le_add_left countP_le_length _
    · left
      have hno : leases.countP (fun l => decide (l.capacityId = capacityId') &&
          decide (l.state = .active)) = 0 := by
        rw [countP_eq_zero]
        intro l hl
        simp [hb.capacity l hl, Ne.symm hc]
      omega

theorem Evolves.of_move (hmv : Move limit s s') : Evolves limit s s' := by
  cases hmv with
  | touch req w l hq hw hl hcl => exact .touch hq hl
  | queue req ws sequence hid ha hs hi hwt =>
    exact ⟨prefix_rfl, fun r hr => ⟨r, mem_append_left _ hr, rfl, rfl, fun h => h⟩,
      fun _ => .inl le_rfl⟩
  | schedule capacityId row hro =>
    exact ⟨prefix_rfl, fun r hr => ⟨r, hr, rfl, rfl, fun h => h⟩, fun _ => .inl le_rfl⟩
  | grant capacityId ls row w hb hm => exact .grant hb hm

/-- **A run of writes evolves the store.** -/
theorem Evolves.of_moves (hm : Moves limit s s') : Evolves limit s s' := by
  induction hm with
  | refl => exact .refl s
  | tail _ hmv ih => exact ih.trans (.of_move hmv)

end Evolution

end ModelProxy.Capacity
