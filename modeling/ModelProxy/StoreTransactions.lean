import ModelProxy.StoreMoves
import ModelProxy.Acquire
import ModelProxy.PlannerRefinement
import Mathlib.Data.List.TakeWhile

/-! # Every transaction is a run of moves

One lemma per function of the store, from single updates up to `acquire`: what it
commits is reached by moves at the limits of the graph it read.  The invariant is
needed on the way, because the planner's guarantees hold for snapshots whose
waiter ids are distinct and the write phase finds winners by their ids.
-/
namespace ModelProxy.Capacity
open List Store OrderedMap
open CapacityWaiter (close)
open CapacityLease

variable {limit : String → Option (Option Int)} {g : Graph} {s s' : Store} {cap reqId : String}
  {now : Instant} {st : AdmissionRequestState} {p : CapacityWaiter → Bool}
  {f : AdmissionRequest → AdmissionRequest} {l : CapacityLease} {res : Bool × Store} {round : Nat}
  {gs : List PlannedGrant} {ownerGone : Bool} {req old : AdmissionRequest}
  {lastChance caps : List String}

/-- The effective limit of every capacity that exists. -/
def Graph.limitOf (g : Graph) (capacityId : String) : Option (Option Int) :=
  (g.instance? capacityId).map RuntimeInstance.hardConcurrencyLimit

/-! ## Single updates -/

/-- A transaction that commits what moves have reached. -/
theorem moves_ok {ε α : Type} {a : α} {res : α × Store} (hm : Moves limit s s')
    (h : (.ok (a, s') : Except ε (α × Store)) = .ok res) : Moves limit s res.2 := by
  cases h
  exact hm

theorem AdmissionRequest.close_kept (h : st.IsTerminal) (now : Instant) (why : String)
    (r : AdmissionRequest) :
    RequestKept r (r.close st now why) := ⟨rfl, rfl, .inr h⟩

theorem CapacityWaiter.close_kept {st : CapacityWaiterState} (h : st ≠ .waiting)
    (now : Instant) (why : Option String) (w : CapacityWaiter) :
    WaiterKept w (w.close st now why) := ⟨rfl, rfl, fun hw => absurd hw h⟩

theorem CapacityLease.retire_kept {st : CapacityLeaseState} (h : st ≠ .active)
    (now : Instant) (why : String) (l : CapacityLease) :
    LeaseKept l (l.retire st now why) := ⟨rfl, fun hl => absurd hl h⟩

theorem kept_ite {α : Type} {R : α → α → Prop} (hrf : ∀ a, R a a) {l : List α} {p : α → Bool}
    {f : α → α} (h : ∀ a ∈ l, p a = true → R a (f a)) :
    ∀ a ∈ l, R a (if p a then f a else a) := by
  intro a ha
  split
  · exact h a ha ‹_›
  · exact hrf a

theorem updateWaiters_moves {f : CapacityWaiter → CapacityWaiter}
    (h : ∀ w ∈ s.waiters, p w = true → WaiterKept w (f w)) :
    Moves limit s (s.updateWaiters p f) := by
  have heq : s.updateWaiters p f = s.touch id (fun w => if p w then f w else w) id := by
    simp [updateWaiters, touch]
  rw [heq]
  exact .single (.touch _ _ _ (fun r _ => .refl r) (kept_ite WaiterKept.refl h)
    (fun l _ => .refl l) (fun r _ hw hed => absurd hw hed))

theorem updateLeases_moves {p : CapacityLease → Bool} {f : CapacityLease → CapacityLease}
    (h : ∀ l ∈ s.leases, p l = true → LeaseKept l (f l)) :
    Moves limit s (s.updateLeases p f) := by
  have heq : s.updateLeases p f = s.touch id id (fun l => if p l then f l else l) := by
    simp [updateLeases, touch]
  rw [heq]
  exact .single (.touch _ _ _ (fun r _ => .refl r) (fun w _ => .refl w)
    (kept_ite LeaseKept.refl h) (fun r _ hw hed => absurd hw hed))

theorem updateRequests_moves {p : AdmissionRequest → Bool}
    (h : ∀ r ∈ s.requests, p r = true → RequestKept r (f r))
    (hcl : ∀ r ∈ s.requests, p r = true → r.state = .waiting → (f r).state ≠ .waiting →
      s.NoWaiting r.id) : Moves limit s (s.updateRequests p f) := by
  have heq : s.updateRequests p f = s.touch (fun r => if p r then f r else r) id id := by
    simp [updateRequests, touch]
  rw [heq]
  refine .single (.touch _ _ _ (kept_ite RequestKept.refl h) (fun w _ => .refl w)
    (fun l _ => .refl l) ?_)
  intro r hr hwa hed w hw hid
  cases hp : p r with
  | true =>
    simp only [hp, if_true] at hed
    exact hcl r hr hp hwa hed w hw hid
  | false =>
    simp only [hp, Bool.false_eq_true, if_false] at hed
    exact absurd hwa hed

/-- Ending requests that do not wait, or have no waiting waiter. -/
theorem closeRequests_moves {p : AdmissionRequest → Bool} (hs : st.IsTerminal) (now : Instant)
    (why : String)
    (hcl : ∀ r ∈ s.requests, p r = true → r.state = .waiting → s.NoWaiting r.id) :
    Moves limit s (s.updateRequests p (AdmissionRequest.close st now why)) :=
  updateRequests_moves (fun r _ _ => r.close_kept hs now why)
    (fun r hr hp hw _ => hcl r hr hp hw)

/-- Ending a request is a run of writes. -/
theorem endRequest_moves (reqId : String) (ending : Ending) (now : Instant)
    (why : String) : Moves limit s (endRequest s reqId ending now why) := by
  have hq : ending.request.IsTerminal := by cases ending <;> decide
  have ht : ending.waiter ≠ .waiting := by cases ending <;> decide
  have heq : endRequest s reqId ending now why = s.touch
      (fun r => if decide (r.id = reqId) then r.close ending.request now why else r)
      (fun w => if decide (w.admissionRequestId = reqId) && decide (w.state = .waiting) then
        w.close ending.waiter now (some why) else w) id := by
    simp [endRequest, updateRequests, updateWaiters, touch]
  rw [heq]
  refine .single (.touch _ _ _ (kept_ite RequestKept.refl (fun r _ _ => r.close_kept hq _ _))
    (kept_ite WaiterKept.refl (fun w _ _ => w.close_kept ht _ _)) (fun l _ => .refl l) ?_)
  intro r _ hwa hed w _ hid
  have hr : r.id = reqId := by
    by_contra hne
    simp only [hne, decide_false, Bool.false_eq_true, if_false] at hed
    exact hed hwa
  by_cases hw : w.state = .waiting
  · simp only [hid, hr, hw, decide_true, Bool.and_true, if_true]
    exact ht
  · simp only [hw, decide_false, Bool.and_false, Bool.false_eq_true, if_false]
    exact hw

/-! ## The read phase -/

theorem closeWaiters_moves {st : CapacityWaiterState} (hs : st ≠ .waiting) (now : Instant)
    (why : Option String) : Moves limit s (s.updateWaiters p (close st now why)) :=
  updateWaiters_moves (fun w _ _ => w.close_kept hs now why)

theorem noWaiting_of_any
    (h : ¬ (s.waitersOf reqId).any (fun w => decide (w.state = .waiting)) = true) :
    s.NoWaiting reqId := by
  intro w hw hid hwa
  refine h (any_eq_true.mpr ⟨w, ?_, by simpa using hwa⟩)
  exact mem_filter.mpr ⟨hw, by simpa using hid⟩

theorem cancelOrphanedWaiter_moves (w : CapacityWaiter) (now : Instant) :
    Moves limit s (cancelOrphanedWaiter s w now) := by
  have hc : CapacityWaiterState.cancelled ≠ .waiting := by decide
  unfold cancelOrphanedWaiter
  generalize hs' : s.updateWaiters _ _ = s'
  have hf : Moves limit s s' := hs' ▸ closeWaiters_moves hc now _
  refine hf.trans ?_
  dsimp only
  split
  · exact .refl
  next hno =>
  split
  · exact .refl
  split
  · exact .refl
  · refine closeRequests_moves (by decide) now _ ?_
    intro r _ hr _
    rw [decide_eq_true_eq] at hr
    rw [hr]
    exact noWaiting_of_any hno

theorem dropOrphanedWaiters_moves : ∀ (queued : List QueuedWaiter) (s : Store),
    Moves limit s (dropOrphanedWaiters g cap now queued s).2
  | [], _ => .refl
  | q :: qs, s => by
    unfold dropOrphanedWaiters
    split
    · exact dropOrphanedWaiters_moves qs s
    · exact (cancelOrphanedWaiter_moves q.waiter now).trans (dropOrphanedWaiters_moves qs _)

variable (g cap now) in
theorem dropOrphanedWaiters_sublist : ∀ (queued : List QueuedWaiter) (s : Store),
    (dropOrphanedWaiters g cap now queued s).1.Sublist queued
  | [], _ => .slnil
  | q :: qs, s => by
    unfold dropOrphanedWaiters
    split
    · exact (dropOrphanedWaiters_sublist qs s).cons_cons q
    · exact (dropOrphanedWaiters_sublist qs _).cons q

theorem mem_queuedWaiters {q : QueuedWaiter} (h : q ∈ queuedWaiters s cap) :
    q.waiter ∈ s.waiters ∧ q.request ∈ s.requests ∧
      q.request.id = q.waiter.admissionRequestId := by
  obtain ⟨w, hw, hq⟩ := mem_filterMap.mp h
  split at hq
  · cases hq
  next req hr =>
  split at hq
  · cases hq
    exact ⟨mem_of_mem_filter hw, mem_of_find?_eq_some hr, by simpa using find?_some hr⟩
  · cases hq

theorem map_filterMap_sublist {α β γ : Type} {f : α → Option β} (key : β → γ) (key' : α → γ)
    (h : ∀ a b, f a = some b → key b = key' a) : ∀ l : List α,
    ((l.filterMap f).map key).Sublist (l.map key')
  | [] => .slnil
  | a :: l => by
    cases hf : f a with
    | none =>
      rw [filterMap_cons_none hf]
      exact (map_filterMap_sublist key key' h l).cons _
    | some b =>
      rw [filterMap_cons_some hf, map_cons, map_cons, h a b hf]
      exact (map_filterMap_sublist key key' h l).cons_cons _

theorem queuedWaiters_ids_sublist (s : Store) (cap : String) :
    ((queuedWaiters s cap).map (fun q => q.waiter.id)).Sublist
      (s.waiters.map CapacityWaiter.id) := by
  refine (map_filterMap_sublist _ CapacityWaiter.id ?_ _).trans (filter_sublist.map _)
  intro w q hq
  split at hq
  · cases hq
  · split at hq
    · cases hq
      rfl
    · cases hq

/-- What a read leaves for the plan and the write: the capacity's limit and active
count, distinct waiters, and a row for each that names a request of the store. -/
structure ReadSound (g : Graph) (capacityId : String) (read : AdmissionRead) (s : Store) :
    Prop where
  limit : g.limitOf capacityId = some read.snapshot.capacityLimit
  active : read.snapshot.active = s.activeCount capacityId
  distinct : read.snapshot.DistinctWaiters
  row : ∀ w ∈ read.snapshot.waiters, ∃ row, read.rows.get w.waiterId = some row ∧
    row.admissionRequestId = w.admissionRequestId ∧
    ∃ r ∈ s.requests, r.id = row.admissionRequestId ∧ r.attemptId = row.attemptId

theorem lt_firstFencingToken (hl : l ∈ s.leases) (hc : l.capacityId = cap) :
    l.fencingToken < firstFencingToken s cap := by
  unfold firstFencingToken
  have hm : l.fencingToken ∈ (s.leases.filter (fun l => decide (l.capacityId = cap))).map
      fencingToken :=
    mem_map_of_mem (mem_filter.mpr ⟨hl, by simpa using hc⟩)
  generalize (s.leases.filter (fun l => decide (l.capacityId = cap))).map
    fencingToken = tokens at hm
  cases hx : tokens.max? with
  | none =>
    rw [max?_eq_none_iff] at hx
    rw [hx] at hm
    exact absurd hm not_mem_nil
  | some top =>
    have hle := (max?_eq_some_iff.mp hx).2 _ hm
    rw [Option.getD_some]
    omega

variable (limit) in
/-- A runtime row counts above every token issued, and only scheduler rows change. -/
theorem capacityRuntime_spec (hi : StoreInvariant s) (cap userId : String) :
    ∃ schedulers, (capacityRuntime s cap userId).2 = { s with schedulers := schedulers } ∧
      Moves limit s (capacityRuntime s cap userId).2 ∧
      ∀ l ∈ s.leases, l.capacityId = cap →
        l.fencingToken < (capacityRuntime s cap userId).1.nextFencingToken := by
  unfold capacityRuntime
  split
  next row hr => exact ⟨s.schedulers, rfl, .refl, hi.counter cap row hr⟩
  · have ha : ∀ l ∈ s.leases, l.capacityId = cap →
        l.fencingToken < firstFencingToken s cap := fun l hl => lt_firstFencingToken hl
    exact ⟨_, rfl, .single (.schedule cap _ ha), ha⟩

variable (limit) in
/-- What the planner is given. -/
theorem snapshotOf_spec (cmp : Comparator String) {rt : RuntimeInstance}
    {ws : List QueuedWaiter} (hv : StoreInvariant s)
    (hr : g.instance? cap = some rt)
    (hi : (ws.map (fun q => q.waiter.id)).Nodup)
    (hrq : ∀ q ∈ ws, ∃ r ∈ s.requests, r.id = q.waiter.admissionRequestId ∧
      r.attemptId = q.request.attemptId) :
    Moves limit s (snapshotOf cmp g rt cap ws s).2 ∧
      ReadSound g cap (snapshotOf cmp g rt cap ws s).1
        (snapshotOf cmp g rt cap ws s).2 := by
  obtain ⟨schedulers, hs, hm⟩ : ∃ schedulers,
      (snapshotOf cmp g rt cap ws s).2 =
        { s with schedulers := schedulers } ∧
      Moves limit s (snapshotOf cmp g rt cap ws s).2 := by
    unfold snapshotOf
    split
    · exact ⟨s.schedulers, rfl, .refl⟩
    · obtain ⟨schedulers, hs, hm, -⟩ :=
        capacityRuntime_spec limit hv cap rt.userId
      exact ⟨schedulers, hs, hm⟩
  refine ⟨hm, ?_⟩
  rw [hs]
  refine ⟨?_, ?_, ?_, ?_⟩
  · rw [Graph.limitOf, hr]
    rfl
  · exact (countP_eq_length_filter).symm
  · simpa [AdmissionSnapshot.DistinctWaiters, snapshotOf, QueuedWaiter.plannerWaiter,
      QueuedWaiter.window, Function.comp_def] using hi
  · intro w hw
    obtain ⟨q, hq, rfl⟩ := mem_map.mp hw
    refine ⟨q.row, get_eq_some.mpr ?_, rfl, hrq q hq⟩
    change _ ∈ (ofList _).entries
    rw [entries_ofList (by simpa [Function.comp_def] using hi)]
    exact mem_map.mpr ⟨q, hq, rfl⟩

variable (limit) in
/-- **The read phase** runs moves and leaves a sound read. -/
theorem readAdmissionSnapshot_spec {cmp : Comparator String} (hi : StoreInvariant s)
    (creating : Option String) (lastChance : List String) {read : Option AdmissionRead}
    (hrd : readAdmissionSnapshot cmp g s cap now creating
      lastChance = (read, s')) : Moves limit s s' ∧ ∀ r, read = some r → ReadSound g cap r s' := by
  unfold readAdmissionSnapshot at hrd
  have hs : Moves limit s
      (sweepUnroutable g (sweepDeadlines s cap now creating) cap now) :=
    (closeWaiters_moves (by decide) now _).trans (closeWaiters_moves (by decide) now _)
  generalize sweepUnroutable g (sweepDeadlines s cap now creating) cap now
    = swept at hrd hs
  have hw := hi.moves hs
  dsimp only at hrd
  split at hrd
  · cases hrd
    exact ⟨hs, fun r hr => by cases hr⟩
  next rt hn =>
  have hdr : Moves limit swept
      (dropOrphanedWaiters g cap now (queuedWaiters swept cap) swept).2 :=
    dropOrphanedWaiters_moves _ _
  have hb := dropOrphanedWaiters_sublist g cap now (queuedWaiters swept cap) swept
  generalize dropOrphanedWaiters g cap now (queuedWaiters swept cap) swept
    = living at hrd hdr hb
  generalize metricFullWaiterIds g living.2 living.1 now creating lastChance = full
    at hrd
  have hf : (living.1.filter (fun q => decide (q.waiter.id ∉ full))).Sublist
      (queuedWaiters swept cap) := filter_sublist.trans hb
  generalize living.1.filter (fun q => decide (q.waiter.id ∉ full)) = waiters at hrd hf
  have hsc := snapshotOf_spec limit cmp (hw.moves hdr) hn
    (hw.waiterIds.sublist
      ((hf.map (fun q => q.waiter.id)).trans (queuedWaiters_ids_sublist swept cap)))
    (fun q hq => by
      obtain ⟨-, hre, hid⟩ := mem_queuedWaiters (hf.subset hq)
      obtain ⟨r, hr, hd, ha, -⟩ := (Evolves.of_moves hdr).ended _ hre
      exact ⟨r, hr, hd.trans hid, ha⟩)
  cases hrd
  refine ⟨hs.trans (hdr.trans hsc.1), fun r hr => ?_⟩
  cases hr
  exact hsc.2

/-! ## The write phase -/

section
variable {env : FillEnv} {opts : FillOptions}

/-- The leases made for a batch of grants. -/
structure LeasesMade (requests : List AdmissionRequest) (capacityId : String)
    (grants : List PlannedGrant) (firstToken : Int) (leases : List CapacityLease) : Prop where
  winners : leases.map CapacityLease.admissionRequestId =
    grants.map PlannedGrant.admissionRequestId
  capacity : ∀ l ∈ leases, l.capacityId = capacityId
  request : ∀ l ∈ leases, ∃ r ∈ requests, r.id = l.admissionRequestId ∧ r.attemptId = l.attemptId
  token : ∀ l ∈ leases, firstToken ≤ l.fencingToken ∧ l.fencingToken < firstToken + grants.length
  increasing : leases.Pairwise (fun l l' => l.fencingToken < l'.fencingToken)

/-- The leases a plan makes. -/
theorem leaseRows_made {reqs : List AdmissionRequest}
    {rows : OrderedMap String AdmissionWaiterRow} :
    ∀ (gs : List PlannedGrant) (firstToken : Int) (index : Nat) (leases : List CapacityLease),
      (∀ grant ∈ gs, ∃ row, rows.get grant.waiterId = some row ∧
        row.admissionRequestId = grant.admissionRequestId ∧
        ∃ r ∈ reqs, r.id = row.admissionRequestId ∧ r.attemptId = row.attemptId) →
      leaseRows env cap now round rows gs firstToken index = .ok leases →
      LeasesMade reqs cap gs firstToken leases
  | [], firstToken, index, leases, _, hrw => by
    cases hrw
    exact ⟨rfl, by simp, by simp, by simp, .nil⟩
  | grant :: gs, firstToken, index, leases, hg, hrw => by
    obtain ⟨row, hw, hn, hq⟩ := hg grant mem_cons_self
    simp only [leaseRows, hw] at hrw
    obtain ⟨rest, hr, hrw⟩ := bind_eq_ok.mp hrw
    cases hrw
    have ih := leaseRows_made gs (firstToken + 1) (index + 1) rest
      (fun g' hgr' => hg g' (mem_cons_of_mem _ hgr')) hr
    refine ⟨?_, forall_mem_cons.mpr ⟨rfl, ih.capacity⟩,
      forall_mem_cons.mpr ⟨hq, ih.request⟩, ?_, ?_⟩
    · rw [map_cons, map_cons, ih.winners]
      exact congrArg (· :: _) hn
    · rw [length_cons, forall_mem_cons]
      refine ⟨?_, fun l hl => ?_⟩
      · simp only [grantedLease]
        omega
      · have := ih.token l hl
        omega
    · refine pairwise_cons.mpr ⟨fun l hl => ?_, ih.increasing⟩
      have := ih.token l hl
      simp only [grantedLease]
      omega

theorem writable_spec (hi : StoreInvariant s) {g : PlannedGrant} (h : writable s g = true) :
    (∀ r ∈ s.requests, r.id = g.admissionRequestId → r.state = .waiting) ∧
      ∀ l ∈ s.leases, l.admissionRequestId ≠ g.admissionRequestId := by
  unfold writable at h
  split at h
  · cases h
  next request hq =>
  simp only [Bool.and_eq_true, decide_eq_true_eq, Option.isNone_iff_eq_none] at h
  refine ⟨fun r hr hid => ?_, fun l hl hid => ?_⟩
  · have hfd : request.id = g.admissionRequestId := by
      simpa using find?_some hq
    have hsm : r = request := inj_on_of_nodup_map hi.requestIds hr
      (mem_of_find?_eq_some hq) (hid.trans hfd.symm)
    rw [hsm]
    exact h.1
  · have hno := find?_eq_none.mp h.2 l hl
    simp [hid] at hno

/-- What the two waiter updates of a batch do to one waiter. -/
def settleWaiter (now : Instant) (grants : List PlannedGrant) (w : CapacityWaiter) :
    CapacityWaiter :=
  let lost := if decide (w.admissionRequestId ∈ grants.map PlannedGrant.admissionRequestId) &&
      decide (w.state = .waiting) && decide (w.id ∉ grants.map PlannedGrant.waiterId) then
    w.close .cancelled now (some "sibling_lost") else w
  if decide (lost.id ∈ grants.map PlannedGrant.waiterId) then lost.close .admitted now none
  else lost

theorem settleWaiter_kept (now : Instant) (gs : List PlannedGrant) (w : CapacityWaiter) :
    WaiterKept w (settleWaiter now gs w) := by
  unfold settleWaiter
  dsimp only
  split
  · split
    · exact ⟨rfl, rfl, fun h => by cases h⟩
    · exact ⟨rfl, rfl, fun h => by cases h⟩
  · split
    · exact ⟨rfl, rfl, fun h => by cases h⟩
    · exact .refl w

theorem settleWaiter_closed {w : CapacityWaiter}
    (h : w.admissionRequestId ∈ gs.map PlannedGrant.admissionRequestId) :
    (settleWaiter now gs w).state ≠ .waiting := by
  unfold settleWaiter
  by_cases hw : w.id ∈ gs.map PlannedGrant.waiterId
  · simp [hw, close]
  · by_cases hwa : w.state = .waiting
    · simp [hw, h, hwa, close]
    · simp [hw, hwa]

theorem writeGrants_eq {ls : List CapacityLease} (hw : ls.map admissionRequestId =
      gs.map PlannedGrant.admissionRequestId) (row : CapacityScheduler) :
    writeGrants now { s with schedulers := s.schedulers.set cap row } gs ls =
      s.granted cap ls row (settleWaiter now gs) := by
  simp only [writeGrants, granted, updateRequests, updateWaiters, map_map,
    hw, Store.mk.injEq, and_true]
  refine ⟨?_, rfl⟩
  simp only [decide_eq_true_eq]

/-- **The write phase** is a run of moves: a scheduler row and one batch. -/
theorem persistGrants_moves (hi : StoreInvariant s) {read : AdmissionRead}
    (hrd : ReadSound g cap read s) {plan : GrantPlan} (hpl : GrantsSound read.snapshot plan.grants)
    {userId : String} {outcome : Persisted × Store}
    (h : persistGrants env cap now round read.rows plan userId s = .ok outcome) :
    Moves g.limitOf s outcome.2 := by
  unfold persistGrants at h
  dsimp only at h
  split at h
  · exact moves_ok .refl h
  split at h
  · exact moves_ok .refl h
  next last hla =>
  obtain ⟨scheds, ht, hru, ha⟩ :=
    capacityRuntime_spec g.limitOf hi cap userId
  generalize capacityRuntime s cap userId = rt at h ht hru ha
  obtain ⟨runtimeRow, s₁⟩ := rt
  dsimp only at h ht hru ha
  have hq : s₁.requests = s.requests := by rw [ht]
  have hl₁ : s₁.leases = s.leases := by rw [ht]
  have hs : (plan.grants.takeWhile (writable s)).Sublist plan.grants := takeWhile_sublist _
  have hwr : ∀ grant ∈ plan.grants.takeWhile (writable s), writable s grant = true :=
    fun grant hgr => mem_takeWhile_imp hgr
  generalize plan.grants.takeWhile (writable s) = persisted at h hs hwr hla
  simp only [add_sub_cancel_right] at h
  obtain ⟨leases, hls, h⟩ := bind_eq_ok.mp h
  split at h
  · refine moves_ok (hru.trans ?_) h
    have hme : LeasesMade s.requests cap persisted runtimeRow.nextFencingToken leases := by
      refine leaseRows_made persisted _ 0 leases (fun grant hgr => ?_) hls
      obtain ⟨w, hw, hid, hre⟩ := hpl.waiter grant (hs.subset hgr)
      obtain ⟨row, hro, hwi, hr⟩ := hrd.row w hw
      exact ⟨row, hid ▸ hro, hwi.trans hre, hr⟩
    have hwi : ∀ l ∈ leases, ∃ grant ∈ persisted,
        grant.admissionRequestId = l.admissionRequestId := by
      intro l hl
      have hm : l.admissionRequestId ∈ persisted.map PlannedGrant.admissionRequestId :=
        hme.winners ▸ mem_map_of_mem hl
      exact mem_map.mp hm
    rw [writeGrants_eq hme.winners]
    refine .single (.grant cap leases _ _ ?_ ?_)
    · refine ⟨?_, ?_, hq ▸ hme.request, ?_, hme.capacity, hme.increasing, ?_, ?_, ?_, ?_⟩
      · rw [hme.winners]
        exact hpl.once.sublist (hs.map _)
      · intro l hl l₀ hl₀
        obtain ⟨grant, hgr, hid⟩ := hwi l hl
        rw [← hid]
        exact (writable_spec hi (hwr grant hgr)).2 l₀ (hl₁ ▸ hl₀)
      · intro l hl r hr hrl
        obtain ⟨grant, hgr, hid⟩ := hwi l hl
        exact (writable_spec hi (hwr grant hgr)).1 r (hq ▸ hr)
          (hrl.trans hid.symm)
      · intro l hl l₀ hl₀ hc
        have := ha l₀ (hl₁ ▸ hl₀) hc
        have := (hme.token l hl).1
        omega
      · intro l hl hc
        rcases mem_append.mp hl with hl | hl
        · have := ha l (hl₁ ▸ hl) hc
          dsimp only
          omega
        · exact (hme.token l hl).2
      · exact fun w _ => settleWaiter_kept now persisted w
      · intro w _ hw
        rw [hme.winners] at hw
        exact settleWaiter_closed hw
    · refine ⟨_, hrd.limit, fun n hn => ?_⟩
      have hne : plan.grants ≠ [] := by
        intro hni
        rw [hni, sublist_nil] at hs
        simp [hs] at hla
      have hrm := hpl.room hne n hn
      have hln : leases.length = persisted.length := by
        simpa using congrArg length hme.winners
      have hle := hs.length_le
      have hac := hrd.active
      simp only [activeCount, hl₁] at hac ⊢
      omega
  · cases h

/-- A round of admission is a run of writes. -/
theorem admitRound_moves {st : AdmitState} {move : LoopStep Bool AdmitState}
    (hi : StoreInvariant st.store) (h : admitRound env g cap now opts st = .ok move) :
    Moves g.limitOf st.store move.state.store := by
  unfold admitRound at h
  split at h
  next s' hrd =>
    cases h
    exact (readAdmissionSnapshot_spec _ hi _ _ hrd).1
  next read s' hrd =>
  obtain ⟨hm, hs⟩ := readAdmissionSnapshot_spec g.limitOf hi _ _ hrd
  have hrd := hs read rfl
  obtain ⟨plan, hpl, h⟩ := bind_eq_ok.mp h
  obtain ⟨outcome, ho, h⟩ := bind_eq_ok.mp h
  have hg : GrantsSound read.snapshot plan.grants := by
    cases hp : planGrants env.localeCompare read.snapshot now opts.planner with
    | error e =>
      rw [hp] at hpl
      cases hpl
    | ok plan' =>
      rw [hp] at hpl
      cases hpl
      rw [planGrants_eq_reference env.localeCompare hrd.distinct] at hp
      exact referencePlanGrants_sound hp
  have hr := persistGrants_moves (hi.moves hm) hrd hg ho
  dsimp only at h
  split at h <;> cases h <;> exact hm.trans hr

/-- **An admission pass is a run of moves.** -/
theorem admitCapacity_moves (hi : StoreInvariant s)
    (h : admitCapacity env g cap now opts s = .ok res) : Moves g.limitOf s res.2 := by
  unfold admitCapacity at h
  split at h
  · exact moves_ok .refl h
  obtain ⟨⟨why, st⟩, hlp, h⟩ := bind_eq_ok.mp h
  -- every round goes on from a store that the moves of the earlier rounds reached
  have hr : ∀ (st : AdmitState) (move : LoopStep Bool AdmitState),
      Moves g.limitOf s st.store → admitRound env g cap now opts st = .ok move →
        Moves g.limitOf s move.state.store :=
    fun st move hst hbo => hst.trans (admitRound_moves (hi.moves hst) hbo)
  exact moves_ok (BoundedLoop.run_keeps hr _ _ _ _ .refl hlp) h

theorem admitCapacities_moves : ∀ (caps : List String) {s s' : Store},
    StoreInvariant s → admitCapacities env g now opts caps s = .ok s' →
      Moves g.limitOf s s'
  | [], s, s', _, h => by
    cases h
    exact .refl
  | cap :: caps, s, s', hi, h => by
    obtain ⟨res, hr, h⟩ := bind_eq_ok.mp h
    have hf := admitCapacity_moves hi hr
    exact hf.trans (admitCapacities_moves caps (hi.moves hf) h)

end

/-! ## Leases -/

section
variable {env : FillEnv}

theorem heartbeat_moves {lease : CapacityLeaseHandle} {extensionMs : Option Int}
    (h : heartbeat now lease extensionMs s = .ok res) : Moves limit s res.2 := by
  unfold heartbeat at h
  split at h
  · cases h
  · split at h
    · cases h
    · refine moves_ok ?_ h
      exact updateLeases_moves fun l _ _ => ⟨rfl, fun h => h⟩

/-- Ending leases and admitted requests. -/
theorem endLeases_moves {p : CapacityLease → Bool} {st : CapacityLeaseState} (hs : st ≠ .active)
    (why : String) {q : AdmissionRequest → Bool} (hq : ∀ r, q r = true → r.state = .admitted)
    (hf : ∀ r, RequestKept r (f r)) :
    Moves limit s
      ((s.updateLeases p (retire st now why)).updateRequests q f) := by
  have ht : Moves limit s (s.updateLeases p (retire st now why)) :=
    updateLeases_moves (fun l _ _ => l.retire_kept hs now why)
  refine ht.trans (updateRequests_moves (fun r _ _ => hf r) ?_)
  intro r _ hr hw
  rw [hq r hr] at hw
  cases hw

/-- A release is a run of writes. -/
theorem release_moves (hi : StoreInvariant s) {l : CapacityLeaseHandle}
    (h : release env g now l s = .ok res) : Moves g.limitOf s res.2 := by
  unfold release at h
  dsimp only at h
  split at h
  · exact moves_ok .refl h
  generalize hed : updateRequests _ _ _ = ended at h
  have hnd : Moves g.limitOf s ended := by
    rw [← hed]
    have htr : AdmissionRequestState.terminal.IsTerminal := by decide
    refine endLeases_moves (by decide) _ (fun r hr => ?_)
      (fun r => ⟨rfl, rfl, .inr htr⟩)
    simp only [Bool.and_eq_true, decide_eq_true_eq] at hr
    exact hr.2
  obtain ⟨admitted, ha, h⟩ := bind_eq_ok.mp h
  exact moves_ok (hnd.trans (admitCapacity_moves (hi.moves hnd) ha)) h

/-- Reclaiming a lease is a run of writes. -/
theorem reclaimLease_moves (hi : StoreInvariant s) {res : Nat × Store}
    (h : reclaimLease env g now l s = .ok res) : Moves g.limitOf s res.2 := by
  unfold reclaimLease at h
  dsimp only at h
  split at h
  · exact moves_ok .refl h
  generalize hed : updateRequests _ _ _ = ended at h
  have hnd : Moves g.limitOf s ended := by
    rw [← hed]
    refine endLeases_moves (by decide) _ (fun r hr => ?_) (fun r => r.close_kept (by decide) _ _)
    simp only [Bool.and_eq_true, decide_eq_true_eq] at hr
    exact hr.2
  obtain ⟨admitted, ha, h⟩ := bind_eq_ok.mp h
  exact moves_ok (hnd.trans (admitCapacity_moves (hi.moves hnd) ha)) h

end

/-! ## Ending attempts -/

section
variable {env : FillEnv} {res : (Nat × List String) × Store}

theorem terminalizeAttempt_moves (aid : String) (ending : Ending) :
    Moves limit s (terminalizeAttempt now aid ending s).2 := by
  unfold terminalizeAttempt
  split
  · exact .refl
  split
  · split
    · split <;> exact .refl
    · exact .refl
  · exact .refl
  · exact .refl
  · exact .refl
  · split
    · exact .refl
    · exact endRequest_moves _ _ _ _

theorem sweepAbandonedRequest_moves (graceMs : Int) (reqId : String) :
    Moves limit s (sweepAbandonedRequest now graceMs reqId s).2 := by
  unfold sweepAbandonedRequest
  split
  · exact .refl
  dsimp only
  split
  · exact .refl
  · split
    · exact endRequest_moves _ _ _ _
    · exact endRequest_moves _ _ _ _

theorem cancelOrphans_moves : ∀ (waiters : List CapacityWaiter) (s : Store),
    Moves limit s (cancelOrphans g now ownerGone waiters s).2
  | [], _ => .refl
  | w :: ws, s => by
    unfold cancelOrphans
    split
    · exact cancelOrphans_moves ws s
    · exact (cancelOrphanedWaiter_moves w now).trans (cancelOrphans_moves ws _)

theorem releaseOrphan_moves (reqId : String) (l : CapacityLease) :
    Moves limit s (releaseOrphan g now ownerGone reqId l s).2 := by
  unfold releaseOrphan
  dsimp only
  split
  · refine endLeases_moves (by decide) _ (fun r hr => ?_) (fun r => r.close_kept (by decide) _ _)
    simp only [Bool.and_eq_true, decide_eq_true_eq] at hr
    exact hr.2
  · exact .refl

theorem endOrphans_moves (h : endOrphans g now req s = .ok res) : Moves limit s res.2 := by
  unfold endOrphans at h
  dsimp only at h
  split at h
  · split at h
    · cases h
    · exact moves_ok (cancelOrphans_moves _ _) h
  · split at h
    · split at h
      · exact moves_ok (releaseOrphan_moves _ _) h
      · exact moves_ok .refl h
    · exact moves_ok .refl h
  · exact moves_ok .refl h

theorem sweepOrphanedRequest_moves (hi : StoreInvariant s) {busy : Bool}
    (h : sweepOrphanedRequest env g now busy reqId s = .ok res) : Moves g.limitOf s res.2 := by
  unfold sweepOrphanedRequest at h
  split at h
  · exact moves_ok .refl h
  split at h
  · exact moves_ok .refl h
  · obtain ⟨ended, hed, h⟩ := bind_eq_ok.mp h
    obtain ⟨filled, hfl, h⟩ := bind_eq_ok.mp h
    have hnd : Moves g.limitOf s ended.2 := endOrphans_moves hed
    exact moves_ok (hnd.trans (admitCapacities_moves _ (hi.moves hnd) hfl)) h

end

/-! ## Acquire -/

section
variable {env : AcquireEnv} {att : AdmissionAttempt} {res : AdmissionResult × Store}

theorem renew_moves (renewal : Renewal) : Moves limit s (renew s renewal) := by
  unfold renew
  split
  · exact .refl
  next res hr => exact heartbeat_moves hr

theorem renewals_moves : ∀ (renewals : List Renewal) (s : Store),
    Moves limit s (renewals.foldl renew s)
  | [], _ => .refl
  | renewal :: renewals, _ => (renew_moves renewal).trans (renewals_moves renewals _)

/-- A request that has a lease does not wait, so it may end whatever its waiters are. -/
theorem closeLeased_moves (hi : StoreInvariant s) (hl : l ∈ s.leases)
    (hid : l.admissionRequestId = reqId) (now : Instant) (why : String) :
    Moves limit s (s.updateRequests (fun r => decide (r.id = reqId))
      (AdmissionRequest.close .terminal now why)) := by
  refine closeRequests_moves (by decide) now why ?_
  intro r hr hd hw
  rw [decide_eq_true_eq] at hd
  obtain ⟨r', hr', hid', -, hs⟩ := hi.leaseRequest l hl
  have hsm : r' = r := inj_on_of_nodup_map hi.requestIds hr' hr
    (hid'.trans (hid.trans hd.symm))
  exact absurd hw (hsm ▸ hs)

theorem Evolves.lease (h : Evolves limit s s') (hl : l ∈ s.leases) :
    ∃ l' ∈ s'.leases, l'.identity = l.identity :=
  mem_map.mp (h.leases.subset (mem_map_of_mem hl))

theorem reclaimOwnLease_moves (hi : StoreInvariant s) {lease : CapacityLease}
    (hl : lease ∈ s.leases) (hid : lease.admissionRequestId = old.id)
    (h : reclaimOwnLease env old lease s = .ok res) : Moves limit s res.2 := by
  unfold reclaimOwnLease at h
  dsimp only at h
  have hrd : Moves limit s (env.renewedBeforeRead.foldl renew s) := renewals_moves _ _
  generalize env.renewedBeforeRead.foldl renew s = read at h hrd
  split at h
  · cases h
  split at h
  · exact moves_ok hrd h
  have hwr : Moves limit read (env.renewedBeforeWrite.foldl renew read) :=
    renewals_moves _ _
  generalize env.renewedBeforeWrite.foldl renew read = written at h hwr
  have hr : Moves limit written (written.updateLeases
      (isExpired lease.id lease.fencingToken env.lockedNow)
      (retire .reclaimed env.lockedNow "expired")) :=
    updateLeases_moves (fun l _ _ => l.retire_kept (by decide) _ _)
  have hm := hrd.trans (hwr.trans hr)
  split at h
  · cases h
  split at h
  · exact moves_ok hm h
  · obtain ⟨l', hl', hsm⟩ := (Evolves.of_moves hm).lease hl
    refine moves_ok (hm.trans (closeLeased_moves (hi.moves hm) hl' ?_ _ _)) h
    exact (congrArg LeaseIdentity.admissionRequestId hsm).trans hid

theorem expireRequest_moves (h : s.NoWaiting reqId) (now : Instant) :
    Moves limit s (expireRequest s reqId now) := by
  refine closeRequests_moves (by decide) now _ ?_
  intro r _ hr _
  rw [decide_eq_true_eq] at hr
  exact hr ▸ h

theorem offer_moves (hi : StoreInvariant s) {creating : Bool}
    (h : offer env g reqId creating lastChance caps s = .ok res) : Moves g.limitOf s res.2 := by
  obtain ⟨admitted, ha, h⟩ := bind_eq_ok.mp h
  have hf := admitCapacities_moves _ hi ha
  split at h
  · exact moves_ok hf h
  generalize hs' : admitted.updateWaiters _ _ = swept at h
  have hs : Moves g.limitOf admitted swept :=
    hs' ▸ closeWaiters_moves (by decide) env.observedAt _
  dsimp only at h
  split at h
  · exact moves_ok (hf.trans hs) h
  next hno =>
    refine moves_ok (hf.trans (hs.trans ?_)) h
    exact expireRequest_moves (noWaiting_of_any hno) _

/-- A poll sweeps every waiter past its deadline that is owed no last chance, so a
request it finds no live waiter of has no waiting one. -/
theorem noWaiting_of_swept {now : Instant} {lastChance : List String} {why : Option String}
    (h : ¬ (((s.updateWaiters (fun w => decide (w.admissionRequestId = reqId) &&
        decide (w.state = .waiting) && reached w.deadlineAt now && decide (w.id ∉ lastChance))
      (close .expired now why)).waitersOf reqId).any (fun w => decide (w.state = .waiting) &&
          (!reached w.deadlineAt now || decide (w.id ∈ lastChance)))) = true) :
    (s.updateWaiters (fun w => decide (w.admissionRequestId = reqId) &&
        decide (w.state = .waiting) && reached w.deadlineAt now && decide (w.id ∉ lastChance))
      (close .expired now why)).NoWaiting reqId := by
  intro w' hw' hid hw
  refine h (any_eq_true.mpr ⟨w', mem_filter.mpr ⟨hw', by simpa using hid⟩, ?_⟩)
  obtain ⟨w, _, rfl⟩ := mem_map.mp hw'
  by_cases hs : (decide (w.admissionRequestId = reqId) && decide (w.state = .waiting) &&
      reached w.deadlineAt now && decide (w.id ∉ lastChance)) = true
  · rw [if_pos hs] at hw
    cases hw
  rw [if_neg hs] at hid hw ⊢
  cases hr : reached w.deadlineAt now with
  | false => simp [hw]
  | true =>
    simp only [hid, hw, hr, decide_true, Bool.and_self, Bool.true_and,
      decide_eq_true_eq, not_not] at hs
    simp [hw, hs]

theorem pollWaiting_moves (hi : StoreInvariant s) (h : pollWaiting env g att old caps s = .ok res) :
    Moves g.limitOf s res.2 := by
  unfold pollWaiting at h
  dsimp only at h
  have hno := @noWaiting_of_swept s old.id env.observedAt
    (lastChanceWaiters s old env.observedAt) (some "candidate_deadline")
  generalize hs' : s.updateWaiters _ _ = swept at h hno
  have hs : Moves g.limitOf s swept :=
    hs' ▸ closeWaiters_moves (by decide) env.observedAt _
  split at h
  · have hp : Moves g.limitOf swept (swept.updateRequests
        (fun r => decide (r.id = old.id)) (fun r =>
          { r with heartbeatAt := env.observedAt, connectionOwner := att.connectionOwner })) :=
      updateRequests_moves (fun r _ _ => ⟨rfl, rfl, .inl rfl⟩)
        (fun r _ _ hw hed => absurd hw hed)
    have hm := hs.trans hp
    exact hm.trans (offer_moves (hi.moves hm) h)
  next ha => exact moves_ok (hs.trans (expireRequest_moves (hno ha) _)) h

theorem repairDeadline_moves (old : AdmissionRequest) (deadlineAt : Instant) :
    Moves limit s (repairDeadline old deadlineAt s) := by
  unfold repairDeadline
  split
  · have hr : Moves limit s (s.updateRequests (fun r => decide (r.id = old.id))
        (fun r => { r with deadlineAt := some deadlineAt })) :=
      updateRequests_moves (fun r _ _ => ⟨rfl, rfl, .inl rfl⟩)
        (fun r _ _ hw hed => absurd hw hed)
    exact hr.trans (updateWaiters_moves (fun w _ _ => ⟨rfl, rfl, fun h => h⟩))
  · exact .refl

/-- A poll is a run of writes. -/
theorem pollAttempt_moves (hi : StoreInvariant s) {found : AdmissionRequest}
    (h : pollAttempt env g att found s = .ok res) : Moves g.limitOf s res.2 := by
  unfold pollAttempt at h
  dsimp only at h
  have hr : Moves g.limitOf s (repairDeadline found att.deadlineAt s) :=
    repairDeadline_moves _ _
  have hp := hi.moves hr
  split at h
  next l hl =>
    obtain ⟨hl, -⟩ := Option.filter_eq_some_iff.mp hl
    split at h
    · refine hr.trans (reclaimOwnLease_moves hp (mem_of_find?_eq_some hl) ?_ h)
      simpa using find?_some hl
    · exact moves_ok hr h
  · split at h
    · exact moves_ok hr h
    · split at h
      · exact moves_ok (hr.trans (endRequest_moves _ _ _ _)) h
      · exact hr.trans (pollWaiting_moves hp h)

theorem insertRequest_moves {ws : List CapacityWaiter}
    (ha : s.requestOfAttempt? req.attemptId = none) (hs : req.state = .waiting)
    (hwt : ∀ w ∈ ws, w.admissionRequestId = req.id) (h : insertRequest s req ws = .ok s') :
    Moves limit s s' := by
  unfold insertRequest at h
  split at h
  next hfr =>
    cases h
    refine .single (.queue req ws _ hfr.1 ?_ hs hfr.2 hwt)
    intro hm
    obtain ⟨r, hr, hid⟩ := mem_map.mp hm
    have hn := find?_eq_none.mp ha r hr
    simp [hid] at hn
  · cases h

theorem createAttempt_moves (hi : StoreInvariant s) (ha : s.requestOfAttempt? att.attemptId = none)
    (h : createAttempt env g att s = .ok res) : Moves g.limitOf s res.2 := by
  obtain ⟨_, -, h⟩ := bind_eq_ok.mp h
  obtain ⟨created, hc, h⟩ := bind_eq_ok.mp h
  have hf : Moves g.limitOf s created := by
    refine insertRequest_moves ha rfl (fun w hw => ?_) hc
    obtain ⟨e, _, rfl⟩ := mem_map.mp hw
    rfl
  exact hf.trans (offer_moves (hi.moves hf) h)

/-- **An acquire is a run of moves.** -/
theorem acquire_moves (hi : StoreInvariant s) {aborted : Bool}
    (h : acquire env g att aborted s = .ok res) : Moves g.limitOf s res.2 := by
  unfold acquire at h
  simp only [bind, Except.bind] at h
  split at h
  · cases h
  split at h
  · cases h
    exact .refl
  split at h
  · exact pollAttempt_moves hi h
  next ha => exact createAttempt_moves hi ha h

end

end ModelProxy.Capacity
