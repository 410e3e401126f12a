import ModelProxy.ReferencePlan

/-! # The indexed planner refines the reference planner

Both planners run the same loop.  They are related (`Refines`) when the counts
agree, the reference's queue is the waiters of requests not yet taken, the
indexed planner's unmet kept slots are those the reference recomputes, and each
of its queues is the reference's waiters of one class, or of one owner, with
links that jump over dead entries only (`Indexed`).

A step keeps this: the head a class scan finds is the class's first eligible
waiter of the rescan, and the scheduler sees no further than heads.  The two
needy owners the indexed planner stops at answer for all of them.
-/
namespace ModelProxy.Capacity
open ReferenceState hiding applyGrant borrowed ownerWaitingBesides remaining
open PlannerState hiding applyGrant borrowed ownerWaitingBesides remaining
open List OrderedMap PlanState Comparator BoundedLoop

/-! ## Queues that index the entries by a key -/

/-- Each queue holds the entries of its key; a relevant key without a queue has none. -/
structure Indexed {κ : Type} [DecidableEq κ] (dead : Entry → Bool) (key : Entry → κ)
    (entries : List Entry) (relevant : κ → Prop) (queues : OrderedMap κ (SkipQueue Entry)) :
    Prop where
  queue : ∀ k q, queues.get k = some q →
    q.entries = entries.filter (fun e => decide (key e = k)) ∧ SkipQueue.Linked dead q
  missing : ∀ k, relevant k → queues.get k = none → ∀ e ∈ entries, key e ≠ k

section Indexes
variable {κ : Type} [DecidableEq κ] {dead dead' : Entry → Bool} {key : Entry → κ}
  {entries : List Entry} {rel rel' : κ → Prop} {qs : OrderedMap κ (SkipQueue Entry)}

theorem Indexed.mono (h : Indexed dead key entries rel qs)
    (hde : ∀ e, dead e = true → dead' e = true) (hr : ∀ k, rel' k → rel k) :
    Indexed dead' key entries rel' qs where
  queue k q hq := ⟨(h.queue k q hq).1, (h.queue k q hq).2.mono hde⟩
  missing k hk := h.missing k (hr k hk)

/-- Replacing a queue by one with other links keeps the index. -/
theorem Indexed.set (h : Indexed dead key entries rel qs) {k : κ} {q q' : SkipQueue Entry}
    (hq : qs.get k = some q) (hes : q'.entries = q.entries)
    (hl : SkipQueue.Linked dead q') :
    Indexed dead key entries rel (qs.set k q') where
  queue j p hp := by
    rw [get_set] at hp
    split at hp
    next hkj =>
      cases hp
      subst hkj
      exact ⟨hes.trans (h.queue k q hq).1, hl⟩
    · exact h.queue j p hp
  missing j hj hno := by
    rw [get_set] at hno
    split at hno
    · cases hno
    · exact h.missing j hj hno

/-- A queue gets the entries of its key. -/
theorem foldl_pushEntry (key : Entry → κ) (rel : κ → Bool) (k : κ) (entries : List Entry)
    (qs : OrderedMap κ (SkipQueue Entry)) :
    (entries.foldl (fun m e => if rel (key e) then pushEntry m (key e) e else m)
      qs).get k = (entries.filter fun e => rel k && decide (key e = k)).foldl
        (fun q e => some ((q.getD .empty).push e)) (qs.get k) := by
  induction entries generalizing qs with
  | nil => rfl
  | cons e entries ih =>
    rw [foldl_cons, ih]
    by_cases hk : key e = k
    · subst hk
      cases rel (key e) <;> simp [pushEntry]
    · split <;> simp [pushEntry, get_set_ne, hk]

theorem foldl_push {entries : List Entry} {queue : Option (SkipQueue Entry)}
    (h : (queue.getD .empty).Fresh) :
    let pushed := (entries.foldl (fun q e => some ((q.getD .empty).push e)) queue).getD .empty
    pushed.entries = (queue.getD .empty).entries ++ entries ∧ pushed.Fresh := by
  induction entries generalizing queue with
  | nil => exact ⟨(append_nil _).symm, h⟩
  | cons e entries ih =>
    obtain ⟨hes, hfr⟩ := @ih (some _) (h.push e)
    exact ⟨hes.trans (append_assoc _ _ _), hfr⟩

/-- Pushing the entries one by one onto the queues of their keys. -/
theorem indexed_pushEntry (rel : κ → Bool) : Indexed dead key entries (rel · = true)
    (entries.foldl (fun m e => if rel (key e) then pushEntry m (key e) e else m) .empty) := by
  have hp (k : κ) := @foldl_push (entries.filter fun e => rel k && decide (key e = k))
    none .empty
  constructor
  · intro k q hq
    rw [foldl_pushEntry] at hq
    cases hr : rel k with
    | false => simp [hr] at hq
    | true =>
      obtain ⟨hes, hfr⟩ := hq ▸ hp k
      exact ⟨by simpa [hr, SkipQueue.empty] using hes, hfr.linked dead⟩
  · intro k hr hno
    rw [foldl_pushEntry] at hno
    have hes := (hno ▸ hp k).1
    simpa [hr, SkipQueue.empty] using hes

end Indexes

/-- The queues hold the entries of their keys. -/
theorem initialQueues_indexed (rem : OrderedMap String Int) (entries : List Entry)
    (dead : Entry → Bool) :
    Indexed dead (·.waiter.priority) entries (fun _ => True) (initialQueues rem entries).1 ∧
    Indexed dead (·.waiter.ownerKey) entries (fun k => rem.has k = true)
      (initialQueues rem entries).2 := by
  have hs : ∀ (l : List Entry) (acc : OrderedMap Int (SkipQueue Entry) ×
      OrderedMap String (SkipQueue Entry)),
      l.foldl (fun acc entry => (pushEntry acc.1 entry.waiter.priority entry,
        if rem.has entry.waiter.ownerKey then pushEntry acc.2 entry.waiter.ownerKey entry
        else acc.2)) acc =
      (l.foldl (fun m e => if (fun _ : Int => true) e.waiter.priority then
          pushEntry m e.waiter.priority e else m) acc.1,
        l.foldl (fun m e => if rem.has e.waiter.ownerKey then
          pushEntry m e.waiter.ownerKey e else m) acc.2) := by
    intro l
    induction l with
    | nil => intro acc; rfl
    | cons e l ih =>
      intro acc
      rw [foldl_cons, ih]
      rfl
  rw [initialQueues, hs]
  refine ⟨?_, ?_⟩
  · exact (indexed_pushEntry fun _ => true).mono (fun _ h => h) fun _ _ => rfl
  · exact indexed_pushEntry rem.has

/-! ## Needy owners -/

/-- The owner has a live waiter among the entries. -/
def hasLive (dead : Entry → Bool) (entries : List Entry) (owner : String) : Bool :=
  entries.any (fun e => decide (e.waiter.ownerKey = owner) && !dead e)

variable {entries : List Entry} {scan : OwnerScan} {p : Int} {w : Entry}

/-- The search returns the first two owners with a live waiter. -/
theorem findNeedyOwners_spec {dead : Entry → Bool} {rel : String → Prop} : ∀ (os : List String)
      (qs : OrderedMap String (SkipQueue Entry)) (needy : List String),
      (∀ o ∈ os, rel o) → needy.length < 2 →
      Indexed dead (·.waiter.ownerKey) entries rel qs →
      (findNeedyOwners dead os qs needy).2 = (needy ++ os.filter (hasLive dead entries)).take 2 ∧
      Indexed dead (·.waiter.ownerKey) entries rel (findNeedyOwners dead os qs needy).1
  | [], qs, needy, _, hlen, hind => by
    refine ⟨?_, hind⟩
    rw [filter_nil, append_nil, take_of_length_le (by omega)]
    rfl
  | owner :: os, qs, needy, hrel, hlen, hind => by
    have htl : ∀ o ∈ os, rel o := fun o ho => hrel o (mem_cons_of_mem _ ho)
    simp only [findNeedyOwners]
    cases hq : qs.get owner with
    | none =>
      have hno := hind.missing owner (hrel owner mem_cons_self) hq
      have hlv : ¬ hasLive dead entries owner = true := by
        simp only [hasLive, any_eq_true, Bool.and_eq_true, decide_eq_true_eq, not_exists]
        rintro e ⟨he, hown, -⟩
        exact hno e he hown
      rw [filter_cons_of_neg hlv]
      exact findNeedyOwners_spec os qs needy htl hlen hind
    | some q =>
      obtain ⟨hes, hlin⟩ := hind.queue owner q hq
      have hset : Indexed dead (·.waiter.ownerKey) entries rel
          (qs.set owner (q.pruneHead dead)) := hind.set hq rfl hlin.pruneHead
      have hso : (q.pruneHead dead).entries[(q.pruneHead dead).head]?.isSome =
          hasLive dead entries owner := by
        change q.entries[(q.pruneHead dead).head]?.isSome = _
        rw [Bool.eq_iff_iff, SkipQueue.pruneHead_head hlin, hes, hasLive]
        simp [and_assoc]
      simp only [hso]
      by_cases hlv : hasLive dead entries owner = true
      · rw [if_pos hlv, filter_cons_of_pos hlv, append_cons needy owner (os.filter _)]
        by_cases htwo : (needy ++ [owner]).length = 2
        · rw [if_pos htwo, take_append_of_le_length (by omega), take_of_length_le (by omega)]
          exact ⟨rfl, hset⟩
        · rw [if_neg htwo]
          refine findNeedyOwners_spec os _ _ htl ?_ hset
          rw [length_append, length_singleton] at htwo ⊢
          omega
      · rw [if_neg hlv, filter_cons_of_neg hlv]
        exact findNeedyOwners_spec os _ needy htl hlen hset

/-- Two different names answer for all: whoever asks, one of them is another's. -/
theorem any_take_two {l : List String} (hl : l.Nodup) (o : String) :
    (l.take 2).any (fun owner => decide (owner ≠ o)) = l.any (fun owner => decide (owner ≠ o)) := by
  match l, hl with
  | [], _ => rfl
  | [a], _ => rfl
  | a :: b :: rest, hl =>
    have hab : a ≠ b := fun h => (nodup_cons.mp hl).1 (h ▸ mem_cons_self)
    have ho : decide (a ≠ o) = true ∨ decide (b ≠ o) = true := by
      by_cases ha : a = o
      · right
        simpa [← ha] using Ne.symm hab
      · left
        simpa using ha
    rcases ho with h | h <;> simp only [take, any_cons, h] <;> simp

/-- Some owner besides `owner` has unmet kept slots and a live waiter. -/
def waitingBesides (dead : Entry → Bool) (entries : List Entry) (owners : List String)
    (owner : String) : Bool :=
  (owners.filter (hasLive dead entries)).any (fun o => decide (o ≠ owner))

namespace PlannerState
variable (snapshot : AdmissionSnapshot) (entries : List Entry)

/-- The state of a step's scans: intact owner queues, and an answer that is right once given. -/
structure ScanInv (s : PlannerState) (scan : OwnerScan) : Prop where
  indexed : Indexed s.dead (·.waiter.ownerKey) entries (fun k => s.remaining.has k = true)
    scan.ownerQueues
  needy : ∀ l, scan.needyOwners = some l →
    ∀ o, l.any (fun owner => decide (owner ≠ o)) = waitingBesides s.dead entries s.remaining.keys o

/-- Whether an entry is passed over in this step. -/
def blocks (s : PlannerState) (entry : Entry) : Bool :=
  s.borrowed snapshot entry &&
    (!entry.waiter.borrowReserved ||
      waitingBesides s.dead entries s.remaining.keys entry.waiter.ownerKey)

variable {entries}

variable {s : PlannerState}

/-- The owner scan answers as the whole list would. -/
theorem ownerWaitingBesides_spec (h : s.ScanInv entries scan) (owner : String) :
    (s.ownerWaitingBesides owner scan).1 = waitingBesides s.dead entries s.remaining.keys owner ∧
      s.ScanInv entries (s.ownerWaitingBesides owner scan).2 := by
  unfold ownerWaitingBesides
  cases hn : scan.needyOwners with
  | some l => exact ⟨h.needy l hn owner, h⟩
  | none =>
    obtain ⟨hfd, hind⟩ := findNeedyOwners_spec s.remaining.keys scan.ownerQueues []
      (fun o ho => has_iff.mpr ho) (by simp) h.indexed
    have hans : ∀ o, (findNeedyOwners s.dead s.remaining.keys scan.ownerQueues []).2.any
        (fun owner => decide (owner ≠ o)) =
          waitingBesides s.dead entries s.remaining.keys o := by
      intro o
      rw [hfd, nil_append, any_take_two (s.remaining.keys_nodup.filter _)]
      rfl
    refine ⟨hans owner, hind, fun l hl o => ?_⟩
    cases hl
    exact hans o

theorem blocked_spec (e : Entry) (h : s.ScanInv entries scan) :
    (s.blocked snapshot e scan).1 = s.blocks snapshot entries e ∧
      s.ScanInv entries (s.blocked snapshot e scan).2 := by
  unfold blocked blocks
  cases s.borrowed snapshot e with
  | false => exact ⟨rfl, h⟩
  | true =>
    cases e.waiter.borrowReserved with
    | false => exact ⟨rfl, h⟩
    | true => simpa using ownerWaitingBesides_spec h e.waiter.ownerKey

/-! ## One step's eligible entries -/

/-- Neither dead nor passed over. -/
def offers (s : PlannerState) (entries : List Entry) (entry : Entry) : Bool :=
  !s.dead entry && !s.blocks snapshot entries entry

/-- The class's first entry on offer. -/
def classOffer (s : PlannerState) (entries : List Entry) (p : Int) : Option Entry :=
  (entries.filter (fun e => decide (e.waiter.priority = p))).find? (s.offers snapshot entries)

/-- One class's scan answers as the whole list would. -/
theorem scanClass_spec {q : SkipQueue Entry} {found : List Entry × OwnerScan}
    (hs : s.ScanInv entries found.2)
    (hes : q.entries = entries.filter (fun e => decide (e.waiter.priority = p)))
    (hl : SkipQueue.Linked s.dead q) :
    (s.scanClass snapshot q found).1.entries = q.entries ∧
    SkipQueue.Linked s.dead (s.scanClass snapshot q found).1 ∧
    (s.scanClass snapshot q found).2.1 = found.1 ++ (s.classOffer snapshot entries p).toList ∧
    s.ScanInv entries (s.scanClass snapshot q found).2.2 := by
  have hp := hl.pruneHead
  obtain ⟨hf, hl', hes', hs'⟩ := SkipQueue.scan_spec
    (fun e scan h => blocked_spec snapshot e h) q.entries.length (q.pruneHead s.dead) none
    (q.pruneHead s.dead).head found.2 hp hp.pruned hs (Nat.le_add_left _ _)
  refine ⟨hes', hl', ?_, hs'⟩
  -- the entries before the head are dead, so the scan is one of the whole queue
  have ha := hp.pruned.find_drop (p := s.offers snapshot entries) (Nat.zero_le _)
    (fun e he => by simp [offers, he])
  have ho : s.classOffer snapshot entries p =
      ((q.pruneHead s.dead).scan s.dead (s.blocked snapshot) q.entries.length none
        (q.pruneHead s.dead).head found.2).1 := by
    rw [hf, classOffer, ← hes]
    exact ha
  rw [ho]
  rfl

/-- So do the scans of all the classes. -/
theorem accumulate_scanClass : ∀ (classes : List (Int × SkipQueue Entry))
    (found : List Entry × OwnerScan), s.ScanInv entries found.2 →
    (∀ c ∈ classes, c.2.entries = entries.filter (fun e => decide (e.waiter.priority = c.1)) ∧
      SkipQueue.Linked s.dead c.2) →
    (∀ c ∈ (accumulate (s.scanClass snapshot) classes found).1,
      c.2.entries = entries.filter (fun e => decide (e.waiter.priority = c.1)) ∧
        SkipQueue.Linked s.dead c.2) ∧
    (accumulate (s.scanClass snapshot) classes found).2.1 = found.1 ++
      (classes.map Prod.fst).flatMap (fun p => (s.classOffer snapshot entries p).toList) ∧
    s.ScanInv entries (accumulate (s.scanClass snapshot) classes found).2.2
  | [], found, hs, _ => ⟨by simp [accumulate], by simp [accumulate], hs⟩
  | c :: classes, found, hs, hc => by
    obtain ⟨hes, hl⟩ := hc c mem_cons_self
    obtain ⟨hes', hl', hfd, hs'⟩ := scanClass_spec snapshot hs hes hl
    obtain ⟨hr, he, hf⟩ := accumulate_scanClass classes
      (s.scanClass snapshot c.2 found).2 hs'
      (fun d hd => hc d (mem_cons_of_mem c hd))
    refine ⟨fun d hd => ?_, ?_, hf⟩
    · rcases mem_cons.mp hd with rfl | hd
      · exact ⟨hes'.trans hes, hl'⟩
      · exact hr d hd
    · change (accumulate (s.scanClass snapshot) classes _).2.1 = _
      rw [he, hfd]
      simp

end PlannerState

/-! ## The relation -/

section
variable (localeCompare : Comparator String) (snapshot : AdmissionSnapshot) (now : Instant)
  (options : PlannerOptions)

/-- Leaving out the waiters that are not due before or after sorting is the same. -/
theorem plannerEntries_eq :
    plannerEntries localeCompare snapshot now options =
      (referenceEntries localeCompare snapshot now options).filter (grantable now) := by
  rw [plannerEntries, referenceEntries, ← sort_filter, filter_map, filter_filter]
  congr 2
  exact filter_congr fun w _ => Bool.and_comm _ _

/-- The indexed planner's state `f` stands for the reference planner's state `r`. -/
structure Refines (f : PlannerState) (r : ReferenceState) : Prop where
  plan : f.toPlanState = r.toPlanState
  queued : r.entries = (referenceEntries localeCompare snapshot now options).filter
    (fun e => decide (e.waiter.admissionRequestId ∉ f.takenRequests))
  remaining : ∀ o, f.remaining.get o =
    if 0 < ReferenceState.remaining snapshot f.toPlanState o then
      some (ReferenceState.remaining snapshot f.toPlanState o) else none
  total : f.reservedRemainingTotal = ReferenceState.reservedRemainingTotal snapshot f.toPlanState
  classes : Indexed f.dead (·.waiter.priority) (plannerEntries localeCompare snapshot now options)
    (fun _ => True) f.classes
  owners : Indexed f.dead (·.waiter.ownerKey) (plannerEntries localeCompare snapshot now options)
    (fun k => f.remaining.has k = true) f.ownerQueues

variable {localeCompare snapshot now options}

namespace Refines
variable {f : PlannerState} {r : ReferenceState}
  (h : Refines localeCompare snapshot now options f r)
include h

theorem remaining_getD (o : String) :
    (f.remaining.get o).getD 0 = ReferenceState.remaining snapshot r.toPlanState o := by
  rw [h.remaining o, ← h.plan]
  have hnn : 0 ≤ ReferenceState.remaining snapshot f.toPlanState o := le_max_left _ _
  split
  · rfl
  · exact le_antisymm hnn (not_lt.mp ‹_›)

theorem mem_remaining (o : String) :
    o ∈ f.remaining.keys ↔
      (r.ownerActive o : Int) < (snapshot.reservationsByOwner.get o).getD 0 := by
  rw [OrderedMap.mem_keys, h.remaining o, ← h.plan]
  have hp : 0 < ReferenceState.remaining snapshot f.toPlanState o ↔
      (f.ownerActive o : Int) < (snapshot.reservationsByOwner.get o).getD 0 := by
    rw [ReferenceState.remaining, lt_max_iff]
    omega
  split <;> simp_all

theorem borrowed_eq (e : Entry) :
    f.borrowed snapshot e = ReferenceState.borrowed snapshot r.toPlanState e := by
  rw [PlannerState.borrowed, ReferenceState.borrowed, h.remaining_getD, h.total, h.plan]

theorem scopeHasRoom_eq (w : PlannerWaiter) : f.scopeHasRoom w = r.scopeHasRoom w := by
  rw [scopeHasRoom, scopeHasRoom, h.plan]

end Refines

variable (snapshot now) in
/-- The entry makes `owner` a needy owner. -/
def Needs (r : ReferenceState) (owner : String) (e : Entry) : Prop :=
  grantable now e = true ∧
    (r.ownerActive owner : Int) < (snapshot.reservationsByOwner.get owner).getD 0 ∧
    r.scopeHasRoom e.waiter = true ∧ e.waiter.ownerKey = owner

theorem mem_addNeedyOwner (r : ReferenceState) (needy : List String) (e : Entry) (o : String) :
    o ∈ r.addNeedyOwner snapshot now needy e ↔
      o ∈ needy ∨ Needs snapshot now r o e := by
  unfold addNeedyOwner Needs
  split
  · simp_all
  split
  next hle =>
    refine ⟨.inl, fun h => h.resolve_right ?_⟩
    rintro ⟨-, hlt, -, rfl⟩
    omega
  split
  · simp_all
  next hg hle hs =>
  simp only [Bool.not_eq_true, Bool.not_eq_false'] at hg hs
  rw [mem_insert_iff, or_comm]
  refine or_congr_right ⟨?_, fun h => h.2.2.2.symm⟩
  rintro rfl
  exact ⟨hg, not_le.mp hle, hs, rfl⟩

/-- The owners in need. -/
theorem mem_needyOwners (r : ReferenceState) (o : String) :
    o ∈ r.needyOwners snapshot now ↔ ∃ e ∈ r.entries, Needs snapshot now r o e := by
  have hfd : ∀ (l : List Entry) (needy : List String),
      o ∈ l.foldl (r.addNeedyOwner snapshot now) needy ↔
        o ∈ needy ∨ ∃ e ∈ l, Needs snapshot now r o e := by
    intro l
    induction l with
    | nil => simp
    | cons e l ih =>
      intro needy
      rw [foldl_cons, ih, mem_addNeedyOwner, or_assoc]
      simp only [mem_cons, exists_eq_or_imp]
  rw [needyOwners, hfd]
  simp

namespace Refines
variable {f : PlannerState} {r : ReferenceState}
  (h : Refines localeCompare snapshot now options f r)
include h

/-- The owners the index has to look at answer like a rescan of all waiters. -/
theorem waitingBesides_eq (o : String) :
    waitingBesides f.dead (plannerEntries localeCompare snapshot now options) f.remaining.keys o =
      r.ownerWaitingBesides snapshot now o := by
  rw [Bool.eq_iff_iff, waitingBesides, ReferenceState.ownerWaitingBesides, any_eq_true, any_eq_true]
  refine exists_congr fun owner => and_congr_left fun _ => ?_
  rw [mem_filter, mem_needyOwners, h.mem_remaining, hasLive, any_eq_true, h.queued,
    plannerEntries_eq]
  simp only [mem_filter, Needs, dead, h.scopeHasRoom_eq, Bool.and_eq_true,
    decide_eq_true_eq, Bool.not_eq_true', Bool.or_eq_false_iff, decide_eq_false_iff_not,
    Bool.not_eq_false']
  constructor
  · rintro ⟨hlt, e, ⟨he, hg⟩, ho, ht, hrm⟩
    exact ⟨e, ⟨he, ht⟩, hg, hlt, hrm, ho⟩
  · rintro ⟨e, ⟨he, ht⟩, hg, hlt, hrm, ho⟩
    exact ⟨hlt, e, ⟨he, hg⟩, ho, ht, hrm⟩

/-- **What the index offers is what the rescan finds eligible.** -/
theorem eligible_eq :
    r.eligibleEntries snapshot now =
      (plannerEntries localeCompare snapshot now options).filter
        (f.offers snapshot (plannerEntries localeCompare snapshot now options)) := by
  have hp : ∀ e, (r.eligible snapshot now e &&
      decide (e.waiter.admissionRequestId ∉ f.takenRequests)) =
        (f.offers snapshot (plannerEntries localeCompare snapshot now options) e &&
          grantable now e) := by
    intro e
    simp only [eligible, offers, blocks,
      dead, h.waitingBesides_eq, h.borrowed_eq, h.scopeHasRoom_eq, decide_not]
    cases grantable now e <;> cases r.scopeHasRoom e.waiter <;>
      cases ReferenceState.borrowed snapshot r.toPlanState e <;>
      cases r.ownerWaitingBesides snapshot now e.waiter.ownerKey <;>
      cases e.waiter.borrowReserved <;>
      cases decide (e.waiter.admissionRequestId ∈ f.takenRequests) <;> rfl
  rw [eligibleEntries, h.queued, filter_filter, filter_congr (fun e _ => hp e), ← filter_filter,
    ← plannerEntries_eq]

end Refines

/-! ## One entry a class is enough -/

variable {e : Entry} {s : PlannerState}

theorem mem_plannerEntries (h : e ∈ plannerEntries localeCompare snapshot now options) :
    e.candidate.eligible = true ∧ e.candidate.priority = e.waiter.priority := by
  rw [plannerEntries_eq] at h
  rw [(mem_referenceEntries.mp (mem_of_mem_filter h)).1]
  exact ⟨rfl, rfl⟩

theorem find_mem_offers (h : s.classOffer snapshot entries p = some e) :
    e ∈ entries.filter (s.offers snapshot entries) ∧ e.waiter.priority = p := by
  have hm := mem_filter.mp (mem_of_find?_eq_some h)
  exact ⟨mem_filter.mpr ⟨hm.1, find?_some h⟩, of_decide_eq_true hm.2⟩

theorem classOffer_isSome (h : e ∈ entries.filter (s.offers snapshot entries)) :
    ∃ d, s.classOffer snapshot entries e.waiter.priority = some d := by
  obtain ⟨hm, ho⟩ := mem_filter.mp h
  refine Option.isSome_iff_exists.mp (find?_isSome.mpr ⟨e, ?_, ho⟩)
  exact mem_filter.mpr ⟨hm, by simp⟩

/-- Of one offer per class, those of class `p` are the offer of `p`. -/
theorem filter_offers {offer : Int → Option Entry}
    (hf : ∀ p e, offer p = some e → e.candidate.eligible = true ∧ e.candidate.priority = p)
    (p : Int) : ∀ keys : List Int, keys.Nodup → (keys.flatMap (fun k => (offer k).toList)).filter
        (fun c => c.candidate.eligible && c.candidate.priority == p) =
          if p ∈ keys then (offer p).toList else []
  | [], _ => rfl
  | k :: ks, hn => by
    obtain ⟨ht, htl⟩ := nodup_cons.mp hn
    rw [flatMap_cons, filter_append, filter_offers hf p ks htl]
    by_cases hk : p = k
    · subst hk
      cases ho : offer p with
      | none => simp
      | some e => simp [hf p e ho, ht]
    · cases ho : offer k with
      | none => simp [hk]
      | some e => simp [hf k e ho, hk, Ne.symm hk]

theorem classOffer_candidate
    (h : s.classOffer snapshot (plannerEntries localeCompare snapshot now options) p = some e) :
    e.candidate.eligible = true ∧ e.candidate.priority = p := by
  obtain ⟨hm, rfl⟩ := find_mem_offers h
  exact mem_plannerEntries (mem_of_mem_filter hm)

/-- The head of a class of all offers is the class's first. -/
theorem classHead_offers (s : PlannerState) (p : Int) :
    classHead localeCompare Entry.candidate
      ((plannerEntries localeCompare snapshot now options).filter
        (s.offers snapshot (plannerEntries localeCompare snapshot now options))) p =
      s.classOffer snapshot (plannerEntries localeCompare snapshot now options) p := by
  have hs : (plannerEntries localeCompare snapshot now options).Pairwise _ :=
    sort_pairwise _ _
  rw [classHead, classQueue, sort_of_pairwise _ ((hs.filter _).filter _),
    classOffer, ← head?_filter, filter_filter, filter_filter]
  refine congrArg head? (filter_congr fun e he => ?_)
  obtain ⟨hel, hp⟩ := mem_plannerEntries he
  rw [hel, hp, Bool.true_and, Bool.and_comm]
  rfl

theorem sort_toList {α : Type} (c : Comparator α) (o : Option α) : c.sort o.toList = o.toList := by
  cases o <;> rfl

namespace Refines
variable {f : PlannerState} {r : ReferenceState}
  (h : Refines localeCompare snapshot now options f r)
include h

/-- The scans of a step find each class's offer, and leave a state that still refines. -/
theorem collectEligible_spec :
    (f.collectEligible snapshot).1 = f.classes.keys.flatMap (fun p =>
      (f.classOffer snapshot (plannerEntries localeCompare snapshot now options) p).toList) ∧
    Refines localeCompare snapshot now options (f.collectEligible snapshot).2 r := by
  obtain ⟨hl, he, hs⟩ := accumulate_scanClass snapshot
    f.classes.entries ([], ⟨f.ownerQueues, none⟩) ⟨h.owners, by simp⟩
    (fun c hc => h.classes.queue c.1 c.2 (get_eq_some.mpr hc))
  refine ⟨he, h.plan, h.queued, h.remaining, h.total, ⟨fun p q hq => ?_, ?_⟩, hs.indexed⟩
  · exact hl (p, q) (get_eq_some.mp hq)
  intro p _ hno
  refine h.classes.missing p trivial (get_eq_none.mpr ?_)
  rw [get_eq_none] at hno
  have hky : (f.collectEligible snapshot).2.classes.keys = f.classes.keys :=
    accumulate_keys _ _ _
  rwa [← hky]

/-- A class without a queue has no offer. -/
theorem classOffer_none (hp : p ∉ f.classes.keys) :
    f.classOffer snapshot (plannerEntries localeCompare snapshot now options) p = none := by
  have hno := h.classes.missing p trivial (get_eq_none.mpr hp)
  rw [classOffer, filter_eq_nil_iff.mpr (by simpa using hno)]
  rfl

theorem mem_collectEligible :
    e ∈ (f.collectEligible snapshot).1 ↔ ∃ p,
      f.classOffer snapshot (plannerEntries localeCompare snapshot now options) p = some e := by
  rw [h.collectEligible_spec.1, mem_flatMap]
  constructor
  · rintro ⟨p, -, he⟩
    exact ⟨p, by simpa using he⟩
  · rintro ⟨p, he⟩
    by_cases hp : p ∈ f.classes.keys
    · exact ⟨p, hp, by simpa using he⟩
    · rw [h.classOffer_none hp] at he
      cases he

/-- **The scheduler cannot tell the index from the rescan.** -/
theorem schedule_eq (st : SchedulerState) (quanta : List Rat) :
    scheduleWeightedDeficitRoundRobin localeCompare Entry.candidate
        (f.collectEligible snapshot).1 st quanta =
      scheduleWeightedDeficitRoundRobin localeCompare Entry.candidate
        (r.eligibleEntries snapshot now) st quanta := by
  rw [h.eligible_eq]
  refine schedule_congr localeCompare Entry.candidate ⟨fun hr e he => ?_, fun hr e he => ?_⟩
    (fun p => ?_) st quanta
  · -- the head of an offered entry's class has the same class
    obtain ⟨d, hd⟩ := classOffer_isSome he
    have hrn := hr d (h.mem_collectEligible.mpr ⟨_, hd⟩)
    rw [(classOffer_candidate hd).2] at hrn
    rwa [(mem_plannerEntries (mem_of_mem_filter he)).2]
  · obtain ⟨p, hp⟩ := h.mem_collectEligible.mp he
    exact hr e (find_mem_offers hp).1
  · rw [classHead_offers, classHead, classQueue, h.collectEligible_spec.1, filter_offers
      (fun p e he => classOffer_candidate he) p _
      f.classes.keys_nodup]
    split
    · rw [sort_toList, Option.head?_toList]
    · rw [h.classOffer_none ‹_›]
      rfl

theorem eligible_isEmpty :
    (f.collectEligible snapshot).1.isEmpty = (r.eligibleEntries snapshot now).isEmpty := by
  rw [Bool.eq_iff_iff, List.isEmpty_iff, List.isEmpty_iff, eq_nil_iff_forall_not_mem,
    eq_nil_iff_forall_not_mem, h.eligible_eq]
  constructor
  · intro hno e he
    obtain ⟨d, hd⟩ := classOffer_isSome he
    exact hno d (h.mem_collectEligible.mpr ⟨_, hd⟩)
  · intro hno e he
    obtain ⟨p, hp⟩ := h.mem_collectEligible.mp he
    exact hno e (find_mem_offers hp).1

end Refines

/-! ## Grants -/

/-- A flag is found again when no other waiter has the winner's id. -/
theorem borrowedByWaiter_get {eligible : List Entry} {borrowed : Entry → Bool} (hw : w ∈ eligible)
    (hi : ∀ e ∈ eligible, e.waiter.waiterId = w.waiter.waiterId → e = w) :
    (borrowedByWaiter eligible borrowed).get w.waiter.waiterId = some (borrowed w) := by
  have hfd : ∀ (l : List Entry) (flags : OrderedMap String Bool),
      (∀ e ∈ l, e.waiter.waiterId = w.waiter.waiterId → e = w) →
      (w ∈ l ∨ flags.get w.waiter.waiterId = some (borrowed w)) →
      (l.foldl (fun flags entry => flags.set entry.waiter.waiterId (borrowed entry)) flags).get
        w.waiter.waiterId = some (borrowed w) := by
    intro l
    induction l with
    | nil => exact fun flags _ h => h.resolve_left not_mem_nil
    | cons e l ih =>
      intro flags hi h
      refine ih _ (fun d hd => hi d (mem_cons_of_mem e hd)) ?_
      rw [get_set]
      by_cases he : e.waiter.waiterId = w.waiter.waiterId
      · right
        rw [if_pos he, hi e mem_cons_self he]
      · rw [if_neg he]
        refine h.imp_left fun hm => (mem_cons.mp hm).resolve_left ?_
        rintro rfl
        exact he rfl
  exact hfd eligible _ hi (.inl hw)

theorem remaining_grant (s : PlanState) (w : PlannerWaiter) (flag : Bool)
    (sched : SchedulerState) (o : String) :
    ReferenceState.remaining snapshot (s.grant w flag sched) o =
      if w.ownerKey = o then max 0 (ReferenceState.remaining snapshot s o - 1)
      else ReferenceState.remaining snapshot s o := by
  simp only [ReferenceState.remaining, grant_ownerActive]
  split <;> push_cast <;> omega

/-- Only an owner that keeps slots has unmet ones. -/
theorem mem_keys_of_remaining_pos {s : PlanState} {o : String}
    (h : 0 < ReferenceState.remaining snapshot s o) : o ∈ snapshot.reservationsByOwner.keys := by
  by_contra hn
  rw [ReferenceState.remaining, get_eq_none.mpr hn, Option.getD_none] at h
  omega

/-- A grant uses up what its owner has reserved. -/
theorem total_grant (s : PlanState) (w : PlannerWaiter) (flag : Bool) (sched : SchedulerState) :
    reservedRemainingTotal snapshot (s.grant w flag sched) =
      reservedRemainingTotal snapshot s -
        if 0 < ReferenceState.remaining snapshot s w.ownerKey then 1 else 0 := by
  have hh : ∀ o, o ≠ w.ownerKey → ReferenceState.remaining snapshot
      (s.grant w flag sched) o = ReferenceState.remaining snapshot s o := by
    intro o ho
    rw [remaining_grant, if_neg (Ne.symm ho)]
  have hsl := @remaining_grant snapshot s w flag sched w.ownerKey
  rw [if_pos rfl] at hsl
  unfold ReferenceState.reservedRemainingTotal
  split
  next hp =>
    rw [sum_map_update (d := -1) snapshot.reservationsByOwner.keys_nodup
      (mem_keys_of_remaining_pos hp) (by omega) (fun o _ ho => hh o ho)]
    omega
  next hz =>
  have hnn : 0 ≤ ReferenceState.remaining snapshot s w.ownerKey := le_max_left _ _
  rw [sub_zero]
  refine congrArg sum (map_congr_left fun o _ => ?_)
  by_cases ho : o = w.ownerKey
  · subst ho
    omega
  · exact hh o ho

namespace Refines
variable {f : PlannerState} {r : ReferenceState}

/-- What an owner has left after a grant. -/
theorem takeKept_get (h : Refines localeCompare snapshot now options f r) (w : PlannerWaiter)
    (flag : Bool) (sched : SchedulerState) (o : String) :
    (f.takeKept w.ownerKey).remaining.get o =
      if 0 < ReferenceState.remaining snapshot (f.toPlanState.grant w flag sched) o then
        some (ReferenceState.remaining snapshot (f.toPlanState.grant w flag sched) o)
      else none := by
  have hs : (f.remaining.get w.ownerKey).getD 0 =
      ReferenceState.remaining snapshot f.toPlanState w.ownerKey := by
    rw [h.remaining_getD, h.plan]
  rw [remaining_grant]
  simp only [takeKept, hs]
  by_cases hp : 0 < ReferenceState.remaining snapshot f.toPlanState w.ownerKey
  · rw [if_pos hp]
    by_cases ho : w.ownerKey = o
    · subst ho
      rw [if_pos rfl]
      by_cases hon : ReferenceState.remaining snapshot f.toPlanState w.ownerKey = 1
      · simp [hon, get_delete]
      · rw [if_neg hon, get_set_self, if_pos (by omega), max_eq_right (by omega)]
    · rw [if_neg ho, ← h.remaining o]
      split
      · simp [get_delete, ho]
      · exact get_set_ne _ _ ho
  · rw [if_neg hp, h.remaining o]
    by_cases ho : w.ownerKey = o
    · subst ho
      rw [if_pos rfl, if_neg hp, if_neg (by omega)]
    · rw [if_neg ho]

theorem dead_applyGrant {w : PlannerWaiter} {flag : Bool} {sched : SchedulerState}
    (h : f.dead e = true) : (f.applyGrant w flag sched).dead e = true := by
  simp only [dead, PlannerState.applyGrant, Bool.or_eq_true, decide_eq_true_eq,
    mem_append, Bool.not_eq_true'] at h ⊢
  rcases h with ht | hrm
  · exact .inl (.inl ht)
  · right
    by_contra hgr
    rw [scopeHasRoom_of_grant (Bool.not_eq_false _ ▸ hgr)] at hrm
    cases hrm

theorem takeKept_has {o k : String} (h : (f.takeKept o).remaining.has k = true) :
    f.remaining.has k = true := by
  rw [has_iff] at h ⊢
  simp only [takeKept] at h
  split at h
  next hp =>
    have ho : o ∈ f.remaining.keys := by
      by_contra hn
      rw [get_eq_none.mpr hn] at hp
      exact absurd hp (by simp)
    split at h
    · exact (mem_keys_delete.mp h).2
    · rwa [keys_set_of_mem _ ho] at h
  · exact h

/-- A grant applied on both sides keeps the relation. -/
theorem applyGrant (h : Refines localeCompare snapshot now options f r) (w : PlannerWaiter)
    (flag : Bool) (sched : SchedulerState) :
    Refines localeCompare snapshot now options (f.applyGrant w flag sched)
      (r.applyGrant w flag sched) where
  plan := congrArg (·.grant w flag sched) h.plan
  queued := by
    simp only [ReferenceState.applyGrant, PlannerState.applyGrant, h.queued, filter_filter]
    refine filter_congr fun e _ => ?_
    simp only [mem_append, mem_singleton, ← Bool.decide_and, not_or, and_comm]
  remaining o := h.takeKept_get w flag sched o
  total := by
    have hs : (f.remaining.get w.ownerKey).getD 0 =
        ReferenceState.remaining snapshot f.toPlanState w.ownerKey := by
      rw [h.remaining_getD, h.plan]
    simp only [PlannerState.applyGrant, takeKept, hs, total_grant, ← h.total]
    by_cases hp : 0 < ReferenceState.remaining snapshot f.toPlanState w.ownerKey
    · rw [if_pos hp, if_pos hp]
    · rw [if_neg hp, if_neg hp, sub_zero]
  classes := by
    have hc : (f.takeKept w.ownerKey).classes = f.classes := by
      simp only [takeKept]
      split <;> rfl
    exact hc ▸ h.classes.mono (fun _ => dead_applyGrant) (fun _ h => h)
  owners := by
    have ho : (f.takeKept w.ownerKey).ownerQueues = f.ownerQueues := by
      simp only [takeKept]
      split <;> rfl
    exact ho ▸ h.owners.mono (fun _ => dead_applyGrant) (fun _ => takeKept_has)

end Refines

/-! ## The start -/

variable (localeCompare snapshot now options)

/-- The loop over the kept slots, as one over their owners. -/
theorem foldl_remaining (slots : String → Int) : ∀ (os : List String)
    (acc : OrderedMap String Int × Int),
    (∀ o, (os.foldl (fun acc owner => (if slots owner > 0 then acc.1.set owner (slots owner)
        else acc.1, acc.2 + slots owner)) acc).1.get o =
      if o ∈ os ∧ 0 < slots o then some (slots o) else acc.1.get o) ∧
    (os.foldl (fun acc owner => (if slots owner > 0 then acc.1.set owner (slots owner)
        else acc.1, acc.2 + slots owner)) acc).2 = acc.2 + (os.map slots).sum
  | [], acc => ⟨fun o => by simp, by simp⟩
  | owner :: os, acc => by
    obtain ⟨hg, hs⟩ := foldl_remaining slots os
      (if slots owner > 0 then acc.1.set owner (slots owner) else acc.1, acc.2 + slots owner)
    rw [foldl_cons]
    refine ⟨fun o => ?_, ?_⟩
    · rw [hg o]
      by_cases hin : o ∈ os ∧ 0 < slots o
      · rw [if_pos hin, if_pos ⟨mem_cons_of_mem _ hin.1, hin.2⟩]
      rw [if_neg hin]
      by_cases ho : owner = o
      · subst ho
        by_cases hp : 0 < slots owner <;> simp [hp]
      have hco : ¬ (o ∈ owner :: os ∧ 0 < slots o) := by
        rintro ⟨hm, hp⟩
        exact hin ⟨(mem_cons.mp hm).resolve_left (Ne.symm ho), hp⟩
      split
      · exact get_set_ne _ _ ho
      · rfl
    · rw [hs, map_cons, sum_cons, add_assoc]

/-- What the owners have left at the start. -/
theorem initialRemaining_spec :
    (∀ o, (initialRemaining snapshot).1.get o =
      if 0 < ReferenceState.remaining snapshot (ofSnapshot snapshot) o then
        some (ReferenceState.remaining snapshot (ofSnapshot snapshot) o) else none) ∧
    (initialRemaining snapshot).2 =
      reservedRemainingTotal snapshot (ofSnapshot snapshot) := by
  have hs : ∀ e ∈ snapshot.reservationsByOwner.entries,
      max 0 (e.2 - ((ofSnapshot snapshot).ownerActive e.1 : Int)) =
        ReferenceState.remaining snapshot (ofSnapshot snapshot) e.1 := by
    intro e he
    rw [ReferenceState.remaining, get_eq_some.mpr he, Option.getD_some]
  have hfd : initialRemaining snapshot = snapshot.reservationsByOwner.keys.foldl
      (fun acc owner =>
        (if ReferenceState.remaining snapshot (ofSnapshot snapshot) owner > 0 then
          acc.1.set owner (ReferenceState.remaining snapshot (ofSnapshot snapshot) owner)
        else acc.1,
        acc.2 + ReferenceState.remaining snapshot (ofSnapshot snapshot) owner))
      (empty, 0) := by
    rw [initialRemaining, OrderedMap.keys, foldl_map]
    refine foldl_ext _ _ _ fun acc e he => ?_
    simp only [hs e he]
  obtain ⟨hg, hm⟩ := foldl_remaining (ReferenceState.remaining snapshot (ofSnapshot snapshot))
    snapshot.reservationsByOwner.keys (empty, 0)
  rw [hfd]
  refine ⟨fun o => ?_, hm.trans (Int.zero_add _)⟩
  rw [hg o, get_empty]
  by_cases hp : 0 < ReferenceState.remaining snapshot (ofSnapshot snapshot) o
  · rw [if_pos hp, if_pos ⟨mem_keys_of_remaining_pos hp, hp⟩]
  · rw [if_neg hp, if_neg (fun h => hp h.2)]

theorem refines_initial :
    Refines localeCompare snapshot now options (initialState localeCompare snapshot now options)
      (referenceInitial localeCompare snapshot now options) := by
  obtain ⟨hr, ht⟩ := initialRemaining_spec snapshot
  obtain ⟨hc, ho⟩ := initialQueues_indexed (initialRemaining snapshot).1
    (plannerEntries localeCompare snapshot now options)
    (initialState localeCompare snapshot now options).dead
  refine ⟨rfl, ?_, hr, ht, hc, ho⟩
  exact (filter_eq_self.mpr fun e _ => by simp [initialState]).symm

/-! ## One step, and the whole plan -/

variable {localeCompare snapshot now options}

namespace Refines
variable {f : PlannerState} {r : ReferenceState}
  (h : Refines localeCompare snapshot now options f r)
include h

/-- The flags the two planners record for a winner agree. -/
theorem flag_eq (hd : snapshot.DistinctWaiters) (hw : w ∈ (f.collectEligible snapshot).1) :
    ((borrowedByWaiter (f.collectEligible snapshot).1 (f.borrowed snapshot)).get
        w.waiter.waiterId).getD false = r.winnerBorrowed snapshot now w := by
  have hs : ∀ e ∈ (f.collectEligible snapshot).1,
      e ∈ r.eligibleEntries snapshot now := by
    intro e he
    obtain ⟨p, hp⟩ := h.mem_collectEligible.mp he
    exact h.eligible_eq ▸ (find_mem_offers hp).1
  have ht : ∀ e ∈ r.eligibleEntries snapshot now,
      e ∈ referenceEntries localeCompare snapshot now options := by
    intro e he
    have hm := mem_of_mem_filter he
    rw [h.queued] at hm
    exact mem_of_mem_filter hm
  have hi : ∀ e ∈ r.eligibleEntries snapshot now,
      e.waiter.waiterId = w.waiter.waiterId → e = w := by
    intro e he hid
    obtain ⟨heq, hm, -⟩ := mem_referenceEntries.mp (ht e he)
    obtain ⟨hq, hwm, -⟩ := mem_referenceEntries.mp (ht w (hs w hw))
    rw [heq, hq, inj_on_of_nodup_map hd hm hwm hid]
  rw [winnerBorrowed, borrowedByWaiter_get hw (fun e he => hi e (hs e he)),
    borrowedByWaiter_get (hs w hw) hi, h.borrowed_eq]

/-- **One step of the indexed planner is one step of the reference planner.** -/
theorem step (hd : snapshot.DistinctWaiters) :
    BoundedLoop.InStep (Refines localeCompare snapshot now options)
      (planStep localeCompare snapshot now options f)
      (referencePlanStep localeCompare snapshot now options r) := by
  unfold planStep referencePlanStep
  rw [h.plan]
  split
  · exact ⟨rfl, h⟩
  split
  · exact ⟨rfl, h⟩
  simp only [h.eligible_isEmpty]
  cases he : (r.eligibleEntries snapshot now).isEmpty with
  | true =>
    simp only [if_true, ite_self]
    split
    · exact ⟨rfl, h⟩
    · exact ⟨rfl, h.collectEligible_spec.2⟩
  | false =>
    -- something eligible is an entry of either planner
    have hr : r.entries.isEmpty = false := by
      cases hr : r.entries with
      | nil => simp [eligibleEntries, hr] at he
      | cons => rfl
    have hf : (plannerEntries localeCompare snapshot now options).isEmpty = false := by
      rw [h.eligible_eq] at he
      cases hf : plannerEntries localeCompare snapshot now options with
      | nil => simp [hf] at he
      | cons => rfl
    rw [hf, hr]
    simp only [Bool.false_eq_true, if_false, h.schedule_eq]
    cases hs : scheduleWeightedDeficitRoundRobin localeCompare Entry.candidate
        (r.eligibleEntries snapshot now) r.scheduler defaultPriorityQuanta with
    | error e => rfl
    | ok dec =>
      rw [← h.schedule_eq] at hs
      obtain ⟨-, hn, -⟩ := schedule_ok localeCompare Entry.candidate hs
      dsimp only [bind, Except.bind]
      cases hw : dec.winner with
      | none => exact ⟨rfl, h.collectEligible_spec.2⟩
      | some w =>
        have hg := h.collectEligible_spec.2.applyGrant w.waiter
          (r.winnerBorrowed snapshot now w) dec.state
        simp only [h.flag_eq hd (hn w hw).1]
        split
        · exact ⟨rfl, hg⟩
        · exact hg

end Refines

end

/-- The indexed planner computes the reference plan, and throws where it throws. -/
theorem planGrants_eq_reference (localeCompare : Comparator String) {snapshot : AdmissionSnapshot}
    (hd : snapshot.DistinctWaiters) (now : Instant) (options : PlannerOptions) :
    planGrants localeCompare snapshot now options =
      referencePlanGrants localeCompare snapshot now options := by
  have hr := run_simulates StoppedBy.progress
    (fun f r h => Refines.step h hd) (snapshot.waiters.length + 1) _ _
    (refines_initial localeCompare snapshot now options)
  unfold planGrants referencePlanGrants
  revert hr
  generalize run _ (planStep localeCompare snapshot now options) _ _ = fast
  generalize run _ (referencePlanStep localeCompare snapshot now options) _ _ = slow
  intro hr
  match fast, slow, hr with
  | .error _, .error _, h => exact congrArg Except.error h
  | .ok (_, f), .ok (_, r), ⟨hrs, h⟩ =>
    change Except.ok (GrantPlan.mk f.grants f.scheduler _) =
      Except.ok (GrantPlan.mk r.grants r.scheduler _)
    rw [h.plan, hrs]

/-- **The indexed planner returns the reference plan**: the same grants in the same order with
the same flags and scheduler states, the same final scheduler and the same reason to stop, for
any options and any number of waiters, owners, shared scopes and sibling waiters.  Without the
conditions on priorities and scheduler state the two still agree, exceptions included. -/
theorem planGrants_refines_referencePlanGrants (localeCompare : Comparator String)
    (snapshot : AdmissionSnapshot) (hdistinct : snapshot.DistinctWaiters) (now : Instant)
    (options : PlannerOptions) :
    planGrants localeCompare snapshot now options =
        referencePlanGrants localeCompare snapshot now options ∧
      ((∀ w ∈ snapshot.waiters, IsRank w.priority) → snapshot.scheduler.WellFormed →
        ∃ plan, planGrants localeCompare snapshot now options = .ok plan) := by
  have heq := planGrants_eq_reference localeCompare hdistinct now options
  refine ⟨heq, fun hr hs => ?_⟩
  rw [heq]
  exact referencePlanGrants_total hr hs

namespace KeptSlotSample

/-- The plan: one slot to the other owner, one to the owner that keeps it. -/
def plan : GrantPlan where
  grants := [⟨"w1", "r1", false, 2, ⟨2, [0, 0, 15], schedulerVersion⟩⟩,
    ⟨"w3", "r3", false, 0, ⟨1, [0, 0, 0], schedulerVersion⟩⟩]
  scheduler := ⟨1, [0, 0, 0], schedulerVersion⟩
  stoppedBy := .limit

theorem planGrants_snapshot : planGrants collation snapshot 0 {} = .ok plan := by decide +kernel

/-- The second waiter of the other owner would borrow the kept slot, and is passed over. -/
theorem planGrants_refines_snapshot :
    snapshot.DistinctWaiters ∧ planGrants collation snapshot 0 {} = .ok plan ∧
      planGrants collation snapshot 0 {} = referencePlanGrants collation snapshot 0 {} :=
  ⟨snapshot_distinct, planGrants_snapshot,
    (planGrants_refines_referencePlanGrants collation snapshot snapshot_distinct 0 {}).1⟩

end KeptSlotSample

end ModelProxy.Capacity
