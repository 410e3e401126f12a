import ModelProxy.UsageRollup

/-! # Usage is counted once and conserved

What a row says is read as a `tally`: for each hour and key, every counter and every bucket of
every histogram.  Tallies add up, and each way of adding rows (in memory and in the database)
adds their tallies; re-keying a row to its hour keeps its tally.  So writing increments adds
their tallies to a table (`total_write`), and moving minutes to hours moves theirs.

A run keeps, beside the database, the list of requests that became terminal, each as it was
then.  The guard of the transition makes it the list of terminal requests, without repetition
(`Counted`), and the two tables together hold its tally (`usage_conserved`).
-/
namespace ModelProxy.Usage
open List OrderedMap

/-! ## Tallies -/

/-- What is read of a row: a counter, or a bucket of a histogram. -/
abbrev Reading := Counter ⊕ (Histogram × ℕ)

/-- What a reading of the row gives. -/
def StoredCounters.read (row : StoredCounters) : Reading → ℤ
  | .inl c => row.count c
  | .inr (h, i) => (row.histogram h).getD i 0

/-- The key of the hour a row falls in. -/
def UsageRollupKey.hourKey (key : UsageRollupKey) : UsageRollupKey :=
  { key with bucketStart := truncateToHour key.bucketStart }

/-- Readings by hour and key. -/
abbrev Tally := UsageRollupKey → Reading → ℤ

/-- What a row adds to the totals. -/
def tally (key : UsageRollupKey) (row : StoredCounters) : Tally := fun group reading =>
  if key.hourKey = group then row.read reading else 0

/-- What an increment adds to the totals. -/
def UsageRollupIncrement.tally (increment : UsageRollupIncrement) : Tally :=
  Usage.tally increment.key increment.counters.stored

theorem sumBuckets_getD (length : ℕ) (left right : List ℤ) (i : ℕ) :
    (sumBuckets length left right).getD i 0 = left.getD i 0 + right.getD i 0 := by
  rw [sumBuckets]
  by_cases hi : i < max (max left.length right.length) length
  · rw [getD_eq_getElem?_getD, getElem?_map, getElem?_range hi]
    rfl
  · have hl : left[i]? = none := getElem?_eq_none (by omega)
    have hr : right[i]? = none := getElem?_eq_none (by omega)
    simp only [getD_eq_getElem?_getD, getElem?_map, hl, hr,
      getElem?_eq_none (Nat.le_trans (Nat.le_of_eq length_range) (Nat.not_lt.mp hi))]
    rfl

theorem read_merge (row add : StoredCounters) (reading : Reading) :
    (row.merge add).read reading = row.read reading + add.read reading := by
  rcases reading with c | ⟨h, i⟩
  · rfl
  · exact sumBuckets_getD 0 _ _ i

/-- A measure of rows that adds up where their readings do. -/
def AddsUp {M : Type} [Add M] (f : UsageRollupKey → StoredCounters → M) : Prop :=
  ∀ key a b c, (∀ reading, StoredCounters.read c reading = a.read reading + b.read reading) →
    f key c = f key a + f key b

theorem tally_addsUp : AddsUp tally := by
  intro key a b c h
  funext g reading
  simp only [tally, Pi.add_apply]
  by_cases hg : key.hourKey = g
  · rw [if_pos hg, if_pos hg, if_pos hg, h]
  · rw [if_neg hg, if_neg hg, if_neg hg, add_zero]

/-! ## Merging in memory -/

/-- A counter is held in the kind of its column. -/
def UsageRollupCounters.WellKinded (counters : UsageRollupCounters) : Prop :=
  ∀ c, ∃ n, counters.count c = if c ∈ bigRollupCounters then .big n else .number n

variable {c : Counter} {table table' minute : RollupTable} {id : DbText} {data : TerminalData}

theorem addCounter_kinded {m n : ℤ} :
    addCounter (if c ∈ bigRollupCounters then .big m else .number m)
      (if c ∈ bigRollupCounters then .big n else .number n) =
      if c ∈ bigRollupCounters then .big (m + n) else .number (m + n) := by
  by_cases hg : c ∈ bigRollupCounters
  · rw [if_pos hg, if_pos hg, if_pos hg, addCounter]
  · rw [if_neg hg, if_neg hg, if_neg hg, addCounter]

theorem toInt_kinded {n : ℤ} :
    (if c ∈ bigRollupCounters then CounterValue.big n else .number n).toInt = n := by
  split <;> rfl

section
variable {a b : UsageRollupCounters} (ha : a.WellKinded) (hb : b.WellKinded)
include ha hb

theorem UsageRollupCounters.WellKinded.add : (addRollupCounters a b).WellKinded := by
  intro c
  obtain ⟨m, hm⟩ := ha c
  obtain ⟨n, hn⟩ := hb c
  exact ⟨m + n, by simp only [addRollupCounters, hm, hn, addCounter_kinded]⟩

theorem read_addRollupCounters (reading : Reading) :
    (addRollupCounters a b).stored.read reading =
      a.stored.read reading + b.stored.read reading := by
  rcases reading with c | ⟨h, i⟩
  · obtain ⟨m, hm⟩ := ha c
    obtain ⟨n, hn⟩ := hb c
    simp only [StoredCounters.read, UsageRollupCounters.stored, addRollupCounters, hm, hn,
      addCounter_kinded, toInt_kinded]
  · exact sumBuckets_getD latencyHistogramBuckets _ _ i

end

theorem rollupIncrementForRequest_spec {row : RelayRollupRow} {now : ℤ}
    {inc : UsageRollupIncrement} (h : rollupIncrementForRequest row now = some inc) :
    inc.counters.WellKinded ∧ inc.key.ownerUserId = resourceOwnerUserId row := by
  rw [rollupIncrementForRequest] at h
  split at h
  · cases h
  · cases h
    refine ⟨fun c => ?_, rfl⟩
    cases c <;> exact ⟨_, rfl⟩

theorem RequestSource.text_injective : Function.Injective RequestSource.text := by
  intro a b h
  cases a <;> cases b <;> first | rfl | exact absurd h (by decide)

section
variable (iso : IsoText)

/-- NUL separates the parts, so that they can be told from the text. -/
theorem rollupKeyString_injective : Function.Injective (rollupKeyString iso) := by
  have hfr : ∀ key, ∀ part ∈ rollupKeyParts iso key, nul ∉ part := by
    intro key
    have hs : nul ∉ key.source.text := by cases key.source <;> decide
    simp only [rollupKeyParts, forall_mem_cons]
    exact ⟨iso.nulFree _, key.ownerUserId.2, key.requesterUserId.2, key.poolId.2, key.runtimeId.2,
      key.versionId.2, key.nodeId.2, key.instanceId.2, key.runtimeModelId.2,
      key.providerModelId.2, hs, nofun⟩
  intro a b h
  have hp : rollupKeyParts iso a = rollupKeyParts iso b := by
    have hsp := congrArg (splitOn nul) h
    rwa [rollupKeyString, rollupKeyString, splitOn_intercalate _ (hfr a) nofun,
      splitOn_intercalate _ (hfr b) nofun] at hsp
  simp only [rollupKeyParts, cons.injEq, Subtype.val_inj, iso.injective.eq_iff,
    RequestSource.text_injective.eq_iff, and_true] at hp
  cases a; cases b
  simp_all

variable {iso} {users : DbText → Bool} {Q : UsageRollupKey → Prop} {M : Type} [AddCommMonoid M]
  {f : UsageRollupKey → StoredCounters → M}

variable (iso Q) in
/-- The map of merged increments: each under its own key's text. -/
def Merged (merged : OrderedMap (List Char) UsageRollupIncrement) : Prop :=
  ∀ text increment, merged.get text = some increment →
    rollupKeyString iso increment.key = text ∧ increment.counters.WellKinded ∧ Q increment.key

/-- Increments a table can take: of the right kinds, with keys in `Q`. -/
def Fit (Q : UsageRollupKey → Prop) (increment : UsageRollupIncrement) : Prop :=
  increment.counters.WellKinded ∧ Q increment.key

/-- The measure of an increment's row. -/
def UsageRollupIncrement.measure (f : UsageRollupKey → StoredCounters → M)
    (increment : UsageRollupIncrement) : M := f increment.key increment.counters.stored

theorem measure_addIncrement {old add : UsageRollupIncrement} (hf : AddsUp f)
    (he : old.counters.WellKinded) (hd : add.counters.WellKinded)
    (hk : old.key = add.key) :
    (addIncrement old add).measure f = old.measure f + add.measure f := by
  rw [UsageRollupIncrement.measure, UsageRollupIncrement.measure, UsageRollupIncrement.measure,
    ← hk]
  exact hf old.key _ _ _ (read_addRollupCounters he hd)

variable {incs : List UsageRollupIncrement} {row : RelayRollupRow}
  {inc : UsageRollupIncrement} {now : ℤ} {rs : List RelayRollupRow}

theorem Merged.upsert {merged : OrderedMap (List Char) UsageRollupIncrement}
    (h : Merged iso Q merged) (hf : Fit Q inc) :
    Merged iso Q (merged.upsert addIncrement (rollupKeyString iso inc.key) inc) := by
  intro text stored hg
  rw [OrderedMap.upsert, get_set] at hg
  split at hg
  · rename_i htx
    cases hold : merged.get (rollupKeyString iso inc.key) with
    | none =>
      rw [hold] at hg
      cases hg
      exact ⟨htx, hf⟩
    | some old =>
      rw [hold] at hg
      cases hg
      obtain ⟨hk, hn, hQ⟩ := h _ _ hold
      exact ⟨hk.trans htx, hn.add hf.1, hQ⟩
  · exact h text stored hg

variable (iso) in
/-- Merging keeps every total. -/
theorem mergeStep_run (hf : AddsUp f) :
    ∀ merged : OrderedMap (List Char) UsageRollupIncrement, Merged iso Q merged →
      (∀ inc ∈ incs, Fit Q inc) →
      let result := incs.foldl (fun merged inc =>
        merged.upsert addIncrement (rollupKeyString iso inc.key) inc) merged
      Merged iso Q result ∧ result.total (fun _ i => i.measure f) =
        merged.total (fun _ i => i.measure f) + (incs.map (·.measure f)).sum := by
  induction incs with
  | nil =>
    intro merged h _
    exact ⟨h, (add_zero _).symm⟩
  | cons inc incs ih =>
    intro merged h ht
    have hs := ht inc mem_cons_self
    obtain ⟨hm, hto⟩ := ih _ (h.upsert hs) fun i hi => ht i (mem_cons_of_mem _ hi)
    refine ⟨hm, hto.trans ?_⟩
    rw [total_upsert fun old hold => ?_, map_cons, sum_cons, add_assoc]
    obtain ⟨htx, hk, -⟩ := h _ _ hold
    exact measure_addIncrement hf hk hs.1 (rollupKeyString_injective iso htx)

variable (iso) in
/-- Merging keeps what increments count, and adds no key. -/
theorem mergeRollupIncrements_spec (hf : AddsUp f) (hfi : ∀ inc ∈ incs, Fit Q inc) :
    ((mergeRollupIncrements iso incs).map (·.measure f)).sum = (incs.map (·.measure f)).sum ∧
      ∀ inc ∈ mergeRollupIncrements iso incs, Fit Q inc := by
  obtain ⟨hm, ht⟩ := mergeStep_run iso hf .empty nofun hfi
  constructor
  · rw [total_empty, zero_add] at ht
    rw [← ht, total, mergeRollupIncrements, values, map_map]
    rfl
  · intro inc hme
    obtain ⟨e, he, rfl⟩ := mem_map.mp hme
    exact (hm _ _ (get_eq_some.mpr he)).2

/-! ## Writing -/

/-- The owners of the rows exist. -/
def Owned (users : DbText → Bool) (table : RollupTable) : Prop :=
  ∀ key row, table.get key = some row → users key.ownerUserId = true

/-- The keys of the rows are in `Q`. -/
def Keys (Q : UsageRollupKey → Prop) (table : RollupTable) : Prop :=
  ∀ key row, table.get key = some row → Q key

/-- What one upsert for an owner that exists does. -/
theorem rollupUpsert_spec (hf : AddsUp f) (ho : users inc.key.ownerUserId = true) (hQ : Q inc.key)
    (h : rollupUpsert users table inc = some table') :
    table'.total f = table.total f + inc.measure f ∧ (Keys Q table → Keys Q table') := by
  rw [rollupUpsert, if_pos ho] at h
  simp only at h
  split at h
  · cases h
    refine ⟨total_upsert fun old _ => hf _ _ _ _ (read_merge old _), ?_⟩
    intro hky key row hg
    rw [upsert, get_set] at hg
    split at hg
    · rename_i hk
      rw [← hk]
      exact hQ
    · exact hky key row hg
  · cases h

/-- Writing increments adds their totals. -/
theorem upserts_spec (hf : AddsUp f) (ho : ∀ key, Q key → users key.ownerUserId = true) :
    ∀ {table table' : RollupTable}, (∀ inc ∈ incs, Q inc.key) →
      incs.foldlM (rollupUpsert users) table = some table' →
      table'.total f = table.total f + (incs.map (·.measure f)).sum ∧
        (Keys Q table → Keys Q table') := by
  induction incs with
  | nil =>
    intro table table' _ h
    cases h
    exact ⟨(add_zero _).symm, id⟩
  | cons inc incs ih =>
    intro table table' hQ h
    obtain ⟨middle, hs, hr⟩ := Option.bind_eq_some_iff.mp h
    have hk := hQ _ mem_cons_self
    obtain ⟨ht, hky⟩ := rollupUpsert_spec hf (ho _ hk) hk hs
    obtain ⟨ht', hky'⟩ := ih (fun i hi => hQ i (mem_cons_of_mem _ hi)) hr
    refine ⟨?_, fun h => hky' (hky h)⟩
    rw [ht', ht, map_cons, sum_cons, add_assoc]

/-- **Writing increments adds what they count.** -/
theorem write_spec (hf : AddsUp f) (ho : ∀ key, Q key → users key.ownerUserId = true)
    (hfi : ∀ inc ∈ incs, Fit Q inc) (h : writeRollupIncrements iso users table incs = some table') :
    table'.total f = table.total f + (incs.map (·.measure f)).sum ∧
      (Keys Q table → Keys Q table') := by
  obtain ⟨hs, hm⟩ := mergeRollupIncrements_spec iso hf hfi
  have hpm := (byKeyString iso).sort_perm (mergeRollupIncrements iso incs)
  obtain ⟨ht, hky⟩ := upserts_spec hf ho
    (fun i hi => (hm i (hpm.mem_iff.mp hi)).2) h
  rw [(hpm.map _).sum_eq, hs] at ht
  exact ⟨ht, hky⟩

/-- What a request that became terminal is to count. -/
def contribution (row : RelayRollupRow) (now : ℤ) : Tally :=
  ((rollupIncrementForRequest row now).map (·.tally)).getD 0

theorem sum_increments (rs : List RelayRollupRow) (now : ℤ) :
    ((rs.filterMap fun row => rollupIncrementForRequest row now).map (·.tally)).sum =
      (rs.map fun row => contribution row now).sum := by
  induction rs with
  | nil => rfl
  | cons row rs ih =>
    rw [map_cons, sum_cons, ← ih, contribution]
    cases h : rollupIncrementForRequest row now with
    | none => simp [h]
    | some inc =>
      simp [h]

theorem record_spec {minute' : RollupTable}
    (hn : ∀ row ∈ rs, users (resourceOwnerUserId row) = true)
    (h : recordRelayRequestRollups iso users minute rs now = some minute') :
    minute'.total tally = minute.total tally + (rs.map fun row => contribution row now).sum ∧
      (Owned users minute → Owned users minute') := by
  rw [← sum_increments]
  refine write_spec tally_addsUp (fun _ ho => ho) (fun inc hm => ?_) h
  obtain ⟨row, hr, hi⟩ := mem_filterMap.mp hm
  obtain ⟨hk, ho⟩ := rollupIncrementForRequest_spec hi
  refine ⟨hk, ?_⟩
  show users inc.key.ownerUserId = true
  exact ho ▸ hn row hr

/-! ## Moving minutes to hours -/

theorem tally_hourKey (key : UsageRollupKey) (row : StoredCounters) :
    tally key.hourKey row = tally key row := by
  have hk : key.hourKey.hourKey = key.hourKey := by
    simp only [UsageRollupKey.hourKey, truncateToHour, hourMs, minuteMs]
    congr 1
    omega
  funext g reading
  rw [tally, hk, tally]

theorem total_deletes {rs : List (UsageRollupKey × StoredCounters)} :
    ∀ {table : RollupTable}, (rs.map Prod.fst).Nodup →
      (∀ row ∈ rs, table.get row.1 = some row.2) →
      (rs.foldl (fun t row => t.delete row.1) table).total f +
        (rs.map fun row => f row.1 row.2).sum = table.total f := by
  induction rs with
  | nil => exact fun _ _ => add_zero _
  | cons row rs ih =>
    intro table hn hg
    obtain ⟨ht, hn⟩ := nodup_cons.mp hn
    have hr : ∀ other ∈ rs, (table.delete row.1).get other.1 = some other.2 := by
      intro other ho
      have hne : row.1 ≠ other.1 := fun heq => ht (heq ▸ mem_map_of_mem ho)
      rw [get_delete, if_neg hne]
      exact hg other (mem_cons_of_mem _ ho)
    rw [foldl_cons, map_cons, sum_cons, add_comm (f row.1 row.2), ← add_assoc, ih hn hr]
    exact total_delete (hg row mem_cons_self)

theorem Keys.deletes {rs : List (UsageRollupKey × StoredCounters)} :
    ∀ {table : RollupTable}, Keys Q table →
      Keys Q (rs.foldl (fun t row => t.delete row.1) table) := by
  induction rs with
  | nil => exact fun h => h
  | cons row rs ih =>
    intro table h
    refine ih fun key stored hg => ?_
    rw [get_delete] at hg
    split at hg
    · cases hg
    · exact h key stored hg

/-- The rows a batch takes are rows of the table past the cutoff, each once. -/
theorem pickMinutes_spec (minute : RollupTable) (cutoff : ℤ) (batch : ℕ)
    (locked : UsageRollupKey → Bool) :
    ((pickMinutes minute cutoff batch locked).map Prod.fst).Nodup ∧
      ∀ row ∈ pickMinutes minute cutoff batch locked,
        minute.get row.1 = some row.2 ∧ row.1.bucketStart < cutoff := by
  have hpm := (Comparator.difference.comap fun row : UsageRollupKey × StoredCounters =>
    row.1.bucketStart).sort_perm
      (minute.entries.filter fun row => row.1.bucketStart < cutoff && !locked row.1)
  constructor
  · have hn := (hpm.map Prod.fst).nodup_iff.mpr
      (minute.nodup.sublist (filter_sublist.map Prod.fst))
    exact hn.sublist ((take_sublist _ _).map _)
  · intro row hr
    have hm := hpm.mem_iff.mp (mem_of_mem_take hr)
    obtain ⟨he, hps⟩ := mem_filter.mp hm
    exact ⟨get_eq_some.mpr he, of_decide_eq_true (Bool.and_eq_true_iff.mp hps).1⟩

/-- A moved row is stored as it was. -/
theorem stored_hourIncrement (row : UsageRollupKey × StoredCounters) :
    (hourIncrement row).counters.stored = row.2 := by
  simp only [UsageRollupCounters.stored, hourIncrement, toInt_kinded]

/-- **A batch moves what it takes**: a measure that the moved rows keep in their hours is neither
lost nor counted twice. -/
theorem compactBatch_spec {db db' : UsageDb} {cut : ℤ} {batch : ℕ}
    {locked : UsageRollupKey → Bool} (hf : AddsUp f)
    (hmv : ∀ key row, Q key → key.bucketStart < cut → f key.hourKey row = f key row)
    (hown : ∀ key, Q key → users key.ownerUserId = true) (hky : Keys Q db.minute)
    (h : compactBatch iso users db cut batch locked = some db') :
    db'.requests = db.requests ∧ Keys Q db'.minute ∧
      db'.minute.total f + db'.hour.total f = db.minute.total f + db.hour.total f := by
  obtain ⟨hour, hwrt, hdb⟩ := Option.bind_eq_some_iff.mp h
  cases hdb
  obtain ⟨hnod, hpic⟩ := pickMinutes_spec db.minute cut batch locked
  generalize pickMinutes db.minute cut batch locked = rs at *
  have hrow : ∀ row ∈ rs, Q row.1 := fun row hmem => hky _ _ (hpic row hmem).1
  have hfit : ∀ inc ∈ hourIncrementsFromMinuteRows rs,
      Fit (fun key => users key.ownerUserId = true) inc := by
    intro inc hmem
    obtain ⟨row, hrw, rfl⟩ := mem_map.mp hmem
    exact ⟨fun c => ⟨row.2.count c, rfl⟩, hown row.1 (hrow row hrw)⟩
  have hsum : ((hourIncrementsFromMinuteRows rs).map (·.measure f)).sum =
      (rs.map fun row => f row.1 row.2).sum := by
    rw [hourIncrementsFromMinuteRows, map_map]
    refine congrArg sum (map_congr_left fun row hmem => ?_)
    show f _ (hourIncrement row).counters.stored = _
    rw [stored_hourIncrement]
    exact hmv row.1 row.2 (hrow row hmem) (hpic row hmem).2
  obtain ⟨htot, -⟩ := write_spec hf (fun _ hown => hown) hfit hwrt
  refine ⟨rfl, hky.deletes, ?_⟩
  rw [htot, hsum, ← total_deletes hnod fun row hmem => (hpic row hmem).1,
    add_comm (db.hour.total f), ← add_assoc]

/-! ## Transitions -/

/-- The requests by id. -/
abbrev Requests := OrderedMap DbText RelayRollupRow

/-- A request is stored under its id. -/
def Keyed (requests : Requests) : Prop := ∀ id row, requests.get id = some row → row.id = id

/-- The requests `rows` became terminal, and no other changed. -/
structure Moved (requests requests' : Requests) (rows : List RelayRollupRow) : Prop where
  nodup : (rows.map (·.id)).Nodup
  was : ∀ row ∈ rows, ∃ old, requests.get row.id = some old ∧ old.status = .pending
  became : ∀ row ∈ rows, requests'.get row.id = some row ∧ row.status ≠ .pending
  rest : ∀ id, id ∉ rows.map (·.id) → requests'.get id = requests.get id

variable {requests : Requests}

theorem Moved.keyed {requests' : Requests} (h : Moved requests requests' rs)
    (hk : Keyed requests) : Keyed requests' := by
  intro id row hg
  by_cases hm : id ∈ rs.map (·.id)
  · obtain ⟨row', hr', rfl⟩ := mem_map.mp hm
    rw [(h.became row' hr').1] at hg
    cases hg
    rfl
  · rw [h.rest id hm] at hg
    exact hk id row hg

theorem claimRequest_some (h : claimRequest requests id data = some row) :
    ∃ old, requests.get id = some old ∧ old.status = .pending ∧ row = data.apply old := by
  obtain ⟨old, hold, rfl⟩ := Option.map_eq_some_iff.mp h
  obtain ⟨hg, hpn⟩ := Option.filter_eq_some_iff.mp hold
  exact ⟨old, hg, of_decide_eq_true hpn, rfl⟩

theorem moved_claim (hk : Keyed requests) (h : claimRequest requests id data = some row) :
    Moved requests (requests.set id row) [row] := by
  obtain ⟨old, hg, hpn, rfl⟩ := claimRequest_some h
  have hid : (data.apply old).id = id := (data.keepsId old).trans (hk id old hg)
  refine ⟨nodup_singleton _, ?_, ?_, ?_⟩
  · intro row hr
    rw [mem_singleton.mp hr, hid]
    exact ⟨old, hg, hpn⟩
  · intro row hr
    rw [mem_singleton.mp hr, hid]
    exact ⟨get_set_self _ _ _, data.terminal old⟩
  · intro other ho
    have hne : id ≠ other := fun heq => ho (mem_singleton.mpr (heq.symm.trans hid.symm))
    exact get_set_ne _ _ hne

/-- The guarded updates of several requests. -/
theorem claimRequests_spec (data : TerminalData) : ∀ (ids : List DbText) (requests : Requests),
    (∀ id ∈ (claimRequests data ids requests).2, ∃ old, requests.get id = some old ∧
      old.status = .pending ∧
      (claimRequests data ids requests).1.get id = some (data.apply old)) ∧
    ∀ id, id ∉ (claimRequests data ids requests).2 →
      (claimRequests data ids requests).1.get id = requests.get id
  | [], requests => ⟨nofun, fun _ _ => rfl⟩
  | id :: ids, requests => by
    rw [claimRequests]
    cases hl : claimRequest requests id data with
    | none => exact claimRequests_spec data ids requests
    | some row =>
      obtain ⟨old, hg, hpn, rfl⟩ := claimRequest_some hl
      obtain ⟨hc, hr⟩ := claimRequests_spec data ids (requests.set id (data.apply old))
      simp only
      generalize claimRequests data ids (requests.set id (data.apply old)) = rest at *
      -- the request claimed first is terminal for the others
      have hn : id ∉ rest.2 := by
        intro hm
        obtain ⟨old', hg', hpn', -⟩ := hc id hm
        rw [get_set_self] at hg'
        cases hg'
        exact data.terminal old hpn'
      constructor
      · intro other ho
        rcases mem_cons.mp ho with rfl | hm
        · exact ⟨old, hg, hpn, by rw [hr other hn, get_set_self]⟩
        · have hne : id ≠ other := fun heq => hn (heq ▸ hm)
          obtain ⟨old', hg', hw⟩ := hc other hm
          rw [get_set_ne _ _ hne] at hg'
          exact ⟨old', hg', hw⟩
      · intro other ho
        obtain ⟨hne, hm⟩ := not_or.mp (fun h => ho (mem_cons.mpr h))
        rw [hr other hm, get_set_ne _ _ (Ne.symm hne)]

/-- A claim moves just the rows it returns. -/
theorem moved_claims (hk : Keyed requests) (data : TerminalData) (ids : List DbText) :
    Moved requests (claimRequests data ids requests).1
      (transitionedRows (claimRequests data ids requests).1
        (claimRequests data ids requests).2) := by
  obtain ⟨hc, hr⟩ := claimRequests_spec data ids requests
  generalize claimRequests data ids requests = claimed at *
  have hk' : Keyed claimed.1 := by
    intro id row hg
    by_cases hm : id ∈ claimed.2
    · obtain ⟨old, hold, -, hw⟩ := hc id hm
      rw [hw] at hg
      cases hg
      exact (data.keepsId old).trans (hk id old hold)
    · rw [hr id hm] at hg
      exact hk id row hg
  have hw : ∀ row ∈ transitionedRows claimed.1 claimed.2,
      claimed.1.get row.id = some row ∧ row.id ∈ claimed.2 ∧ row.status ≠ .pending := by
    intro row hm
    obtain ⟨hv, hte⟩ := mem_filter.mp hm
    obtain ⟨e, he, rfl⟩ := mem_map.mp hv
    have hg := get_eq_some.mpr he
    simp only [Bool.and_eq_true, decide_eq_true_eq] at hte
    rw [hk' _ _ hg] at hte ⊢
    exact ⟨hg, hte⟩
  refine ⟨?_, ?_, fun row hm => ⟨(hw row hm).1, (hw row hm).2.2⟩, ?_⟩
  · have hi : claimed.1.values.map (·.id) = claimed.1.keys := by
      rw [values, OrderedMap.keys, map_map]
      exact map_congr_left fun e he =>
        hk' _ _ (get_eq_some.mpr he)
    exact (hi ▸ claimed.1.keys_nodup).sublist (filter_sublist.map _)
  · intro row hm
    obtain ⟨old, hold, hpn, -⟩ := hc row.id (hw row hm).2.1
    exact ⟨old, hold, hpn⟩
  · intro id hid
    refine hr id fun hm => hid ?_
    obtain ⟨old, -, -, hg⟩ := hc id hm
    refine mem_map.mpr ⟨data.apply old, mem_filter.mpr ⟨?_, ?_⟩, hk' _ _ hg⟩
    · exact mem_map.mpr ⟨(id, data.apply old), get_eq_some.mp hg, rfl⟩
    · simp only [Bool.and_eq_true, decide_eq_true_eq]
      exact ⟨(hk' _ _ hg).symm ▸ hm, data.terminal old⟩

/-! ## Runs -/

/-- The database, and the requests that became terminal with the time each was recorded. -/
structure UsageState where
  db : UsageDb
  became : List (RelayRollupRow × ℤ)

/-- Nothing is stored. -/
def UsageState.empty : UsageState := ⟨⟨.empty, .empty, .empty⟩, []⟩

variable (iso users) in
/-- **One committed transaction.**  Requests are created pending and edited at any time;
finalizers race for them; batches of minutes are compacted.  Owners exist. -/
inductive Step : UsageState → UsageState → Prop
  | create {s : UsageState} (row : RelayRollupRow) (fresh : s.db.requests.get row.id = none)
      (pending : row.status = .pending) :
      Step s ⟨{ s.db with requests := s.db.requests.set row.id row }, s.became⟩
  | edit {s : UsageState} {old : RelayRollupRow} (row : RelayRollupRow)
      (stored : s.db.requests.get row.id = some old) (same : row.status = old.status) :
      Step s ⟨{ s.db with requests := s.db.requests.set row.id row }, s.became⟩
  | finalize {s : UsageState} {id : DbText} {data : TerminalData} {now : ℤ} {db : UsageDb}
      {won : Bool}
      (owners : ∀ row ∈ claimRequest s.db.requests id data, users (resourceOwnerUserId row) = true)
      (ran : transitionRelayRequestTerminal iso users s.db id data now = some (db, won)) :
      Step s ⟨db, s.became ++ (claimRequest s.db.requests id data).toList.map (·, now)⟩
  | finalizeMany {s : UsageState} {ids : List DbText} {data : TerminalData} {now : ℤ}
      {db : UsageDb} {rows : List RelayRollupRow}
      (owners : ∀ row ∈ rows, users (resourceOwnerUserId row) = true)
      (ran : transitionRequests iso users s.db ids data now = some (db, rows)) :
      Step s ⟨db, s.became ++ rows.map (·, now)⟩
  | compact {s : UsageState} {cutoff : ℤ} {batch : ℕ} {locked : UsageRollupKey → Bool}
      {db : UsageDb} (ran : compactBatch iso users s.db cutoff batch locked = some db) :
      Step s ⟨db, s.became⟩

variable (users) in
/-- What every run keeps. -/
structure Counted (s : UsageState) : Prop where
  keyed : Keyed s.db.requests
  owned : Owned users s.db.minute
  nodup : (s.became.map (·.1.id)).Nodup
  terminal : ∀ id, id ∈ s.became.map (·.1.id) ↔
    ∃ row, s.db.requests.get id = some row ∧ row.status ≠ .pending
  conserved : s.db.minute.total tally + s.db.hour.total tally =
    (s.became.map fun e => contribution e.1 e.2).sum

theorem counted_empty : Counted users .empty where
  keyed id row hg := by
    cases hg
  owned key row hg := by
    cases hg
  nodup := nodup_nil
  terminal id := by
    simp [UsageState.empty]
  conserved := by
    simp [UsageState.empty]

variable {s : UsageState}

/-- Requests that became terminal and were recorded are counted. -/
theorem Counted.moved (h : Counted users s) (hm : Moved s.db.requests requests rs)
    (ho : ∀ row ∈ rs, users (resourceOwnerUserId row) = true)
    (hc : recordRelayRequestRollups iso users s.db.minute rs now = some minute) :
    Counted users ⟨{ s.db with requests, minute }, s.became ++ rs.map (·, now)⟩ := by
  obtain ⟨ht, hoe⟩ := record_spec ho hc
  have hi : (s.became ++ rs.map (·, now)).map (·.1.id) =
      s.became.map (·.1.id) ++ rs.map (·.id) := by
    rw [map_append, map_map]
    rfl
  refine ⟨hm.keyed h.keyed, hoe h.owned, ?_, ?_, ?_⟩
  · rw [hi]
    refine nodup_append.mpr ⟨h.nodup, hm.nodup, ?_⟩
    -- a request that became terminal now was pending, so that it was not counted before
    rintro id hf _ hn rfl
    obtain ⟨row, hr, rfl⟩ := mem_map.mp hn
    obtain ⟨old, hold, hpn⟩ := hm.was row hr
    obtain ⟨old', hold', htr⟩ := (h.terminal row.id).mp hf
    rw [hold] at hold'
    cases hold'
    exact htr hpn
  · intro id
    rw [hi, mem_append]
    by_cases hn : id ∈ rs.map (·.id)
    · obtain ⟨row, hr, rfl⟩ := mem_map.mp hn
      exact iff_of_true (.inr hn) ⟨row, hm.became row hr⟩
    · rw [hm.rest id hn, h.terminal id]
      exact or_iff_left hn
  · show minute.total tally + s.db.hour.total tally = _
    rw [ht, map_append, sum_append, ← h.conserved, map_map, add_right_comm]
    rfl

/-- A change of a request that is not its end changes no count. -/
theorem Counted.set (h : Counted users s) (hsm : row.status ≠ .pending ↔
      ∃ old, s.db.requests.get row.id = some old ∧ old.status ≠ .pending) :
    Counted users ⟨{ s.db with requests := s.db.requests.set row.id row }, s.became⟩ where
  keyed := by
    intro id stored hg
    rw [get_set] at hg
    split at hg
    · rename_i hid
      cases hg
      exact hid
    · exact h.keyed id stored hg
  owned := h.owned
  nodup := h.nodup
  terminal := by
    intro id
    rw [h.terminal id]
    by_cases hid : row.id = id
    · subst hid
      simp [hsm]
    · simp only [get_set_ne _ _ hid]
  conserved := h.conserved

/-- **Every transaction keeps the count.** -/
theorem Step.counted {t : UsageState} (hsp : Step iso users s t) (h : Counted users s) :
    Counted users t := by
  cases hsp with
  | create row fresh pending =>
    refine h.set (iff_of_false (fun hne => hne pending) ?_)
    rintro ⟨old, hold, -⟩
    rw [fresh] at hold
    cases hold
  | @edit old row stored same =>
    refine h.set ?_
    rw [same]
    exact ⟨fun hne => ⟨old, stored, hne⟩, fun ⟨old', hold', hne⟩ =>
      Option.some.inj (stored.symm.trans hold') ▸ hne⟩
  | @finalize id data now db won os ran =>
    rw [transitionRelayRequestTerminal] at ran
    cases hc : claimRequest s.db.requests id data with
    | none =>
      rw [hc] at ran
      cases ran
      rw [Option.toList_none, map_nil, append_nil]
      exact h
    | some row =>
      rw [hc] at ran
      obtain ⟨minute, hr, hdb⟩ := Option.bind_eq_some_iff.mp ran
      cases hdb
      refine h.moved (moved_claim h.keyed hc) ?_ hr
      intro row' hr'
      rw [mem_singleton.mp hr']
      exact os row hc
  | @finalizeMany ids data now db rs os ran =>
    have hm := moved_claims h.keyed data ids
    obtain ⟨minute, hr, hdb⟩ := Option.bind_eq_some_iff.mp ran
    obtain ⟨rfl, hrw⟩ := Prod.mk.inj (Option.some.inj hdb)
    rw [hrw] at hm hr
    exact h.moved hm os hr
  | compact ran =>
    obtain ⟨hq, hoe, ht⟩ := compactBatch_spec tally_addsUp
      (fun key row _ _ => tally_hourKey key row) (fun _ ho => ho) h.owned ran
    exact ⟨hq ▸ h.keyed, hoe, h.nodup, hq ▸ h.terminal, ht.trans h.conserved⟩

end

/-- **Usage is counted once and conserved.**  In every run, the readings of the minute and the
hour table by hour and key add up to those of the increments of the requests that became
terminal; these are the terminal requests, each once. -/
theorem usage_conserved {iso : IsoText} {users : DbText → Bool} {s : UsageState}
    (hrun : Relation.ReflTransGen (Step iso users) .empty s) :
    s.db.minute.total tally + s.db.hour.total tally =
        (s.became.map fun e => contribution e.1 e.2).sum ∧
      (s.became.map (·.1.id)).Nodup ∧
      ∀ id, id ∈ s.became.map (·.1.id) ↔
        ∃ row, s.db.requests.get id = some row ∧ row.status ≠ .pending := by
  have hc : Counted users s := by
    induction hrun with
    | refl => exact counted_empty
    | tail _ hs ih => exact hs.counted ih
  exact ⟨hc.conserved, hc.nodup, hc.terminal⟩

/-- Times written in unary. -/
def unaryIso : IsoText where
  text time := if time < 0 then List.replicate time.natAbs '-' else List.replicate time.natAbs '0'
  injective := by
    intro a b h
    by_cases ha : a < 0 <;> by_cases hb : b < 0 <;> simp only [ha, hb, if_true, if_false] at h
    all_goals
      have hlength := congrArg List.length h
      rw [List.length_replicate, List.length_replicate] at hlength
      have hhead := congrArg List.head? h
      rw [List.head?_replicate, List.head?_replicate] at hhead
    · omega
    · rw [if_neg (by omega), if_neg (by omega)] at hhead
      cases hhead
    · rw [if_neg (by omega), if_neg (by omega)] at hhead
      cases hhead
    · omega
  nulFree := by
    intro time hmem
    split at hmem <;> exact absurd (List.eq_of_mem_replicate hmem) (by decide)

/-- A request of the user `a` that runs. -/
def pendingRow : RelayRollupRow where
  id := ⟨['r'], by decide⟩
  userId := ⟨['a'], by decide⟩
  route := none
  external := false
  rejection := none
  status := .pending
  source := .apiKey
  startedAt := 0
  completedAt := none
  durationMs := none
  firstClientByteAt := some 12
  queueWaitMs := some 3
  poolId := none
  runtimeModelId := none
  selectedInstanceId := none
  selectedVersionId := none
  selectedNodeId := none
  selectedProviderModelId := none
  attemptCount := 1
  promptTokens := some 5
  completionTokens := some 7
  cacheReadTokens := none
  cacheWriteTokens := none
  usageKnown := true
  affinityOutcome := none
  operation := none
  audioInputMs := none
  contextTokenCount := none
  resourceOwnerUserId := none

/-- A second request. -/
def otherRow : RelayRollupRow := { pendingRow with id := ⟨['q'], by decide⟩ }

/-- A request that succeeds. -/
def succeeded : TerminalData where
  apply row := { row with status := .succeeded, durationMs := some 40 }
  keepsId _ := rfl
  terminal _ := nofun

/-- A finalizer of the sample. -/
def UsageState.finalize (s : UsageState) (id : DbText) (now : ℤ) : Option UsageState :=
  (transitionRelayRequestTerminal unaryIso (fun _ => true) s.db id succeeded now).map fun db =>
    ⟨db.1, s.became ++ (claimRequest s.db.requests id succeeded).toList.map (·, now)⟩

/-- Two requests; two finalizers of the first, of which one loses; then all minutes are moved. -/
def sampleRun : Option UsageState := do
  let requests := (OrderedMap.empty.set pendingRow.id pendingRow).set otherRow.id otherRow
  let s ← UsageState.finalize ⟨⟨requests, .empty, .empty⟩, []⟩ pendingRow.id 1000
  let s ← s.finalize pendingRow.id 1001
  let s ← s.finalize otherRow.id 61000
  let db ← compactBatch unaryIso (fun _ => true) s.db 3600000 5 fun _ => false
  return ⟨db, s.became⟩

theorem UsageState.finalize_step {s s' : UsageState} {id : DbText} {now : ℤ}
    (h : s.finalize id now = some s') : Step unaryIso (fun _ => true) s s' := by
  obtain ⟨⟨db, won⟩, hr, rfl⟩ := Option.map_eq_some_iff.mp h
  exact .finalize (fun _ _ => rfl) hr

theorem usage_conserved_moved : ∃ s, Relation.ReflTransGen (Step unaryIso fun _ => true) .empty s ∧
    s.became.map (·.1.id.1) = [['r'], ['q']] ∧ s.db.minute.entries.length = 0 ∧
    s.db.hour.entries.length = 1 ∧ s.db.minute.total tally + s.db.hour.total tally =
      (s.became.map fun e => contribution e.1 e.2).sum := by
  have hs : sampleRun.map (fun s => (s.became.map (·.1.id.1), s.db.minute.entries.length,
      s.db.hour.entries.length)) = some ([['r'], ['q']], 0, 1) := by decide +kernel
  obtain ⟨s, hr, hs⟩ := Option.map_eq_some_iff.mp hs
  simp only [Prod.mk.injEq] at hs
  simp only [sampleRun, Option.bind_eq_bind, Option.bind_eq_some_iff] at hr
  obtain ⟨s₁, h₁, s₂, h₂, s₃, h₃, db, h₄, hr⟩ := hr
  cases hr
  have hrun : Relation.ReflTransGen (Step unaryIso fun _ => true) .empty ⟨db, s₃.became⟩ :=
    .tail (.tail (.tail (.tail (.tail (.single (.create pendingRow rfl rfl))
      (.create otherRow rfl rfl))
      (UsageState.finalize_step h₁)) (UsageState.finalize_step h₂))
      (UsageState.finalize_step h₃)) (.compact h₄)
  exact ⟨_, hrun, hs.1, hs.2.1, hs.2.2, (usage_conserved hrun).1⟩

end ModelProxy.Usage
