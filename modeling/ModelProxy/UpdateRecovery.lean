import ModelProxy.UpdateSafety

/-! # Recovering an interrupted update

Whatever an update was stopped in, one run of the dead-man that nothing stops, on storage that
works, ends it: the record names an end and the old build is live.  Only a confirmed update is
left as it is, and one that a start of another build has misjudged.

Storage that works still leaves a choice: a hard link may not be possible, and renaming one of
two links of a file leaves both.  So the runs here are those of the same nondeterministic
operations, with the failures taken out (`working`).
-/
namespace ModelProxy.SelfUpdate
open Record

variable {B H V : Type} {α β : Type}

/-! ## Storage that works -/

/-- The operation fails only where it must. -/
def Succeeds (s : Disk B H V) : (op : Op B H V) → Reply op → Prop
  | .save _, ok => ok = true
  | .hash p, reply => (s.files p).isSome = true → Option.isSome reply = true
  | .remove _, ok => ok = true
  | .rename source _, ok => (s.files source).isSome = true → ok = true
  | .create source _, ok => (s.files source).isSome = true → ok = true
  | .fill _ _, ok => ok = true
  | .fetch _, ok => ok = true
  | _, _ => True

/-- The operations without their failures. -/
def working (sha : B → H) (s : Disk B H V) (op : Op B H V) (reply : Reply op)
    (s' : Disk B H V) : Prop :=
  step sha s op reply s' ∧ Succeeds s op reply

/-- Storage that works answers everything. -/
theorem working_answers (sha : B → H) (s : Disk B H V) (op : Op B H V) :
    ∃ reply s', working sha s op reply s' := by
  -- only a copy over a file that is there has no answer in `answer`
  by_cases hc : ∃ src dest, op = .create src dest
  · obtain ⟨src, dest, rfl⟩ := hc
    cases hs : s.files src with
    | none => exact ⟨false, s, .inr ⟨rfl, rfl⟩, fun h => by rw [hs] at h; cases h⟩
    | some b =>
      by_cases hfr : s.files dest = none
      · refine ⟨true, s.put dest (some b), .inl ⟨rfl, by rw [hs]; nofun, ?_⟩, fun _ => rfl⟩
        rw [if_pos hfr]
        exact ⟨b, rfl⟩
      · refine ⟨true, s, .inl ⟨rfl, by rw [hs]; nofun, ?_⟩, fun _ => rfl⟩
        rw [if_neg hfr]
        exact ⟨rfl, fun _ _ => rfl⟩
  · refine ⟨_, _, answer_step sha (fun _ => true) s op, ?_⟩
    cases op with
    | create src dest => exact absurd ⟨src, dest, rfl⟩ hc
    | hash p =>
      intro h
      show Option.isSome ((s.files p).map sha) = true
      rw [Option.isSome_map]
      exact h
    | rename src dest =>
      intro h
      obtain ⟨b, hb⟩ := Option.isSome_iff_exists.mp h
      show (answer sha (fun _ => true) s (.rename src dest)).1 = true
      simp only [answer, hb]
      rfl
    | save | remove | fill | fetch => exact rfl
    | load | present | link | clearRecovery | ask => exact trivial

variable {sha : B → H} {s : Disk B H V} {r : Record B H V} {post : α → Disk B H V → Prop}

/-- Every run that nothing stops, on storage that works, ends in `post`. -/
abbrev Ends (sha : B → H) (post : α → Disk B H V → Prop) (p : Prog B H V α) (s : Disk B H V) :
    Prop :=
  p.Safe (working sha) (fun _ => False) (fun _ => True) post s

section Rules

theorem ends_load {f : Option (Record B H V) → Prog B H V α} (h : Ends sha post (f s.record) s) :
    Ends sha post (load >>= f) s := by
  rintro reply t ⟨⟨rfl, rfl⟩, -⟩
  exact .inr ⟨trivial, h⟩

variable {f : Bool → Prog B H V α} {b : B} {p : Path}

theorem ends_present (h : Ends sha post (f (s.files p).isSome) s) :
    Ends sha post (present p >>= f) s := by
  rintro found t ⟨⟨rfl, rfl⟩, -⟩
  exact .inr ⟨trivial, h⟩

theorem ends_hash {f : Option H → Prog B H V α} (hp : s.files p = some b)
    (h : Ends sha post (f (some (sha b))) s) : Ends sha post (sha256File p >>= f) s := by
  rintro reply t ⟨⟨hr, rfl⟩, hok⟩
  refine .inr ⟨trivial, ?_⟩
  rcases hr with rfl | rfl
  · exact absurd (hok (by rw [hp]; rfl)) (by nofun)
  · rw [hp]
    exact h

theorem ends_save (h : Ends sha post (f true) { s with record := some r }) :
    Ends sha post (save r >>= f) s := by
  rintro ok t ⟨rfl | ⟨rfl, -⟩, hok⟩
  · obtain rfl : ok = true := hok
    exact .inr ⟨trivial, h⟩
  · cases hok

theorem ends_remove (h : Ends sha post (f true) (s.put p none)) :
    Ends sha post (remove p >>= f) s := by
  rintro ok t ⟨⟨rfl, rfl⟩ | ⟨rfl, -⟩, hok⟩
  · exact .inr ⟨trivial, h⟩
  · cases hok

theorem ends_rename {src dest : Path} (hb : s.files src = some b)
    (hmv : Ends sha post (f true) ((s.put dest (some b)).put src none))
    (hsm : s.files dest = some b → Ends sha post (f true) s) :
    Ends sha post (rename src dest >>= f) s := by
  rintro ok t ⟨⟨rfl, b', hb', rfl | ⟨hd, rfl⟩⟩ | ⟨rfl, -⟩, hok⟩
  · obtain rfl : b = b' := Option.some.inj (hb.symm.trans hb')
    exact .inr ⟨trivial, hmv⟩
  · obtain rfl : b = b' := Option.some.inj (hb.symm.trans hb')
    exact .inr ⟨trivial, hsm hd⟩
  · exact absurd (hok (by rw [hb]; rfl)) (by nofun)

/-- A link or a copy to a free name. -/
theorem ends_linkOrCopy (src dest : Path) (hne : src ≠ dest) (hb : s.files src = some b)
    (hfr : s.files dest = none) :
    Ends sha (fun ok t => ok = true ∧ t = s.put dest (some b)) (linkOrCopy src dest) s := by
  rintro ok t ⟨⟨rfl, -, b', hb', rfl⟩ | ⟨rfl, rfl⟩, -⟩
  · obtain rfl : b = b' := Option.some.inj (hb.symm.trans hb')
    exact .inr ⟨trivial, rfl, rfl⟩
  refine .inr ⟨trivial, ?_⟩
  -- no link: the copy creates the file and fills it
  rintro ok t ⟨⟨rfl, -, hc⟩ | ⟨rfl, -⟩, hok⟩
  · rw [if_pos hfr] at hc
    obtain ⟨junk, rfl⟩ := hc
    refine .inr ⟨trivial, ?_⟩
    rintro ok t ⟨⟨rfl, rfl⟩ | ⟨rfl, -⟩, hok⟩
    · refine .inr ⟨trivial, rfl, ?_⟩
      simp [hne, hb]
    · cases hok
  · exact absurd (hok (by rw [hb]; rfl)) (by nofun)

end Rules

/-! ## Putting the old build back -/

/-- The record of the disk is `r` and its old build is live. -/
def Back (r : Record B H V) (t : Disk B H V) : Prop :=
  t.record = some r ∧ t.files .live = some r.base

variable {b c : B} {now : ℕ} {boot : Option ℕ}

theorem ends_restore (hcp : s.files .prev = some b) (hlv : s.files .live = some c) :
    Ends sha (fun done t => done = some true ∧ t.record = s.record ∧ t.files .live = some b)
      restore s := by
  refine ends_present ?_
  rw [hcp]
  refine ends_remove ?_
  have hkp : Ends sha (fun _ t => t.record = s.record ∧ t.files .live = some c ∧
      t.files .prev = some b) keepFailed (s.put .failed none) := by
    refine ends_present ?_
    have ht : (s.put .failed none).files .live = some c := by simpa using hlv
    rw [ht]
    refine (ends_linkOrCopy .live .failed nofun ht (by simp)).bind ?_
    rintro ok t ⟨-, rfl⟩
    exact ⟨rfl, by simpa using hlv, by simpa using hcp⟩
  refine hkp.bind ?_
  rintro _ t ⟨hr, hl, hp⟩
  refine ends_rename hp ⟨rfl, hr, by simp⟩ ?_
  intro hsm
  exact ⟨rfl, hr, hsm⟩

theorem ends_relinkProgram (hlv : s.files .live = some b) :
    Ends sha (fun _ t => t.record = s.record ∧ t.files .live = s.files .live)
      relinkProgram s := by
  refine ends_present ?_
  cases hp : s.files .prev with
  | some c => exact ⟨rfl, rfl⟩
  | none =>
    refine (ends_linkOrCopy .live .prev nofun hlv hp).bind ?_
    rintro ok t ⟨-, rfl⟩
    exact ⟨rfl, by simp⟩

theorem ends_swapBegan {p : Bool} (hn : (s.files .new).isSome = p) (hlv : s.files .live = some c) :
    Ends sha (fun began t => began = !p ∧ t = s) swapBegan s := by
  refine ends_present ?_
  rw [hn]
  cases p with
  | false => exact ⟨rfl, rfl⟩
  | true =>
    refine ends_present ?_
    rw [hlv]
    exact ⟨rfl, rfl⟩

section Restore
variable [DecidableEq H]

variable {T : Setting B H V}

/-- Once the rollback is decided, the old build comes back, or is back already. -/
theorem ends_finishRestore (hs : T.Inv s) (hr : s.record = some r)
    (hl : r.lifecycle = .rollingBack) :
    Ends T.sha (fun res t => res = some (r, .done) ∧ Back r t)
      (finishRestore (s.files .prev).isSome r) s := by
  have hhd := hs.held hr
  rcases hhd.of_rollingBack hl with ⟨hcp, -⟩ | ⟨hgo, hlv⟩
  · obtain ⟨c, hlv⟩ := hhd.exists_live
    rw [hcp]
    refine (ends_restore hcp hlv).bind ?_
    rintro done t ⟨rfl, hc, hbk⟩
    exact ⟨rfl, hc.trans hr, hbk⟩
  · -- the copy is gone and the live binary is not the new build: an earlier restore ran
    rw [hgo]
    show Ends T.sha _ (restoreCompleted r >>= _) s
    unfold restoreCompleted
    rw [hhd.hash]
    refine ends_hash hlv ?_
    simp only [Program.bind, pure, decide_eq_true hhd.differ]
    exact ⟨rfl, hr, hlv⟩

/-- An undisturbed restore ends over the old build. -/
theorem ends_restoreDurably (hs : T.Inv s) (hhd : T.Held s r)
    (hl : r.lifecycle = .swapped ∨ r.lifecycle = .rollingBack ∧ s.record = some r) :
    Ends T.sha (fun res t => res = some ({ r with lifecycle := .rollingBack }, .done) ∧
      Back { r with lifecycle := .rollingBack } t) (restoreDurably r) s := by
  refine ends_present ?_
  rcases hl with hl | ⟨hl, hr⟩
  · rw [if_neg (by rw [hl]; nofun)]
    have hcp := (hhd.of_swapped hl).1
    rw [hcp, Setting.beginRollback_of_swapped hl]
    refine ends_save ?_
    have hf := ends_finishRestore (hhd.asRollingBack hl).written rfl rfl
    rw [show ({ s with record := some { r with lifecycle := .rollingBack } } :
      Disk B H V).files .prev = some r.base from hcp] at hf
    exact hf
  · rw [if_pos hl]
    have hsm : { r with lifecycle := Lifecycle.rollingBack } = r := by rw [← hl]
    rw [hsm]
    exact ends_finishRestore hs hr hl

/-- The record as the dead-man's rollback ends it. -/
def Record.rolled (r : Record B H V) : Record B H V :=
  { r with lifecycle := .rolledBack true false }

theorem ends_rollBackNow (hs : T.Inv s) (hhd : T.Held s r)
    (hl : r.lifecycle = .swapped ∨ r.lifecycle = .rollingBack ∧ s.record = some r) :
    Ends T.sha (fun _ t => Back r.rolled t) (rollBackNow r) s := by
  refine (ends_restoreDurably hs hhd hl).bind ?_
  rintro res t ⟨rfl, -, hlv⟩
  refine ends_save ?_
  show Ends T.sha _ (if r.recovery then _ else _) _
  refine .ite (fun _ => ⟨rfl, hlv⟩) fun _ => ?_
  have hr : Ends T.sha (fun _ u => u.record = some r.rolled ∧ u.files .live = t.files .live)
      relinkProgram ({ t with record := some r.rolled } : Disk B H V) :=
    ends_relinkProgram hlv
  exact hr.bind fun _ u hu => ⟨hu.1, hu.2.trans hlv⟩

/-! ## The dead-man's run -/

/-- How the run of an update in progress leaves it: ended, with its old build live. -/
def EndedBack (r : Record B H V) (t : Disk B H V) : Prop :=
  ∃ r', Back r' t ∧ r'.updateId = r.updateId ∧ r'.base = r.base ∧ r'.inProgress = false

/-- An update that stopped before its swap. -/
theorem ends_deadman_armed (hs : T.Inv s) (hr : s.record = some r) (hl : r.lifecycle = .armed) :
    Ends T.sha (fun _ t => EndedBack r t) (do
      if ← swapBegan then
        match r.swap with
        | some swapped => rollBackNow swapped
        | none => return .error
      else
        match r.fail with
        | some ended =>
          if ← save ended then
            let _ ← remove .new
            return .neverSwapped
          else return .error
        | none => return .error) s := by
  have hhd := hs.held hr
  obtain ⟨c, hlv⟩ := hhd.exists_live
  refine (ends_swapBegan rfl hlv).bind ?_
  rintro began t ⟨rfl, rfl⟩
  cases hn : t.files .new with
  | some b =>
    -- the staged build is still there, so the old one is live
    have hbs := hhd.live_of_new hl (by rw [hn]; rfl)
    rw [Setting.fail_of_open (.inl hl)]
    refine ends_save (ends_remove ⟨{ r with lifecycle := .failed false }, ⟨rfl, ?_⟩, rfl, rfl, rfl⟩)
    simpa using hbs
  | none =>
    rw [Setting.swap_of_armed hl]
    refine (ends_rollBackNow hs (hhd.asSwapped hl) (.inl rfl)).weaken ?_
    intro _ u hu
    exact ⟨_, hu, rfl, rfl, rfl⟩

/-- **The dead-man ends an update in progress that is due, or whose rollback was decided.** -/
theorem ends_deadman (hs : T.Inv s) (hr : s.record = some r) (hop : r.inProgress = true)
    (hd : r.lifecycle = .rollingBack ∨ r.due boot ≤ now + 1) :
    Ends T.sha (fun _ t => EndedBack r t) (rollbackIfUnconfirmed r.updateId now boot) s := by
  refine ends_load ?_
  rw [hr]
  show Ends T.sha _ (if r.updateId ≠ r.updateId then _ else _) s
  rw [if_neg (by simp), hop]
  show Ends T.sha _ (if (!true) = true then _ else _) s
  rw [if_neg nofun, if_neg (by rintro ⟨hne, hlt⟩; rcases hd with h | h <;> [exact hne h; omega])]
  refine .ite (fun hl => ends_deadman_armed hs hr hl) fun hne => ?_
  have hl : r.lifecycle = .swapped ∨ r.lifecycle = .rollingBack ∧ s.record = some r := by
    rcases Setting.inProgress_cases hop with hl | hl | hl
    · exact absurd hl hne
    · exact .inl hl
    · exact .inr ⟨hl, hr⟩
  refine (ends_rollBackNow hs (hs.held hr) hl).weaken ?_
  intro _ u hu
  exact ⟨_, hu, rfl, rfl, rfl⟩

/-- The run has nothing to do: another update, an ended one, or one that is not due. -/
def Untouched (s : Disk B H V) (id : String) (now : ℕ) (bootedAt : Option ℕ) : Prop :=
  ∀ r, s.record = some r → r.updateId = id → r.inProgress = true →
    r.lifecycle ≠ .rollingBack ∧ now + 1 < r.due bootedAt

/-- A run with nothing to do changes nothing, wherever it stops. -/
theorem deadman_untouched {id : String} (h : Untouched s id now boot) :
    (rollbackIfUnconfirmed id now boot).Safe (step sha) (fun _ => False)
      (fun e => e.after = s) (fun _ t => t = s) s := by
  rintro reply t ⟨rfl, rfl⟩
  refine .inr ⟨rfl, ?_⟩
  cases hr : t.record with
  | none => exact rfl
  | some r =>
    refine .ite (fun _ => rfl) fun hid => ?_
    refine .ite (fun _ => rfl) fun hop => ?_
    have hl := h r hr (not_not.mp hid) (by simpa using hop)
    rw [if_pos hl]
    exact rfl

end Restore

/-! ## Recovery -/

/-- Failed is recorded over the new build. -/
def Disk.Misjudged (s : Disk B H V) : Prop :=
  ∃ r reported, s.record = some r ∧ r.lifecycle = .failed reported ∧
    s.files .live = some r.target

/-- A run after the end changes nothing. -/
theorem untouched_of_ended (hr : s.record = some r) (hed : r.inProgress = false)
    (id : String) (now : ℕ) (boot : Option ℕ) : Untouched s id now boot := by
  intro r' hr' _ hop
  rw [hr] at hr'
  cases hr'
  rw [hed] at hop
  cases hop

section Recovery
variable [DecidableEq H] {t u : Disk B H V} {id : String} {now : ℕ} {boot : Option ℕ}

/-- The dead-man of the update `id` runs from `s` to `t`: nothing stops it and the storage
works. -/
def DeadmanRuns (sha : B → H) (id : String) (now : ℕ) (bootedAt : Option ℕ) (s t : Disk B H V) :
    Prop :=
  ∃ outcome, (rollbackIfUnconfirmed id now bootedAt).Finishes (working sha) s outcome t

theorem deadmanRuns_exists (sha : B → H) (id : String) (now : ℕ) (boot : Option ℕ)
    (s : Disk B H V) : ∃ t, DeadmanRuns sha id now boot s t := by
  obtain ⟨outcome, t, hr⟩ := Program.exists_finishes (working_answers sha)
    (rollbackIfUnconfirmed id now boot) s
  exact ⟨t, outcome, hr⟩

theorem DeadmanRuns.eq_of_untouched (hr : DeadmanRuns sha id now boot s t)
    (h : Untouched s id now boot) : t = s := by
  obtain ⟨outcome, hr⟩ := hr
  have hwo : ∀ (s : Disk B H V) op reply s', working sha s op reply s' →
      step sha s op reply s' := fun _ _ _ _ hw => hw.1
  exact ((deadman_untouched h).restrict hwo).finishes hr fun _ => not_false

/-- What a run of the dead-man from `t` to `u` makes of the update `r`: one that was confirmed
is left alone; any other has ended, with its old build live; and there is nothing left to do. -/
structure Recovered (sha : B → H) (r : Record B H V) (t u : Disk B H V) : Prop where
  kept : r.IsConfirmed → u = t
  ended : ¬ r.IsConfirmed → ∃ r', u.record = some r' ∧ r'.updateId = r.updateId ∧
    r'.base = r.base ∧ r'.inProgress = false
  back : ¬ r.IsConfirmed → u.files .live = some r.base
  settled : ∀ now bootedAt u', DeadmanRuns sha r.updateId now bootedAt u u' → u' = u

/-- **A run that is due recovers the update exactly when it was not misjudged.** -/
theorem recovered_iff {T : Setting B H V} (hs : T.Inv t) (hr : t.record = some r)
    (hd : r.due boot ≤ now + 1)
    (hn : DeadmanRuns T.sha r.updateId now boot t u) :
    Recovered T.sha r t u ↔ ¬ t.Misjudged := by
  cases hop : r.inProgress with
  | true =>
    have hbk : EndedBack r u := by
      obtain ⟨outcome, hn⟩ := hn
      exact (ends_deadman hs hr hop (.inr hd)).finishes hn fun _ => not_false
    obtain ⟨r', ⟨hu, hlv⟩, hid, hbs, hed⟩ := hbk
    have hso : ¬ t.Misjudged := by
      rintro ⟨r₁, reported, hr₁, hl, -⟩
      rw [hr] at hr₁
      cases hr₁
      unfold inProgress at hop
      rw [hl] at hop
      cases hop
    refine iff_of_true ⟨?_, ?_, ?_, ?_⟩ hso
    · rintro ⟨reported, hl⟩
      unfold inProgress at hop
      rw [hl] at hop
      cases hop
    · exact fun _ => ⟨r', hu, hid, hbs, hed⟩
    · exact fun _ => hlv.trans (by rw [hbs])
    · intro now' bootedAt' u' ha
      exact ha.eq_of_untouched (untouched_of_ended hu hed _ _ _)
  | false =>
    -- the update ended before: the run leaves everything as it is
    obtain rfl : u = t := hn.eq_of_untouched (untouched_of_ended hr hop _ _ _)
    have hhd := hs.held hr
    have hpl := hhd.placed
    unfold Placed at hpl
    have ha : ∀ now boot u', DeadmanRuns T.sha r.updateId now boot u u' → u' = u :=
      fun _ _ _ hr' => hr'.eq_of_untouched (untouched_of_ended hr hop _ _ _)
    constructor
    · rintro hre ⟨r₁, reported, hr₁, hl, hlv⟩
      rw [hr] at hr₁
      cases hr₁
      have hbs := hre.back (by rintro ⟨rep', hc⟩; rw [hl] at hc; cases hc)
      have hsm : r.base = r.target := Option.some.inj (hbs.symm.trans hlv)
      exact hhd.differ (by rw [hsm])
    · intro hso
      refine ⟨fun _ => rfl, fun _ => ⟨r, hr, rfl, rfl, hop⟩, fun hc => ?_, ha⟩
      unfold inProgress at hop
      cases hl : r.lifecycle with
      | armed | swapped | rollingBack =>
        rw [hl] at hop
        cases hop
      | confirmed reported => exact absurd ⟨reported, hl⟩ hc
      | rolledBack pending reported =>
        rw [hl] at hpl
        exact hpl
      | failed reported =>
        rw [hl] at hpl
        refine hpl.resolve_right ?_
        rintro ⟨-, ht⟩
        exact hso ⟨r, reported, hr, hl, ht⟩

end Recovery

section Recovers
variable [DecidableEq H] [DecidableEq V] {version : B → V} {first : B} {t : Disk B H V}
variable {h : List (Call B V × List (Event (Disk B H V) (Op B H V)))}

/-- **An interrupted update recovers, but for a misjudged end.**  From every disk that a history
of calls, each stopped anywhere, can leave: a run of the dead-man that is due recovers the
update exactly when it was not recorded as failed over its new build, which only a start of
another build than the new one does; a run before that time, with no rollback decided, changes
nothing, wherever it stops; and neither does the run for an update that is not on record. -/
theorem interrupted_update_recovers_iff (hs : s.record = none)
    (hfirst : s.files .live = some first) (hh : Lifetime sha version s h t) (id : String)
    (now : ℕ) (bootedAt : Option ℕ) :
    (∃ u, DeadmanRuns sha id now bootedAt t u) ∧
    (∀ r, t.record = some r → r.updateId = id → r.due bootedAt ≤ now + 1 →
      ∀ u, DeadmanRuns sha id now bootedAt t u → (Recovered sha r t u ↔ ¬ t.Misjudged)) ∧
    ((∀ c ∈ h, ∀ e ∈ c.2, ¬ c.1.Misjudges e) → ¬ t.Misjudged) ∧
    (Untouched t id now bootedAt → ∀ events u,
      (rollbackIfUnconfirmed id now bootedAt).Runs (step sha) t events u → u = t) := by
  have hw := Lifetime.good hh hs hfirst False.elim
  refine ⟨deadmanRuns_exists sha id now bootedAt t, ?_, ?_, ?_⟩
  · rintro r hr rfl hd u hn
    exact recovered_iff hw.1 hr hd hn
  · rintro hno ⟨r, reported, hr, hl, hv⟩
    have ht := Lifetime.good hh hs hfirst fun _ : True => hno
    have hb := ht.1.live_of_endedOld trivial hr (.inl ⟨reported, hl⟩)
    have hm : r.base = r.target := Option.some.inj (hb.symm.trans hv)
    exact (ht.1.held hr).differ (by rw [hm])
  · intro hu events u hn
    have hm : t = u ∧ _ := (deadman_untouched hu).runs hn rfl
      (fun _ he => he.symm) fun _ _ => not_false
    exact hm.1.symm

end Recovers

/-- The update of `false` to `true`, installed and not confirmed. -/
def installed : Disk Bool Bool Bool := (worked (.install upgrade false) fresh).2

/-- The installed update is rolled back by any run of the dead-man after its ten minutes. -/
theorem installed_recovers : ∃ r, installed.record = some r ∧ r.lifecycle = .swapped ∧
    installed.files .live = some true ∧
    (∃ u, DeadmanRuns id "u1" 600 none installed u) ∧
    ∀ u, DeadmanRuns id "u1" 600 none installed u →
      Recovered id r installed u ∧ u.files .live = some false := by
  have hf : Lifetime id id fresh
      [(.install upgrade false, (worked (.install upgrade false) fresh).1)] installed :=
    .cons upgrade_allowed (Program.play_runs (answer_step id calm) _ _) (.nil _)
  obtain ⟨hn, hi, -⟩ := interrupted_update_recovers_iff rfl rfl hf "u1" 600 none
  refine ⟨_, rfl, rfl, rfl, hn, fun u hru => ?_⟩
  have hc := (hi _ rfl rfl (by decide) u hru).mpr (by
    rintro ⟨r, reported, hr, hl, -⟩
    cases hr
    cases hl)
  refine ⟨hc, hc.back ?_⟩
  rintro ⟨reported, hl⟩
  cases hl

/-- A relay of the old build recorded the installed update as failed: the dead-man, whenever it
runs, leaves the new build live. -/
theorem old_start_not_recovered :
    ∃ h t r, Lifetime id id fresh h t ∧ t.record = some r ∧ r.updateId = "u1" ∧
      ¬ r.IsConfirmed ∧ r.due none ≤ 1000 ∧
      ∀ u, DeadmanRuns id "u1" 1000 none t u → u.files .live ≠ some r.base := by
  refine ⟨_, _, _, worked_lifetime upgrade_allowed (.start ⟨false, true⟩ true 3 100) trivial,
    rfl, rfl, ?_, by decide, ?_⟩
  · rintro ⟨reported, hl⟩
    cases hl
  · intro u hr
    rw [hr.eq_of_untouched (untouched_of_ended rfl rfl _ _ _)]
    decide

end ModelProxy.SelfUpdate
