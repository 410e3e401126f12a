import ModelProxy.UpdateInstall

/-! # A self-update never strands the machine

Every call under the update lock keeps the record and the files together, wherever it stops
(`sound_install`, `sound_deadman`, `sound_confirm`, `sound_onStart`, ...).  One operation is
excused: a starting relay that is not the new build records the update as failed while the new
build is live (`Misjudges`).  It was started before the swap and gets the lock after it
(`Call.Late`).

So along every history the live binary is one of the two builds of the recorded update, and
`confirmed` is recorded over the new build, which then stays; and the ends that name the old
build are recorded over the old build where no start is late.
-/
namespace ModelProxy.SelfUpdate
open Record

variable {B H V : Type} {next r old : Record B H V} {running : Running B} {sha : B → H}

namespace Setting
variable {T : Setting B H V} {excused : Event (Disk B H V) (Op B H V) → Prop}
  {s t : Disk B H V}

/-! ## Rolling back -/

/-- A decided rollback that is done ends over the old build. -/
theorem Restores.finished {r' : Record B H V}
    (h : Restores T { r with lifecycle := .rollingBack } (some (r', .done)) s) (pending : Bool) :
    T.Inv s ∧ s.record = some r' ∧ ¬ r'.IsConfirmed ∧
      r'.finishRollback pending = some { r' with lifecycle := .rolledBack pending false } ∧
      T.Inv { s with record := some { r' with lifecycle := .rolledBack pending false } } := by
  obtain ⟨rfl, hi, hr, hlv⟩ := h
  exact ⟨hi, hr, not_confirmed rfl nofun, rfl, ((hi.held hr).rolledBack hlv pending false).written⟩

theorem sound_relinkProgram (hs : T.Inv s) (hid : s.Idle) :
    T.Sound excused (fun _ _ => True) relinkProgram s := by
  refine sound_present hs ?_
  cases hpv : s.files .prev with
  | some b => trivial
  | none =>
    have hcp : T.Sound excused _ (linkOrCopy .live .prev) s :=
      sound_linkOrCopy nofun hpv fun _ => hs.put_idle hid nofun
    exact .bind hcp fun _ _ _ => trivial

section Rollback
variable [DecidableEq H]

theorem sound_rollBackNow (hs : T.Inv s) (hold : s.record = some old)
    (hop : ¬ old.IsConfirmed) (hhd : T.Held s r)
    (hl : r.lifecycle = .swapped ∨ r.lifecycle = .rollingBack ∧ r = old) :
    T.Sound excused (fun _ _ => True) (rollBackNow r) s := by
  refine (sound_restoreDurably hs hold hop hhd hl).bind ?_
  rintro (_ | ⟨r', _ | _⟩) t ht
  · trivial
  · obtain ⟨hi, hr, hop', hmv, he⟩ := ht.finished true
    simp only [hmv]
    refine sound_save hi he (stays_of_open hr hop') (fun ok => ?_) trivial
    cases ok with
    | false => trivial
    | true =>
      rw [if_pos rfl]
      refine .ite (fun _ => trivial) fun _ => ?_
      exact .bind (sound_relinkProgram he (idle_of_record rfl rfl)) fun _ _ _ => trivial
  · exact ht.elim

/-- **A dead-man's run keeps the record and the files together.** -/
theorem sound_deadman (hs : T.Inv s) (id : String) (now : ℕ) (bootedAt : Option ℕ) :
    T.Sound excused (fun _ _ => True) (rollbackIfUnconfirmed id now bootedAt) s := by
  refine sound_load hs ?_
  cases hr : s.record with
  | none => trivial
  | some r =>
    have hhd := hs.held hr
    refine .ite (fun _ => trivial) fun _ => ?_
    refine .ite (fun _ => trivial) fun hop => ?_
    refine .ite (fun _ => trivial) fun _ => ?_
    refine .ite (fun hl => ?_) fun hl => ?_
    · refine (sound_swapBegan hs).bind ?_
      rintro began t ⟨rfl, hn⟩
      cases began with
      | true =>
        simp only [reduceIte, swap_of_armed hl]
        exact sound_rollBackNow hs hr (not_confirmed hl nofun) (hhd.asSwapped hl) (.inl rfl)
      | false =>
        simp only [Bool.false_eq_true, reduceIte, fail_of_open (.inl hl)]
        have he := (hhd.failed (hhd.live_of_new hl (hn rfl)) false).written
        refine sound_save hs he (stays_of_open hr (not_confirmed hl nofun)) (fun ok => ?_) trivial
        cases ok with
        | false => trivial
        | true =>
          exact sound_remove he (he.put_idle (idle_of_record rfl rfl) nofun) trivial trivial
    · -- swapped, or a rollback that was decided before
      have hp := (inProgress_cases (by simpa using hop)).resolve_left hl
      rcases hp with hp | hp
      · exact sound_rollBackNow hs hr (not_confirmed hp nofun) hhd (.inl hp)
      · exact sound_rollBackNow hs hr (not_confirmed hp nofun) hhd (.inr ⟨hp, rfl⟩)

end Rollback

/-! ## Marks on an ended update -/

/-- The ends of an update that differ only in their marks. -/
def SameEnd : Lifecycle → Lifecycle → Prop
  | .confirmed _, .confirmed _ | .rolledBack _ _, .rolledBack _ _ | .failed _, .failed _ => True
  | _, _ => False

theorem restartDone_spec (h : r.restartDone = some next) :
    ∃ l, SameEnd r.lifecycle l ∧ next = { r with lifecycle := l } := by
  unfold Record.restartDone at h
  split at h
  · rename_i reported hl
    unfold moveTo at h
    split at h
    · cases h
      exact ⟨_, by rw [hl]; trivial, rfl⟩
    · cases h
  · cases h

theorem markReported_spec (h : r.markReported = some next) :
    ∃ l, SameEnd r.lifecycle l ∧ next = { r with lifecycle := l } := by
  unfold markReported moveTo at h
  split at h
  · split at h
    all_goals
      first
      | cases h
      | rename_i hl
        split at h
        · cases h
          exact ⟨_, by rw [hl]; trivial, rfl⟩
        · cases h
  · cases h

/-- A mark on an ended record may be written at any time. -/
theorem sound_mark {marked : Option (Record B H V)} (hs : T.Inv s) (hr : s.record = some r)
    (hm : ∀ {next}, marked = some next →
      ∃ l, SameEnd r.lifecycle l ∧ next = { r with lifecycle := l }) :
    T.Sound excused (fun _ _ => True)
      (match marked with
        | some next => do
          let _ ← save next
          return ()
        | none => return ()) s := by
  cases marked with
  | none => trivial
  | some next =>
  obtain ⟨l, hl, rfl⟩ := hm rfl
  have hhd := hs.held hr
  have hpl := hhd.placed
  have hma : T.Held s { r with lifecycle := l } := by
    refine ⟨hhd.differ, hhd.hash, hhd.named, ?_⟩
    unfold Placed at hpl ⊢
    unfold SameEnd at hl
    split at hl
    all_goals simp_all
  refine sound_save hs hma.written (fun o ho hc _ => ?_) (fun _ => trivial) trivial
  rw [hr] at ho
  cases ho
  obtain ⟨rep, hc⟩ := hc
  unfold SameEnd at hl
  split at hl
  · exact ⟨_, rfl⟩
  all_goals simp_all

theorem sound_restartDone (hs : T.Inv s) (id : String) :
    T.Sound excused (fun _ _ => True) (restartDone id) s := by
  refine sound_load hs ?_
  cases hr : s.record with
  | none => trivial
  | some r => exact .ite (fun _ => sound_mark hs hr restartDone_spec) fun _ => trivial

theorem sound_acked (hs : T.Inv s) (id : String) :
    T.Sound excused (fun _ _ => True) (acked id) s := by
  refine sound_load hs ?_
  cases hr : s.record with
  | none => trivial
  | some r => exact .ite (fun _ => sound_mark hs hr markReported_spec) fun _ => trivial

theorem sound_jobRemoved (hs : T.Inv s) (id : String) :
    T.Sound excused (fun _ _ => True) (jobRemoved id) s := by
  refine sound_load hs ?_
  cases hr : s.record with
  | none => trivial
  | some r =>
    refine .ite (fun _ => trivial) fun _ => ?_
    refine .ite (fun _ => ?_) fun _ => ?_
    · exact sound_remove hs (hs.put_other nofun nofun nofun) trivial trivial
    · cases hl : r.lifecycle with
      | rolledBack pending rep =>
        have hid : s.Idle := idle_of_record hr (by unfold inProgress; rw [hl]; rfl)
        exact sound_remove hs (hs.put_idle hid nofun) trivial trivial
      | _ => trivial

/-! ## Confirming -/

section
variable [DecidableEq H]

/-- The hash of the live binary certifies the new build. -/
theorem sound_certify (hs : T.Inv s) (hold : s.record = some old) (hop : ¬ old.IsConfirmed)
    (hhd : T.Held s r) (hl : r.lifecycle = .swapped) (svc : Bool) :
    T.Sound excused (fun _ _ => True) (certify r svc) s := by
  have hmv : r.confirm = some { r with lifecycle := .confirmed false } := by
    unfold Record.confirm moveTo
    rw [hl]
    rfl
  unfold certify
  rw [hhd.hash, hmv]
  refine sound_hash hs trivial ?_
  rcases hhd.live with hlv | hlv
  · -- the rollback restored the old build: nothing is certified
    rw [hlv]
    show T.Sound excused _ (if decide (some (T.sha r.base) = some (T.sha r.target)) = true then
      _ else _) s
    rw [if_neg (by simpa using hhd.differ)]
    trivial
  · rw [hlv]
    show T.Sound excused _ (if decide (some (T.sha r.target) = some (T.sha r.target)) = true then
      _ else _) s
    rw [if_pos (by simp)]
    have hdn := (hhd.confirmed hlv false).written
    refine sound_save hs hdn (stays_of_open hold hop) (fun ok => ?_) trivial
    cases ok with
    | false => trivial
    | true => exact (sound_sweepRecovery hdn svc).weaken fun _ _ _ => trivial

/-- **A confirmation keeps the record and the files together.** -/
theorem sound_confirm (hs : T.Inv s) (id : String) (svc : Bool) :
    T.Sound excused (fun _ _ => True) (confirm id svc) s := by
  refine sound_load hs ?_
  cases hr : s.record with
  | none => trivial
  | some r =>
    have hhd := hs.held hr
    refine .ite (fun _ => trivial) fun _ => ?_
    cases hl : r.lifecycle with
    | armed =>
      simp only [swap_of_armed hl]
      exact sound_certify hs hr (not_confirmed hl nofun) (hhd.asSwapped hl) rfl svc
    | swapped => exact sound_certify hs hr (not_confirmed hl nofun) hhd hl svc
    | _ => trivial

end

/-! ## Starting -/

/-- The start of another build than the new one while the new build is live: the update is
swapped, or armed with the swap begun. -/
def Late (running : Running B) (s : Disk B H V) : Prop :=
  ∃ r, s.record = some r ∧ running.build ≠ r.target ∧ s.files .live = some r.target ∧
    (r.lifecycle = .swapped ∨ r.lifecycle = .armed ∧ s.files .new = none)

/-- A build other than the new one records the update as failed while the new build is live. -/
def Misjudges (running : Running B) (e : Event (Disk B H V) (Op B H V)) : Prop :=
  ∃ r, e.op = .save r ∧ e.after.record = some r ∧ r.lifecycle = .failed false ∧
    e.before.files .live = some r.target ∧ running.build ≠ r.target

theorem Held.alike (h : T.Held s r) (ht : Alike s t) : T.Held t r := by
  refine ⟨h.differ, h.hash, h.named, ?_⟩
  have hpl := h.placed
  unfold Placed at hpl ⊢
  rw [ht.live, ht.new, ht.prev]
  exact hpl

theorem sound_deadmanLost (hs : T.Inv s) (r : Record B H V) (now : ℕ) :
    T.Sound excused (fun _ t => t = s) (deadmanLost r now) s := by
  refine sound_ask hs fun gone => ?_
  refine .ite (fun _ => rfl) fun _ => ?_
  refine .ite (fun _ => ?_) fun _ => rfl
  exact sound_ask hs fun _ => rfl

/-- **The end that misjudges.**  An update recorded as failed by another build than the new one
ends over the old build, or the run is excused. -/
theorem sound_failed (hs : T.Inv s) (hr : s.record = some r)
    (hl : r.lifecycle = .armed ∨ r.lifecycle = .swapped) (ho : running.build ≠ r.target)
    (hex : T.honest → s.files .live = some r.target → ∀ e, Misjudges running e → excused e)
    (svc : Bool) :
    T.Sound excused (fun _ _ => True) (recordEnd r.fail svc) s := by
  have hhd := hs.held hr
  have hop : ¬ r.IsConfirmed := by
    rcases hl with h | h
    · exact not_confirmed h nofun
    · exact not_confirmed h nofun
  rw [fail_of_open hl]
  rcases hhd.live with hlv | hlv
  · exact sound_recordEnd hs hr hop (hhd.failed hlv false).written svc
  by_cases hh : T.honest
  · rintro ok t (rfl | ⟨rfl, rfl⟩)
    · exact .inl (hex hh hlv _ ⟨_, rfl, rfl, rfl, hlv, ho⟩)
    · exact .inr ⟨Good.sameRecord hs rfl, trivial⟩
  · have hf : T.Held s { r with lifecycle := .failed false } :=
      ⟨hhd.differ, hhd.hash, hhd.named, .inr ⟨hh, hlv⟩⟩
    exact sound_recordEnd hs hr hop hf.written svc

/-- A start of another build keeps the invariant. -/
theorem sound_startOther (hs : T.Inv s) (hr : s.record = some r)
    (hl : r.lifecycle = .armed ∨ r.lifecycle = .swapped) (ho : running.build ≠ r.target)
    (hex : T.honest → Late running s → ∀ e, Misjudges running e → excused e) (svc : Bool) :
    T.Sound excused (fun _ _ => True) (startOther r svc) s := by
  have hhd := hs.held hr
  have hla (hlv : s.files .live = some r.target) : Late running s := by
    refine ⟨r, hr, ho, hlv, hl.symm.imp_right fun ha => ⟨ha, ?_⟩⟩
    rcases (hhd.of_armed ha).2 with ⟨hlv', -⟩ | ⟨-, hn⟩
    · rw [hlv] at hlv'
      exact absurd (congrArg T.sha (Option.some.inj hlv')).symm hhd.differ
    · exact hn
  have hfa : T.Sound excused (fun _ _ => True) (recordEnd r.fail svc) s :=
    sound_failed hs hr hl ho (fun hh hlv => hex hh (hla hlv)) svc
  refine .ite (fun ha => ?_) fun _ => hfa
  refine (sound_swapBegan hs).bind ?_
  rintro began t ⟨rfl, hn⟩
  cases began with
  | true => exact hfa
  | false =>
    -- the swap did not happen: `wsmp.new` goes, and the old build stays live
    have hlv := hhd.live_of_new ha (hn rfl)
    have hgo : T.Inv (t.put .new none) := by
      refine inv_of_held hr ⟨hhd.differ, hhd.hash, hhd.named, ?_⟩
      unfold Placed
      rw [ha]
      exact ⟨by simpa using (hhd.of_armed ha).1, .inl ⟨by simpa using hlv, .inl (by simp)⟩⟩
    have hex' (hh : T.honest) (hlv : (t.put .new none).files .live = some r.target) :=
      hex hh (hla (by simpa using hlv))
    exact sound_remove hs hgo (sound_failed hgo hr hl ho hex' svc) hfa

section Start
variable [DecidableEq H]

theorem sound_ensureRecovery (hs : T.Inv s) (r : Record B H V) :
    T.Sound excused (fun _ t => Alike s t) (ensureRecovery r) s := by
  have hp : T.Sound excused (fun _ t => Alike s t) (prepareRecovery r.updateId) s :=
    sound_prepareRecovery hs r.updateId
  unfold ensureRecovery
  cases r.recovery with
  | false => exact hp
  | true =>
    refine (sound_verifyRecovery hs r.updateId).bind fun verified t ht => ?_
    subst ht
    exact .ite (fun _ => Alike.refl t) fun _ => hp

/-- Arming again writes no more than the dead-man's program and time into the record. -/
theorem sound_rearm (hs : T.Inv s) (hhd : T.Held s r) :
    T.Sound excused (fun r' t => Alike s t ∧ T.Held t r' ∧ r'.lifecycle = r.lifecycle)
      (rearm r) s := by
  refine (sound_ensureRecovery hs r).bind fun ok t ht => ?_
  obtain ⟨hd, hhs, hn, hpl⟩ := hhd.alike ht
  refine .ite (fun _ => ?_) fun _ => ⟨ht, ⟨hd, hhs, hn, hpl⟩, rfl⟩
  refine sound_ask (ht.inv hs) fun armed => ?_
  refine .ite (fun _ => ?_) fun _ => ?_
  · exact ⟨ht, ⟨hd, hhs, hn, hpl⟩, rfl⟩
  · exact ⟨ht, ⟨hd, hhs, hn, hpl⟩, rfl⟩

/-- Waiting for the confirmation keeps the invariant. -/
theorem sound_awaitConfirm (hs : T.Inv s) (hold : s.record = some old)
    (hop : ¬ old.IsConfirmed) (hhd : T.Held s r) (svc : Bool) (starts now : ℕ) :
    T.Sound excused (fun _ _ => True) (awaitConfirm r svc starts now) s := by
  have hd : T.Held s { r with deadline := max r.deadline (now + r.rollbackAfterSecs) } :=
    ⟨hhd.differ, hhd.hash, hhd.named, hhd.placed⟩
  have hsv : ∀ (r' : Record B H V) (t : Disk B H V), Alike s t → T.Held t r' →
      T.Sound excused (fun _ _ => True) (do let _ ← save r' return ()) t := by
    intro r' t ht hr'
    exact sound_save (ht.inv hs) hr'.written (stays_of_open (ht.record.trans hold) hop)
      (fun _ => trivial) trivial
  have hgo : ∀ lost : Bool, T.Sound excused (fun _ _ => True) (do
      let rearmed ← if lost then
          rearm { r with deadline := max r.deadline (now + r.rollbackAfterSecs) }
        else pure { r with deadline := max r.deadline (now + r.rollbackAfterSecs) }
      let _ ← save rearmed
      return ()) s := by
    intro lost
    cases lost with
    | false => exact hsv _ s (Alike.refl s) hd
    | true =>
      refine (sound_rearm hs hd).bind ?_
      rintro r' t ⟨ht, hr', -⟩
      exact hsv r' t ht hr'
  refine .ite (fun _ => ?_) fun _ => hgo false
  refine .bind (sound_deadmanLost hs _ now) fun lost t ht => ?_
  subst ht
  exact hgo lost

theorem sound_startNew (hs : T.Inv s) (hold : s.record = some old)
    (hop : ¬ old.IsConfirmed) (hhd : T.Held s r) (hl : r.lifecycle = .swapped)
    (svc : Bool) (starts now : ℕ) :
    T.Sound excused (fun _ _ => True) (startNew r svc starts now) s := by
  have hc : T.Held s { r with attempts := r.attempts + 1 } :=
    ⟨hhd.differ, hhd.hash, hhd.named, hhd.placed⟩
  refine .ite (fun _ => ?_) fun _ => ?_
  · refine (sound_restoreDurably hs hold hop hc (.inl hl)).bind ?_
    rintro (_ | ⟨r', _ | _⟩) t ht
    · trivial
    · obtain ⟨hi, hr, hop', hmv, he⟩ := ht.finished false
      show T.Sound excused _ (recordEnd (r'.finishRollback false) svc) t
      rw [hmv]
      exact sound_recordEnd hi hr hop' he svc
    · exact ht.elim
  · exact sound_awaitConfirm hs hold hop hc svc starts now

section
variable [DecidableEq V]

/-- The new build knows itself, by its hash or by its version. -/
theorem isNew_target (hhd : T.Held s r) (h : running.build = r.target) :
    running.isNew T.sha T.version r = true := by
  unfold Running.isNew isNewBuild
  rw [hhd.hash, hhd.named, h]
  cases running.readable <;> simp

theorem sound_startUndecided (hs : T.Inv s) (hr : s.record = some r)
    (hl : r.lifecycle = .armed ∨ r.lifecycle = .swapped)
    (hex : T.honest → Late running s → ∀ e, Misjudges running e → excused e) (svc : Bool)
    (starts now : ℕ) :
    T.Sound excused (fun _ _ => True)
      (startUndecided T.sha T.version running r svc starts now) s := by
  have hhd := hs.held hr
  refine .ite (fun _ => ?_) fun ho => ?_
  · refine .ite (fun ha => ?_) fun ha => ?_
    · rw [swap_of_armed ha]
      exact sound_startNew hs hr (not_confirmed ha nofun) (hhd.asSwapped ha) rfl
        svc starts now
    · have hw := hl.resolve_left ha
      exact sound_startNew hs hr (not_confirmed hw nofun) hhd hw svc starts now
  · exact sound_startOther hs hr hl (fun h => ho (isNew_target hhd h)) hex svc

/-- **A start keeps the record and the files together**, up to a misjudged end. -/
theorem sound_onStart (hs : T.Inv s)
    (hex : T.honest → Late running s → ∀ e, Misjudges running e → excused e) (svc : Bool)
    (starts now : ℕ) :
    T.Sound excused (fun _ _ => True) (onStart T.sha T.version running svc starts now)
      s := by
  refine sound_load hs ?_
  cases hr : s.record with
  | none => trivial
  | some r =>
    have hhd := hs.held hr
    refine .ite (fun _ => ?_) fun hop => ?_
    · exact (sound_sweepRecovery hs svc).weaken fun _ _ _ => trivial
    refine .ite (fun hl => ?_) fun hl => ?_
    · -- a rollback was decided: it is finished first
      refine (sound_restoreDurably hs hr (not_confirmed hl nofun) hhd (.inr ⟨hl, rfl⟩)).bind ?_
      rintro (_ | ⟨r', _ | _⟩) t ht
      · trivial
      · obtain ⟨hi, hrt, hop', hmv, he⟩ := ht.finished false
        show T.Sound excused _ (recordEnd (r'.finishRollback false) svc) t
        rw [hmv]
        exact sound_recordEnd hi hrt hop' he svc
      · exact ht.elim
    · have hp : r.lifecycle = .armed ∨ r.lifecycle = .swapped := by
        rcases inProgress_cases (by simpa using hop) with h | h | h
        · exact .inl h
        · exact .inr h
        · exact absurd h hl
      exact sound_startUndecided hs hr hp hex svc starts now

end

end Start

end Setting

/-! ## Histories -/

/-- The misjudged end of a start of another build than the new one. -/
def Call.Misjudges : Call B V → Event (Disk B H V) (Op B H V) → Prop
  | .start running _ _ _, e => Setting.Misjudges running e
  | _, _ => False

/-- A start of another build than the new one, with the new build live. -/
def Call.Late (s : Disk B H V) : Call B V → Prop
  | .start running _ _ _ => Setting.Late running s
  | _ => False

/-- The live path holds the old or the new build of the recorded update. -/
def OldOrNew (first : B) (s : Disk B H V) : Prop :=
  match s.record with
  | none => s.files .live = some first
  | some r => s.files .live = some r.base ∨ s.files .live = some r.target

/-- The operation `e` writes the record `r`. -/
def Writes (e : Event (Disk B H V) (Op B H V)) (r : Record B H V) : Prop :=
  e.op = .save r ∧ e.after.record = some r

/-- Confirmed is written over the new build; and once it is, the live binary stays as it is and
only another update's record replaces it. -/
structure ConfirmsNew (e : Event (Disk B H V) (Op B H V)) : Prop where
  written : ∀ r, Writes e r → r.IsConfirmed → e.before.files .live = some r.target
  stays : ∀ r, e.before.record = some r → r.IsConfirmed →
    e.after.files .live = e.before.files .live ∧
      ∃ r', e.after.record = some r' ∧ (r'.updateId = r.updateId → r'.IsConfirmed)

/-- An update that failed or was rolled back. -/
def Record.EndedOld (r : Record B H V) : Prop :=
  (∃ reported, r.lifecycle = .failed reported) ∨
    ∃ pending reported, r.lifecycle = .rolledBack pending reported

/-- Failed and rolled back are written over the old build. -/
def EndsOld (e : Event (Disk B H V) (Op B H V)) : Prop :=
  ∀ r, Writes e r → r.EndedOld → e.before.files .live = some r.base

theorem step_save {s t : Disk B H V} {ok : Reply (Op.save r)} (h : step sha s (.save r) ok t) :
    t.files = s.files := by
  rcases h with rfl | ⟨-, rfl⟩
  · rfl
  · rfl

/-- Only a save writes the record. -/
theorem step_record {s t : Disk B H V} {op : Op B H V} {reply : Reply op}
    (h : step sha s op reply t) (hop : ∀ r, op ≠ .save r) : t.record = s.record := by
  cases op with
  | save r => exact absurd rfl (hop r)
  | load | present | hash =>
    obtain ⟨-, rfl⟩ := h
    rfl
  | remove p =>
    rcases h with ⟨-, rfl⟩ | ⟨-, rfl⟩
    · rfl
    · rfl
  | rename src dest =>
    rcases h with ⟨-, b, -, rfl | ⟨-, rfl⟩⟩ | ⟨-, rfl⟩
    · rfl
    · rfl
    · rfl
  | link src dest =>
    rcases h with ⟨-, -, b, -, rfl⟩ | ⟨-, rfl⟩
    · rfl
    · rfl
  | create src dest =>
    rcases h with ⟨-, -, h⟩ | ⟨-, rfl⟩
    · split at h
      · obtain ⟨junk, rfl⟩ := h
        rfl
      · exact h.1
    · rfl
  | fill src dest =>
    rcases h with ⟨-, rfl⟩ | ⟨-, junk, rfl⟩
    · rfl
    · rfl
  | fetch target =>
    obtain ⟨txt, rfl, -⟩ := h
    rfl
  | clearRecovery keep => exact h.1
  | ask q =>
    cases h
    rfl

namespace Setting
variable {T : Setting B H V} {s : Disk B H V} {e : Event (Disk B H V) (Op B H V)}

theorem Inv.oldOrNew (h : T.Inv s) : OldOrNew T.first s := by
  unfold Inv at h
  unfold OldOrNew
  cases hr : s.record with
  | none =>
    rw [hr] at h
    exact h
  | some r =>
    rw [hr] at h
    exact h.live

theorem Inv.live_of_confirmed (h : T.Inv s) (hr : s.record = some r) (hc : r.IsConfirmed) :
    s.files .live = some r.target := by
  obtain ⟨rep, hl⟩ := hc
  have hpl := (h.held hr).placed
  unfold Placed at hpl
  rw [hl] at hpl
  exact hpl

theorem Inv.live_of_endedOld (h : T.Inv s) (hh : T.honest) (hr : s.record = some r)
    (hed : r.EndedOld) : s.files .live = some r.base := by
  have hpl := (h.held hr).placed
  unfold Placed at hpl
  rcases hed with ⟨reported, hl⟩ | ⟨pending, reported, hl⟩
  · rw [hl] at hpl
    exact hpl.resolve_right fun h => h.1 hh
  · rw [hl] at hpl
    exact hpl

/-- What the invariant around an operation says of a confirmed record. -/
theorem Good.confirmsNew (hg : T.Good e) (hb : T.Inv e.before)
    (hsp : ∃ reply, step T.sha e.before e.op reply e.after) : ConfirmsNew e := by
  obtain ⟨pre, op, post⟩ := e
  obtain ⟨reply, hsp⟩ := hsp
  refine ⟨?_, ?_⟩
  · rintro r ⟨hop, hr⟩ hc
    subst hop
    rw [← step_save hsp]
    exact hg.inv.live_of_confirmed hr hc
  · intro r hr hc
    refine ⟨?_, hg.stays r hr hc⟩
    by_cases hop : ∃ r', op = .save r'
    · obtain ⟨r', rfl⟩ := hop
      exact congrFun (step_save hsp) .live
    · -- the record stays, and names the live build before and after
      have hsm := step_record hsp fun r' h => hop ⟨r', h⟩
      exact (hg.inv.live_of_confirmed (hsm.trans hr) hc).trans
        (hb.live_of_confirmed hr hc).symm

theorem Good.endsOld (hg : T.Good e) (hh : T.honest)
    (hsp : ∃ reply, step T.sha e.before e.op reply e.after) : EndsOld e := by
  obtain ⟨pre, op, post⟩ := e
  obtain ⟨reply, hsp⟩ := hsp
  rintro r ⟨hop, hr⟩ hed
  subst hop
  rw [← step_save hsp]
  exact hg.inv.live_of_endedOld hh hr hed

end Setting

section Histories
variable [DecidableEq H] [DecidableEq V]

/-- **Every call keeps the record and the files together**, up to a misjudged end. -/
theorem Setting.sound_call {T : Setting B H V} {s : Disk B H V} {c : Call B V}
    {excused : Event (Disk B H V) (Op B H V) → Prop} (hs : T.Inv s)
    (hc : Allowed T.sha T.version s c)
    (hex : T.honest → c.Late s → ∀ e, c.Misjudges e → excused e) :
    T.Sound excused (fun _ _ => True) (c.program T.sha T.version) s := by
  cases c with
  | install req cli =>
    obtain ⟨hlv, hd, hv, hfr⟩ := hc
    exact sound_install hs hlv hd hv hfr cli
  | deadman id now bootedAt =>
    exact .bind (sound_deadman hs id now bootedAt) fun _ _ _ => trivial
  | restarted id => exact sound_restartDone hs id
  | jobRemoved id => exact sound_jobRemoved hs id
  | confirm id svc => exact sound_confirm hs id svc
  | start running svc starts now => exact sound_onStart hs hex svc starts now
  | acked id => exact sound_acked hs id

variable (sha : B → H) (version : B → V)

/-- What happens to a machine: calls under the update lock, each stopped anywhere. -/
abbrev Lifetime := History (step sha) (Call.program sha version) (Allowed sha version)

/-- A lifetime in which no other build starts while the new build of an update is live. -/
abbrev TimelyLifetime := History (step sha) (Call.program sha version) fun s c =>
  Allowed sha version s c ∧ ¬ c.Late s

variable {sha version} {first : B} {s t : Disk B H V}
  {h : List (Call B V × List (Event (Disk B H V) (Op B H V)))}

/-- Along a history from a machine with no update recorded, the record and the files fit
together.  That records are honest is promised only while nothing is excused. -/
theorem history_good (ho : Prop) (excused : Call B V → Event (Disk B H V) (Op B H V) → Prop)
    {allowed : Disk B H V → Call B V → Prop}
    (hal : ∀ s c, allowed s c → Allowed sha version s c ∧
      (ho → c.Late s → ∀ e, c.Misjudges e → excused c e))
    (hh : History (step sha) (Call.program sha version) allowed s h t) (hs : s.record = none)
    (hf : s.files .live = some first) (hno : ∀ c ∈ h, ∀ e ∈ c.2, ¬ excused c.1 e) :
    Setting.Inv ⟨sha, version, first, ho⟩ t ∧ ∀ c ∈ h, ∀ e ∈ c.2,
      Setting.Inv ⟨sha, version, first, ho⟩ e.before ∧
        (∃ reply, step sha e.before e.op reply e.after) ∧
        Setting.Good ⟨sha, version, first, ho⟩ e := by
  have hv : Setting.Inv ⟨sha, version, first, ho⟩ s := by
    unfold Setting.Inv
    rw [hs]
    exact hf
  exact History.good _ excused
    (fun s c hi hc => Setting.sound_call hi (hal s c hc).1 (hal s c hc).2)
    (fun e hg => hg.inv) hh hv hno

/-- Where no start misjudges the update, records are honest. -/
theorem Lifetime.good {ho : Prop} (hh : Lifetime sha version s h t) (hs : s.record = none)
    (hf : s.files .live = some first)
    (hno : ho → ∀ c ∈ h, ∀ e ∈ c.2, ¬ c.1.Misjudges e) :
    Setting.Inv ⟨sha, version, first, ho⟩ t ∧ ∀ c ∈ h, ∀ e ∈ c.2,
      Setting.Inv ⟨sha, version, first, ho⟩ e.before ∧
        (∃ reply, step sha e.before e.op reply e.after) ∧
        Setting.Good ⟨sha, version, first, ho⟩ e :=
  history_good ho (fun c e => ho ∧ c.Misjudges e)
    (fun _ _ hc => ⟨hc, fun hn _ _ hm => ⟨hn, hm⟩⟩) hh hs hf
    fun c hc e he hm => hno hm.1 c hc e he hm.2

end Histories

/-! ## Never stranded -/

section
variable [DecidableEq H] [DecidableEq V] {sha : B → H} {version : B → V}
  {first : B} {s : Disk B H V}

/-- **A self-update never strands the machine, but for a late start.**  From a machine with no
update recorded, along every history: the live path always holds one of the two builds of the
recorded update, and confirmed is written over the new build, which then stays.  Failed and
rolled back are written over the old build along every history in which no build other than the
new one starts while the new build is live and the update is not ended. -/
theorem never_stranded (hs : s.record = none) (hfirst : s.files .live = some first) :
    (∀ h t, Lifetime sha version s h t →
      ∀ c ∈ h, ∀ e ∈ c.2, OldOrNew first e.after ∧ ConfirmsNew e) ∧
    ∀ h t, TimelyLifetime sha version s h t → ∀ c ∈ h, ∀ e ∈ c.2, EndsOld e := by
  refine ⟨fun h t hh c hc e he => ?_, fun h t hh c hc e he => ?_⟩
  · -- without the promise that records are honest, nothing is excused
    obtain ⟨hb, ht, hg⟩ := (Lifetime.good hh hs hfirst False.elim).2 c hc e he
    exact ⟨hg.inv.oldOrNew, hg.confirmsNew hb ht⟩
  · have hgo := history_good True (fun _ _ => False)
      (fun _ _ hc => ⟨hc.1, fun _ hl => absurd hl hc.2⟩) hh hs hfirst fun _ _ _ _ => not_false
    obtain ⟨-, ht, hg⟩ := hgo.2 c hc e he
    exact hg.endsOld trivial ht

end

/-- A machine whose live build is `false`, with nothing recorded. -/
def fresh : Disk Bool Bool Bool :=
  { files := fun p => if p = .live then some false else none, record := none }

/-- The update of `false` to `true`. -/
def upgrade : Request Bool Bool :=
  { base := false, target := true, updateId := "u1", origin := .server, version := true,
    rollbackAfterSecs := 600, service := true, now := 0 }

/-- Everything works, and no dead-man job is lost. -/
def calm (q : Question) : Bool := !(q = .noJob || q = .jobMissed)

/-- The operations of a call on working storage, and the disk it leaves. -/
def worked (c : Call Bool Bool) (s : Disk Bool Bool Bool) :
    List (Event (Disk Bool Bool Bool) (Op Bool Bool Bool)) × Disk Bool Bool Bool :=
  let run := (c.program id id).play (answer id calm) s
  (run.1, run.2.1)

/-- Calls on working storage, one after another. -/
theorem worked_lifetime {allowed : Disk Bool Bool Bool → Call Bool Bool → Prop}
    {c : Call Bool Bool} (hc : allowed fresh c) (c' : Call Bool Bool)
    (hc' : allowed (worked c fresh).2 c') :
    History (step id) (Call.program id id) allowed fresh
      [(c, (worked c fresh).1), (c', (worked c' (worked c fresh).2).1)]
      (worked c' (worked c fresh).2).2 :=
  .cons hc (Program.play_runs (answer_step id calm) _ _)
    (.cons hc' (Program.play_runs (answer_step id calm) _ _) (.nil _))

theorem upgrade_allowed : Allowed id id fresh (.install upgrade false) :=
  ⟨rfl, nofun, rfl, nofun⟩

/-- The history of an update that is installed, not confirmed and rolled back. -/
theorem never_stranded_rolledBack :
    let installed := worked (.install upgrade false) fresh
    let restored := worked (.deadman "u1" 600 none) installed.2
    let h := [(Call.install upgrade false, installed.1),
      (Call.deadman "u1" 600 none, restored.1)]
    (installed.2.files .live = some true ∧ restored.2.files .live = some false ∧
        restored.2.record.map (·.lifecycle) = some (.rolledBack true false)) ∧
      ∀ c ∈ h, ∀ e ∈ c.2, (OldOrNew false e.after ∧ ConfirmsNew e) ∧ EndsOld e := by
  intro installed restored h
  obtain ⟨hn, hd⟩ := @never_stranded Bool Bool Bool _ _ id id false fresh rfl rfl
  refine ⟨⟨by decide, by decide, by decide⟩, fun c hc e he => ⟨?_, ?_⟩⟩
  · exact hn h _ (worked_lifetime upgrade_allowed _ trivial) c hc e he
  · exact hd h _ (worked_lifetime ⟨upgrade_allowed, not_false⟩ _ ⟨trivial, not_false⟩) c hc e he

/-- The history of an update that is installed, whereupon a relay of the old build, started
before the swap, gets the lock and records it as failed over the new build. -/
theorem old_start_misjudges :
    ∃ h t, Lifetime id id fresh h t ∧ ¬ ∀ c ∈ h, ∀ e ∈ c.2, EndsOld e := by
  refine ⟨_, _, worked_lifetime upgrade_allowed (.start ⟨false, true⟩ true 3 100) trivial, ?_⟩
  intro he
  -- the start looks at the record first, and writes the end next
  have hb := he _ (List.mem_cons_of_mem _ List.mem_cons_self) _
    (List.mem_cons_of_mem _ List.mem_cons_self) _ ⟨rfl, rfl⟩ (.inl ⟨_, rfl⟩)
  exact absurd hb (by decide)

end ModelProxy.SelfUpdate
