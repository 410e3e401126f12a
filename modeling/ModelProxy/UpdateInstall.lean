import ModelProxy.UpdateInvariant

/-! # Installing an update

From an idle machine an install stages the new build, writes the rollback copy, records the
update as armed and swaps the builds.  Wherever it stops, the record and the files fit together
(`sound_install`): before the record nothing but staging has changed, and the record is written
only once both builds are in place beside it.
-/
namespace ModelProxy.SelfUpdate
open Record

variable {B H V : Type} {α : Type}

variable {ended : Record B H V} {req : Request B V}

namespace Setting
variable {T : Setting B H V} {exc : Event (Disk B H V) (Op B H V) → Prop}
variable {s t : Disk B H V} {r old : Record B H V}

/-! ## Ends -/

theorem not_confirmed {l : Lifecycle} (hl : r.lifecycle = l)
    (hne : ∀ rep, l ≠ .confirmed rep) : ¬ r.IsConfirmed := by
  rintro ⟨rep, hc⟩
  exact hne rep (hl.symm.trans hc)

theorem stays_of_open (hold : s.record = some old) (hop : ¬ old.IsConfirmed) :
    ∀ o, s.record = some o → o.IsConfirmed → r.updateId = o.updateId → r.IsConfirmed := by
  intro o ho hc
  rw [hold] at ho
  cases ho
  exact absurd hc hop

theorem idle_of_record (hr : s.record = some r) (hed : r.inProgress = false) : s.Idle := by
  intro o ho
  rw [hr] at ho
  cases ho
  exact hed

theorem sound_recordEnd (hs : T.Inv s) (hold : s.record = some old) (hop : ¬ old.IsConfirmed)
    (he : T.Inv { s with record := some ended }) (svc : Bool) :
    T.Sound exc (fun _ _ => True) (recordEnd (some ended) svc) s := by
  refine sound_save hs he (stays_of_open hold hop) (fun ok => ?_) trivial
  cases ok with
  | false => trivial
  | true => exact (sound_sweepRecovery he svc).weaken fun _ _ _ => trivial

/-- However often the end is written, the record is the old one or the end. -/
theorem sound_saveTerminal (hop : ¬ ended.IsConfirmed) (attempts : ℕ) (hs : T.Inv s)
    (hold : s.record = some old) (hop' : ¬ old.IsConfirmed)
    (he : T.Inv { s with record := some ended }) :
    T.Sound exc (fun _ t => t = s ∨ t = { s with record := some ended })
      (saveTerminal attempts ended) s := by
  induction attempts generalizing s old with
  | zero => exact .inl rfl
  | succ attempts ih =>
    refine sound_save hs he (stays_of_open hold hop') (fun ok => ?_) (ih hs hold hop' he)
    cases ok with
    | true => exact .inr rfl
    | false =>
      refine (ih he rfl hop he).weaken ?_
      rintro _ t (rfl | rfl)
      · exact .inr rfl
      · exact .inr rfl

theorem fail_of_open (h : r.lifecycle = .armed ∨ r.lifecycle = .swapped) :
    r.fail = some { r with lifecycle := .failed false } := by
  unfold fail moveTo
  rcases h with h | h
  · rw [h]
    rfl
  · rw [h]
    rfl

/-- An end that names the old build fits the files while the old build is live. -/
theorem Held.failed (h : T.Held s r) (hlv : s.files .live = some r.base) (rep : Bool) :
    T.Held s { r with lifecycle := .failed rep } :=
  ⟨h.differ, h.hash, h.named, .inl hlv⟩

theorem Held.rolledBack (h : T.Held s r) (hlv : s.files .live = some r.base)
    (pending rep : Bool) : T.Held s { r with lifecycle := .rolledBack pending rep } :=
  ⟨h.differ, h.hash, h.named, hlv⟩

theorem Held.confirmed (h : T.Held s r) (hlv : s.files .live = some r.target)
    (rep : Bool) : T.Held s { r with lifecycle := .confirmed rep } :=
  ⟨h.differ, h.hash, h.named, hlv⟩

/-- While it is armed and `wsmp.new` is there, the old build is live. -/
theorem Held.live_of_new (h : T.Held s r) (hl : r.lifecycle = .armed)
    (hn : (s.files .new).isSome) : s.files .live = some r.base := by
  rcases (h.of_armed hl).2 with ⟨hlv, -⟩ | ⟨-, hgo⟩
  · exact hlv
  · rw [hgo] at hn
    cases hn

/-- An armed update fits the files as a swapped one does. -/
theorem Held.asSwapped (h : T.Held s r) (hl : r.lifecycle = .armed) :
    T.Held s { r with lifecycle := .swapped } :=
  ⟨h.differ, h.hash, h.named, (h.of_armed hl).1, h.live⟩

theorem swap_of_armed (hl : r.lifecycle = .armed) :
    r.swap = some { r with lifecycle := .swapped } := by
  unfold swap moveTo
  rw [hl]
  rfl

theorem sound_swapBegan (hs : T.Inv s) :
    T.Sound exc (fun began t => t = s ∧ (began = false → (s.files .new).isSome))
      swapBegan s := by
  refine sound_present hs ?_
  cases hn : (s.files .new).isSome with
  | false => exact ⟨rfl, nofun⟩
  | true => exact sound_present hs ⟨rfl, fun _ => rfl⟩

/-! ## Installing -/

/-- Before the record is written: nothing is in progress, and the old build is live. -/
structure Ready (T : Setting B H V) (request : Request B V) (s : Disk B H V) : Prop where
  inv : T.Inv s
  idle : s.Idle
  live : s.files .live = some request.base
  fresh : ∀ r, s.record = some r → r.updateId ≠ request.updateId

theorem Ready.put (h : Ready T req s) (p : Path) (hp : p ≠ .live) {txt : Option B} :
    Ready T req (s.put p txt) :=
  ⟨h.inv.put_idle h.idle hp, h.idle, by simp [hp.symm, h.live], h.fresh⟩

theorem Ready.alike (h : Ready T req s) (ht : Alike s t) : Ready T req t :=
  ⟨ht.inv h.inv, fun r hr => h.idle r (ht.record ▸ hr), ht.live.trans h.live,
    fun r hr => h.fresh r (ht.record ▸ hr)⟩

/-- How an install leaves the disk. -/
def Installed (T : Setting B H V) (request : Request B V) : Ended → Disk B H V → Prop
  | .swapped, t => T.Inv t ∧ t.files .live = some request.target ∧
      ∃ r, t.record = some r ∧ r.target = request.target
  | .stopped, t => T.Inv t ∧ (t.Idle ∨ ∃ r, t.record = some r ∧ r.updateId = request.updateId)

theorem Ready.stopped (h : Ready T req s) :
    Installed T req .stopped s := ⟨h.inv, .inl h.idle⟩

section Install
variable {req : Request B V}

theorem sound_endUpdate (hs : T.Inv s) (hr : s.record = some r) (hl : r.lifecycle = .armed)
    (hlv : s.files .live = some r.base) (hid : r.updateId = req.updateId) :
    T.Sound exc (Installed T req) (endUpdate r) s := by
  have he := ((hs.held hr).failed hlv false).written
  have hop : ¬ r.IsConfirmed := not_confirmed hl nofun
  unfold endUpdate
  rw [fail_of_open (.inl hl)]
  have hov : ¬ ({ r with lifecycle := .failed false } : Record B H V).IsConfirmed :=
    not_confirmed rfl nofun
  refine .bind (sound_saveTerminal hov _ hs hr hop he) ?_
  rintro _ t (rfl | rfl)
  · exact ⟨hs, .inr ⟨r, hr, hid⟩⟩
  · exact ⟨he, .inr ⟨_, rfl, hid⟩⟩

/-- The armed record of a request, on the disk it is written to. -/
theorem sound_swapFiles (hs : T.Inv s) (hr : s.record = some r) (hl : r.lifecycle = .armed)
    (hlv : s.files .live = some r.base) (hn : s.files .new = some r.target)
    (hid : r.updateId = req.updateId) (ht : r.target = req.target) :
    T.Sound exc (Installed T req) (swapFiles r) s := by
  have hhd := hs.held hr
  have hop : ¬ r.IsConfirmed := not_confirmed hl nofun
  refine sound_rename hs ?_ ?_ ?_
  · intro b hb
    obtain rfl : b = r.target := by
      rw [hn] at hb
      exact (Option.some.inj hb).symm
    have hm : T.Held ((s.put .live (some r.target)).put .new none) r := by
      refine ⟨hhd.differ, hhd.hash, hhd.named, ?_⟩
      unfold Placed
      rw [hl]
      exact ⟨by simpa using (hhd.of_armed hl).1, .inr ⟨by simp, by simp⟩⟩
    have hi : T.Inv ((s.put .live (some r.target)).put .new none) := inv_of_held hr hm
    refine ⟨hi, ?_⟩
    rw [swap_of_armed hl]
    have hw := (hm.asSwapped hl).written
    refine sound_save hi hw (stays_of_open hr hop) (fun _ => ?_) ?_
    · exact ⟨hw, by simp [ht], _, rfl, ht⟩
    · exact ⟨hi, by simp [ht], r, hr, ht⟩
  · -- the two builds differ, so `wsmp.new` is no link of the live binary
    intro b hb hb'
    rw [hn] at hb
    rw [hlv] at hb'
    exact absurd (congrArg T.sha (Option.some.inj (hb'.trans hb.symm))) hhd.differ
  · refine (sound_swapBegan hs).bind ?_
    rintro began t ⟨rfl, -⟩
    cases began with
    | true => exact ⟨hs, .inr ⟨r, hr, hid⟩⟩
    | false => exact sound_endUpdate hs hr hl hlv hid

/-- Arming and swapping keep the invariant. -/
theorem sound_armAndSwap (hs : T.Inv s) (hr : s.record = some r) (hl : r.lifecycle = .armed)
    (hlv : s.files .live = some r.base) (hn : s.files .new = some r.target)
    (hid : r.updateId = req.updateId) (ht : r.target = req.target) :
    T.Sound exc (Installed T req) (armAndSwap req r) s := by
  have he : T.Sound exc (Installed T req) (endUpdate r) s :=
    sound_endUpdate hs hr hl hlv hid
  have hgo : T.Sound exc (Installed T req)
      (do if ← ask .proceed then swapFiles r else endUpdate r) s := by
    refine sound_ask hs fun yes => ?_
    cases yes with
    | false => exact he
    | true => exact sound_swapFiles hs hr hl hlv hn hid ht
  unfold armAndSwap
  cases req.service with
  | false => exact hgo
  | true =>
    refine sound_ask hs fun armed => ?_
    cases armed with
    | false => exact he
    | true => exact hgo

/-- With the new build staged and the rollback copy written, the record is written and the
update goes on. -/
theorem sound_record (hs : Ready T req s) (hn : s.files .new = some req.target)
    (hpv : s.files .prev = some req.base)
    (hd : T.sha req.base ≠ T.sha req.target)
    (hv : T.version req.target = req.version) :
    T.Sound exc (Installed T req) (do
      match ← sha256File .new with
      | some sha256 =>
        let current := req.armed sha256
        if ← save current then armAndSwap req current else return .stopped
      | none => return .stopped) s := by
  refine sound_hash hs.inv hs.stopped ?_
  rw [hn]
  show T.Sound exc (Installed T req) (save (req.armed (T.sha req.target)) >>= _) s
  have ha : T.Inv { s with record := some (req.armed (T.sha req.target)) } :=
    inv_of_held rfl ⟨hd, rfl, hv.symm, hpv, .inl ⟨hs.live, .inr hn⟩⟩
  refine sound_save hs.inv ha (fun o ho _ hid => ?_) (fun ok => ?_) hs.stopped
  · exact absurd hid.symm (hs.fresh o ho)
  · cases ok with
    | false => exact ⟨ha, .inr ⟨_, rfl, rfl⟩⟩
    | true => exact sound_armAndSwap ha rfl rfl hs.live hn rfl rfl

theorem sound_stageNew (hs : Ready T req s) (ht : s.files .staged = some req.target) :
    T.Sound exc (fun ok t => Ready T req t ∧
      (ok = true → t.files .new = some req.target)) stageNew s := by
  have hgo : Ready T req (s.put .new none) := hs.put .new nofun
  refine sound_remove hs.inv hgo.inv ?_ ⟨hs, nofun⟩
  refine sound_rename hgo.inv ?_ ?_ ⟨hgo, nofun⟩
  · intro b hb
    obtain rfl : req.target = b := by simpa [ht] using hb
    have hm : Ready T req (((s.put .new none).put .new (some req.target)).put
        .staged none) := (hgo.put .new nofun).put .staged nofun
    refine ⟨hm.inv, sound_ask hm.inv fun ok => ⟨hm, fun _ => by simp⟩⟩
  · intro b _ hb
    simp at hb

theorem sound_preparePrev (hs : Ready T req s) :
    T.Sound exc (fun ok t => Ready T req t ∧ t.files .new = s.files .new ∧
      (ok = true → t.files .prev = some req.base)) preparePrev s := by
  have hgo : Ready T req (s.put .prev none) := hs.put .prev nofun
  refine sound_remove hs.inv hgo.inv ?_ ⟨hs, rfl, nofun⟩
  have hcp : T.Sound exc _ (linkOrCopy .live .prev) (s.put .prev none) :=
    sound_linkOrCopy nofun (by simp) fun _ => (hgo.put .prev nofun).inv
  refine hcp.weaken ?_
  rintro ok t ⟨txt, rfl, hcn⟩
  refine ⟨hgo.put .prev nofun, by simp, fun hok => ?_⟩
  rw [hcn hok]
  simp [hs.live]

/-- What is cleaned up is of no update in progress. -/
theorem sound_clean (hs : T.Inv s) (hid : s.Idle) :
    T.Sound exc (fun _ t => T.Inv t ∧ t.record = s.record ∧
      t.files .live = s.files .live) clean s := by
  have hpu : ∀ {t : Disk B H V} (p : Path), p ≠ .live → T.Inv t ∧ t.record = s.record ∧
      t.files .live = s.files .live → T.Inv (t.put p none) ∧ (t.put p none).record = s.record ∧
      (t.put p none).files .live = s.files .live := by
    rintro t p hp ⟨hi, hr, hlv⟩
    have hid' : t.Idle := fun r hr' => hid r (hr ▸ hr')
    exact ⟨hi.put_idle hid' hp, hr, by simp [hp.symm, hlv]⟩
  have hst : T.Inv s ∧ s.record = s.record ∧ s.files .live = s.files .live :=
    ⟨hs, rfl, rfl⟩
  have hn : ∀ t : Disk B H V, T.Inv t ∧ t.record = s.record ∧
      t.files .live = s.files .live → T.Sound exc (fun _ t => T.Inv t ∧
        t.record = s.record ∧ t.files .live = s.files .live)
        (do let _ ← remove .new return ()) t := by
    intro t ht
    exact sound_remove ht.1 (hpu .new nofun ht).1 (hpu .new nofun ht) ht
  have hsg := hpu .staged nofun hst
  exact sound_remove hs hsg.1 (hn _ hsg) (hn _ hst)

theorem sound_settled (hs : T.Inv s)
    (h : s.Idle ∨ ∃ r, s.record = some r ∧ r.updateId = req.updateId) :
    T.Sound exc (fun settles t => t = s ∧ (settles = true → s.Idle))
      (settled req.updateId) s := by
  refine sound_load hs ?_
  cases hr : s.record with
  | none => exact ⟨rfl, fun _ o ho => by rw [hr] at ho; cases ho⟩
  | some r =>
    refine ⟨rfl, fun hov => ?_⟩
    rcases h with hi | ⟨o, ho, hid⟩
    · exact hi
    · rw [hr] at ho
      cases ho
      simp only [hid, ne_eq, not_true_eq_false, decide_false, Bool.false_or,
        Bool.not_eq_true'] at hov
      exact idle_of_record hr hov

theorem sound_tidy {ended : Ended} (h : Installed T req ended s) :
    T.Sound exc (fun _ t => T.Inv t ∧ t.record = s.record ∧
      t.files .live = s.files .live) (tidy req ended) s := by
  have hi : T.Inv s := by
    cases ended with
    | swapped => exact h.1
    | stopped => exact h.1
  have hke : T.Sound exc (fun _ t => T.Inv t ∧ t.record = s.record ∧
      t.files .live = s.files .live) (do let _ ← remove .staged
                                         return ()) s := by
    have hp : T.Inv (s.put .staged none) := hi.put_other nofun nofun nofun
    exact sound_remove hi hp ⟨hp, rfl, by simp⟩ ⟨hi, rfl, rfl⟩
  cases ended with
  | swapped => exact hke
  | stopped =>
    refine (sound_settled hi h.2).bind ?_
    rintro settles t ⟨rfl, hid⟩
    cases settles with
    | false => exact hke
    | true =>
      refine (sound_clean hi (hid rfl)).bind ?_
      rintro _ u ⟨hu, hr, hlv⟩
      refine (sound_sweepRecovery hu req.service).weaken fun _ v hv => ?_
      exact ⟨hv.inv hu, hv.record.trans hr, hv.live.trans hlv⟩

/-- An abandoned update is settled over the old build; nothing else changes. -/
theorem sound_settleAbandoned (hs : T.Inv s) (svc : Bool) :
    T.Sound exc (fun _ t => T.Inv t ∧ t.files .live = s.files .live ∧
      t.record.map (·.updateId) = s.record.map (·.updateId)) (settleAbandoned svc) s := by
  refine sound_load hs ?_
  cases hr : s.record with
  | none => exact ⟨hs, rfl, by rw [hr]⟩
  | some r =>
    have hsm : T.Inv s ∧ s.files .live = s.files .live ∧
        s.record.map (·.updateId) = (some r).map (·.updateId) := ⟨hs, rfl, by rw [hr]⟩
    refine .ite (fun hl => ?_) fun _ => hsm
    have hhd := hs.held hr
    refine (sound_swapBegan hs).bind ?_
    rintro began t ⟨rfl, hn⟩
    cases began with
    | true => exact hsm
    | false =>
      have he := (hhd.failed (hhd.live_of_new hl (hn rfl)) false).written
      have hop : ¬ r.IsConfirmed := not_confirmed hl nofun
      simp only [Bool.false_eq_true, reduceIte, fail_of_open (.inl hl)]
      have ht : T.Sound exc (fun _ u => T.Inv u ∧ u.files .live = t.files .live ∧
          u.record.map (·.updateId) = (some r).map (·.updateId))
          (do if ← save { r with lifecycle := .failed false } then clean else return ()) t := by
        refine sound_save hs he (stays_of_open hr hop) (fun ok => ?_) hsm
        cases ok with
        | false => exact ⟨he, rfl, rfl⟩
        | true =>
          refine (sound_clean he (idle_of_record rfl rfl)).weaken ?_
          rintro _ u ⟨hu, hru, hlv⟩
          exact ⟨hu, hlv, by rw [hru]; rfl⟩
      cases svc with
      | false => exact ht
      | true =>
        refine sound_ask hs fun unowned => ?_
        cases unowned with
        | false => exact hsm
        | true => exact ht

theorem sound_settleWithoutService (hs : T.Inv s) (hr : s.record = some r)
    (hlv : s.files .live = some r.target) :
    T.Sound exc (fun _ _ => True) settleWithoutService s := by
  refine sound_load hs ?_
  rw [hr]
  refine .ite (fun hl => ?_) fun _ => trivial
  have hmv : r.confirm = some { r with lifecycle := .confirmed false } := by
    unfold Record.confirm moveTo
    rw [hl]
    rfl
  rw [hmv]
  have hop : ¬ r.IsConfirmed := not_confirmed hl nofun
  exact sound_save hs ((hs.held hr).confirmed hlv false).written (stays_of_open hr hop)
    (fun _ => trivial) trivial

variable [DecidableEq H]

/-- Installing keeps the invariant. -/
theorem sound_installFiles (hs : Ready T req s) (hd : T.sha req.base ≠ T.sha req.target)
    (hr : T.version req.target = req.version) :
    T.Sound exc (Installed T req) (installFiles req) s := by
  have hf : ∀ txt, Ready T req (s.put .staged txt) :=
    fun _ => hs.put .staged nofun
  refine sound_fetch hs.inv ?_ fun txt => (hf txt).stopped
  refine (sound_stageNew (hf (some req.target)) (by simp)).bind ?_
  rintro ok t ⟨ht, hn⟩
  cases ok with
  | false => exact ht.stopped
  | true =>
    refine (sound_preparePrev ht).bind ?_
    rintro ok u ⟨hu, hke, hpv⟩
    cases ok with
    | false => exact hu.stopped
    | true =>
      have hnw : u.files .new = some req.target := hke.trans (hn rfl)
      cases hse : req.service with
      | false => exact sound_record hu hnw (hpv rfl) hd hr
      | true =>
        refine (sound_prepareRecovery hu.inv req.updateId).bind ?_
        intro ok v hv
        have hrd := hu.alike hv
        cases ok with
        | false => exact hrd.stopped
        | true =>
          exact sound_record hrd (hv.new.trans hnw) (hv.prev.trans (hpv rfl))
            hd hr

theorem sound_selfReplace (hs : Ready T req s) (hd : T.sha req.base ≠ T.sha req.target)
    (hve : T.version req.target = req.version) :
    T.Sound exc (fun ended t => T.Inv t ∧ (ended = .swapped → t.files .live = some req.target ∧
        ∃ r, t.record = some r ∧ r.target = req.target)) (selfReplace req) s := by
  refine (sound_sweepRecovery hs.inv req.service).bind fun _ t ht => ?_
  refine (sound_installFiles (hs.alike ht) hd hve).bind fun ended u hu => ?_
  refine (sound_tidy hu).bind ?_
  rintro _ v ⟨hv, hr, hlv⟩
  refine ⟨hv, ?_⟩
  rintro rfl
  obtain ⟨-, hta, r, hru, hrt⟩ := hu
  exact ⟨hlv.trans hta, r, hr.trans hru, hrt⟩

/-- **An install keeps the record and the files together**, wherever it stops. -/
theorem sound_install (hs : T.Inv s) (hl : s.files .live = some req.base)
    (hd : T.sha req.base ≠ T.sha req.target)
    (hv : T.version req.target = req.version)
    (hfr : ∀ r, s.record = some r → r.updateId ≠ req.updateId) (cli : Bool) :
    T.Sound exc (fun _ _ => True) (install req cli) s := by
  refine (sound_settleAbandoned hs req.service).bind ?_
  rintro _ t ⟨ht, hli, hi⟩
  refine sound_load ht ?_
  refine .ite (fun _ => trivial) fun hbu => ?_
  have hrd : Ready T req t := by
    refine ⟨ht, fun o ho => ?_, hli.trans hl, fun o ho => ?_⟩
    · rw [ho] at hbu
      exact Bool.eq_false_iff.mpr hbu
    · rw [ho] at hi
      obtain ⟨r, hr, hid⟩ := Option.map_eq_some_iff.mp hi.symm
      rw [show o.updateId = r.updateId from hid.symm]
      exact hfr r hr
  refine (sound_selfReplace hrd hd hv).bind ?_
  rintro ended u ⟨hu, hw⟩
  cases ended with
  | stopped => trivial
  | swapped =>
    obtain ⟨hlv, r, hr, hta⟩ := hw rfl
    refine .ite (fun _ => ?_) fun _ => trivial
    exact sound_settleWithoutService hu hr (hta ▸ hlv)

end Install

end Setting

end ModelProxy.SelfUpdate
