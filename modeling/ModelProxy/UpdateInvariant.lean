import ModelProxy.SelfUpdate

/-! # What the record says of the files

At every moment the record and the files fit together (`Inv`): an armed or swapped update has
its rollback copy and one of its two builds live, a decided rollback has the copy or has
restored it, and an ended update has the build live that its end names.

Each file operation gets a rule: what is to be shown before it so that the program is safe
(`sound_save`, `sound_remove`, ...).  The programs that only prepare or restore files are then
specified once, for the calls to use.

A process of the old build may record `failed` over an installed new build.  The invariant is
therefore stated twice over: `honest` says that no such record has been written.
-/
namespace ModelProxy.SelfUpdate
open Record

variable {B H V α : Type}

@[simp] theorem Disk.put_record (s : Disk B H V) (p : Path) (cont : Option B) :
    (s.put p cont).record = s.record := rfl

@[simp] theorem Disk.put_files (s : Disk B H V) (p q : Path) (cont : Option B) :
    (s.put p cont).files q = if q = p then cont else s.files q := by
  simp only [Disk.put, Function.update_apply]

@[simp] theorem Disk.put_put (s : Disk B H V) (p : Path) (cont content' : Option B) :
    (s.put p cont).put p content' = s.put p content' := by
  simp only [Disk.put, Function.update_idem]

theorem Disk.put_self (s : Disk B H V) (p : Path) : s.put p (s.files p) = s := by
  simp only [Disk.put, Function.update_eq_self]

/-- The fixed surroundings of a history: what the hash and the version of a build are, which
build is live before any update, and whether every record written so far is honest. -/
structure Setting (B H V : Type) where
  sha : B → H
  version : B → V
  first : B
  honest : Prop

/-- No update is in progress. -/
def Disk.Idle (s : Disk B H V) : Prop := ∀ r, s.record = some r → r.inProgress = false

/-- The update is confirmed. -/
def Record.IsConfirmed (r : Record B H V) : Prop := ∃ reported, r.lifecycle = .confirmed reported

/-- The files that each phase of the record goes with. -/
def Placed (honest : Prop) (s : Disk B H V) (r : Record B H V) : Prop :=
  match r.lifecycle with
  | .armed => s.files .prev = some r.base ∧
      (s.files .live = some r.base ∧ (s.files .new = none ∨ s.files .new = some r.target) ∨
        s.files .live = some r.target ∧ s.files .new = none)
  | .swapped => s.files .prev = some r.base ∧
      (s.files .live = some r.base ∨ s.files .live = some r.target)
  | .rollingBack =>
    s.files .prev = some r.base ∧
        (s.files .live = some r.base ∨ s.files .live = some r.target) ∨
      s.files .prev = none ∧ s.files .live = some r.base
  | .confirmed _ => s.files .live = some r.target
  | .rolledBack _ _ => s.files .live = some r.base
  | .failed _ => s.files .live = some r.base ∨ ¬ honest ∧ s.files .live = some r.target

namespace Setting
variable (T : Setting B H V)

/-- The record `r` is of an update between two builds of different hash, and fits the files. -/
structure Held (s : Disk B H V) (r : Record B H V) : Prop where
  differ : T.sha r.base ≠ T.sha r.target
  hash : r.toSha256 = some (T.sha r.target)
  named : r.toVersion = T.version r.target
  placed : Placed T.honest s r

/-- **The record and the files fit together.** -/
def Inv (s : Disk B H V) : Prop :=
  match s.record with
  | none => s.files .live = some T.first
  | some r => T.Held s r

/-- A good operation keeps the invariant, and a confirmed record gives way only to another
update's. -/
structure Good (e : Event (Disk B H V) (Op B H V)) : Prop where
  inv : T.Inv e.after
  stays : ∀ r, e.before.record = some r → r.IsConfirmed →
    ∃ r', e.after.record = some r' ∧ (r'.updateId = r.updateId → r'.IsConfirmed)

/-- Every operation of the program is good, up to the first excused one. -/
abbrev Sound (excused : Event (Disk B H V) (Op B H V) → Prop) (post : α → Disk B H V → Prop)
    (p : Prog B H V α) (s : Disk B H V) : Prop :=
  p.Safe (step T.sha) excused T.Good post s

variable {T} {exc : Event (Disk B H V) (Op B H V) → Prop}
variable {s t : Disk B H V} {r r' : Record B H V} {post : α → Disk B H V → Prop}

theorem Inv.held (h : T.Inv s) (hr : s.record = some r) : T.Held s r := by
  unfold Inv at h
  rw [hr] at h
  exact h

theorem inv_of_held (hr : s.record = some r) (h : T.Held s r) : T.Inv s := by
  unfold Inv
  rw [hr]
  exact h

theorem Held.of_armed (h : T.Held s r) (hl : r.lifecycle = .armed) :
    s.files .prev = some r.base ∧
      (s.files .live = some r.base ∧ (s.files .new = none ∨ s.files .new = some r.target) ∨
        s.files .live = some r.target ∧ s.files .new = none) := by
  have hpl := h.placed
  unfold Placed at hpl
  rw [hl] at hpl
  exact hpl

theorem Held.of_swapped (h : T.Held s r) (hl : r.lifecycle = .swapped) :
    s.files .prev = some r.base ∧
      (s.files .live = some r.base ∨ s.files .live = some r.target) := by
  have hpl := h.placed
  unfold Placed at hpl
  rw [hl] at hpl
  exact hpl

theorem Held.of_rollingBack (h : T.Held s r) (hl : r.lifecycle = .rollingBack) :
    s.files .prev = some r.base ∧ (s.files .live = some r.base ∨ s.files .live = some r.target) ∨
      s.files .prev = none ∧ s.files .live = some r.base := by
  have hpl := h.placed
  unfold Placed at hpl
  rw [hl] at hpl
  exact hpl

/-- The live binary is one of the two builds. -/
theorem Held.live (h : T.Held s r) :
    s.files .live = some r.base ∨ s.files .live = some r.target := by
  cases hl : r.lifecycle with
  | armed => exact (h.of_armed hl).2.imp And.left And.left
  | swapped => exact (h.of_swapped hl).2
  | rollingBack => exact (h.of_rollingBack hl).elim And.right fun h => .inl h.2
  | confirmed _ | rolledBack _ _ | failed _ =>
    have hpl := h.placed
    unfold Placed at hpl
    rw [hl] at hpl
    first
    | exact .inr hpl
    | exact .inl hpl
    | exact hpl.imp id And.right

theorem Held.exists_live (h : T.Held s r) : ∃ b, s.files .live = some b := by
  rcases h.live with hlv | hlv
  · exact ⟨_, hlv⟩
  · exact ⟨_, hlv⟩

/-- A decided rollback fits the files as a swapped update does. -/
theorem Held.asRollingBack (h : T.Held s r) (hl : r.lifecycle = .swapped) :
    T.Held s { r with lifecycle := .rollingBack } :=
  ⟨h.differ, h.hash, h.named, .inl (h.of_swapped hl)⟩

theorem beginRollback_of_swapped (hl : r.lifecycle = .swapped) :
    r.beginRollback = some { r with lifecycle := .rollingBack } := by
  unfold beginRollback moveTo
  rw [hl]
  rfl

theorem inProgress_cases (h : r.inProgress = true) :
    r.lifecycle = .armed ∨ r.lifecycle = .swapped ∨ r.lifecycle = .rollingBack := by
  unfold inProgress at h
  cases hl : r.lifecycle with
  | armed => exact .inl rfl
  | swapped => exact .inr (.inl rfl)
  | rollingBack => exact .inr (.inr rfl)
  | confirmed _ | rolledBack _ _ | failed _ =>
    rw [hl] at h
    cases h

/-- A record that fits the files may be written. -/
theorem Held.written (h : T.Held s r) : T.Inv { s with record := some r } :=
  inv_of_held rfl ⟨h.differ, h.hash, h.named, h.placed⟩

/-- The invariant reads the record and three of the files. -/
theorem Inv.congr (h : T.Inv s) (hr : t.record = s.record)
    (hlv : t.files .live = s.files .live) (hn : t.files .new = s.files .new)
    (hpv : t.files .prev = s.files .prev) : T.Inv t := by
  unfold Inv at h ⊢
  rw [hr]
  cases hs : s.record with
  | none =>
    rw [hs] at h
    exact hlv.trans h
  | some r =>
    rw [hs] at h
    refine ⟨h.differ, h.hash, h.named, ?_⟩
    have hp := h.placed
    unfold Placed at hp ⊢
    rw [hlv, hn, hpv]
    exact hp

variable {p : Path} {cont : Option B}

theorem Inv.put_other (h : T.Inv s) (hlv : p ≠ .live) (hn : p ≠ .new) (hpv : p ≠ .prev) :
    T.Inv (s.put p cont) :=
  h.congr rfl (by simp [hlv.symm]) (by simp [hn.symm]) (by simp [hpv.symm])

/-- Between updates only the live binary matters. -/
theorem Inv.put_idle (h : T.Inv s) (hid : s.Idle) (hlv : p ≠ .live) :
    T.Inv (s.put p cont) := by
  have hsm : (s.put p cont).files .live = s.files .live := by simp [hlv.symm]
  unfold Inv at h ⊢
  rw [Disk.put_record]
  cases hs : s.record with
  | none =>
    rw [hs] at h
    exact hsm.trans h
  | some r =>
    rw [hs] at h
    refine ⟨h.differ, h.hash, h.named, ?_⟩
    have hp := h.placed
    have hed := hid r hs
    unfold inProgress at hed
    unfold Placed at hp ⊢
    rw [hsm]
    cases hl : r.lifecycle with
    | armed | swapped | rollingBack =>
      rw [hl] at hed
      cases hed
    | confirmed _ | rolledBack _ _ | failed _ =>
      -- an ended record speaks of nothing else
      rw [hl] at hp
      exact hp

theorem Good.sameRecord {op : Op B H V} (h : T.Inv t) (hr : t.record = s.record) :
    T.Good ⟨s, op, t⟩ :=
  ⟨h, fun r hs hc => ⟨r, hr.trans hs, fun _ => hc⟩⟩

/-! ## Rules for the operations -/

section
variable {f : Bool → Prog B H V α} {p src dest : Path}

theorem sound_load {f : Option (Record B H V) → Prog B H V α} (hs : T.Inv s)
    (h : T.Sound exc post (f s.record) s) : T.Sound exc post (load >>= f) s := by
  rintro reply t ⟨rfl, rfl⟩
  exact .inr ⟨Good.sameRecord hs rfl, h⟩

theorem sound_present (hs : T.Inv s) (h : T.Sound exc post (f (s.files p).isSome) s) :
    T.Sound exc post (present p >>= f) s := by
  rintro found t ⟨rfl, rfl⟩
  exact .inr ⟨Good.sameRecord hs rfl, h⟩

theorem sound_ask {q : Question} (hs : T.Inv s)
    (h : ∀ yes, T.Sound exc post (f yes) s) : T.Sound exc post (ask q >>= f) s := by
  rintro yes t rfl
  exact .inr ⟨Good.sameRecord hs rfl, h yes⟩

theorem sound_hash {f : Option H → Prog B H V α} (hs : T.Inv s) (hno : T.Sound exc post (f none) s)
    (h : T.Sound exc post (f ((s.files p).map T.sha)) s) :
    T.Sound exc post (sha256File p >>= f) s := by
  rintro reply t ⟨rfl | rfl, rfl⟩
  · exact .inr ⟨Good.sameRecord hs rfl, hno⟩
  · exact .inr ⟨Good.sameRecord hs rfl, h⟩

theorem sound_remove (hs : T.Inv s) (hp : T.Inv (s.put p none))
    (hok : T.Sound exc post (f true) (s.put p none))
    (hfa : T.Sound exc post (f false) s) : T.Sound exc post (remove p >>= f) s := by
  rintro ok t (⟨rfl, rfl⟩ | ⟨rfl, rfl⟩)
  · exact .inr ⟨Good.sameRecord hp rfl, hok⟩
  · exact .inr ⟨Good.sameRecord hs rfl, hfa⟩

theorem sound_rename (hs : T.Inv s) (hmv : ∀ b, s.files src = some b →
      T.Inv ((s.put dest (some b)).put src none) ∧
        T.Sound exc post (f true) ((s.put dest (some b)).put src none))
    (hsm : ∀ b, s.files src = some b → s.files dest = some b → T.Sound exc post (f true) s)
    (hfa : T.Sound exc post (f false) s) :
    T.Sound exc post (rename src dest >>= f) s := by
  rintro ok t (⟨rfl, b, hb, rfl | ⟨hd, rfl⟩⟩ | ⟨rfl, rfl⟩)
  · obtain ⟨hi, hr⟩ := hmv b hb
    exact .inr ⟨Good.sameRecord hi rfl, hr⟩
  · exact .inr ⟨Good.sameRecord hs rfl, hsm b hb hd⟩
  · exact .inr ⟨Good.sameRecord hs rfl, hfa⟩

/-- A save that fails may have reached the disk. -/
theorem sound_save (hs : T.Inv s) (hi : T.Inv { s with record := some r })
    (ht : ∀ old, s.record = some old → old.IsConfirmed → r.updateId = old.updateId → r.IsConfirmed)
    (hv : ∀ ok, T.Sound exc post (f ok) { s with record := some r })
    (hls : T.Sound exc post (f false) s) : T.Sound exc post (save r >>= f) s := by
  rintro ok t (rfl | ⟨rfl, rfl⟩)
  · exact .inr ⟨⟨hi, fun old ho hc => ⟨r, rfl, ht old ho hc⟩⟩, hv ok⟩
  · exact .inr ⟨Good.sameRecord hs rfl, hls⟩

theorem sound_fetch {target : B} (hs : T.Inv s)
    (hok : T.Sound exc post (f true) (s.put .staged (some target)))
    (hfa : ∀ cont, T.Sound exc post (f false) (s.put .staged cont)) :
    T.Sound exc post (fetch target >>= f) s := by
  rintro ok t ⟨cont, rfl, hcn⟩
  have hp : T.Inv (s.put .staged cont) := hs.put_other nofun nofun nofun
  refine .inr ⟨Good.sameRecord hp rfl, ?_⟩
  cases ok with
  | false => exact hfa cont
  | true =>
    rw [hcn rfl]
    exact hok

/-- A link or a copy to a name that is free: the name holds the source's bytes if it worked,
and anything if it did not. -/
theorem sound_linkOrCopy (hne : src ≠ dest) (hfr : s.files dest = none)
    (hp : ∀ cont, T.Inv (s.put dest cont)) :
    T.Sound exc (fun ok t => ∃ cont, t = s.put dest cont ∧
      (ok = true → cont = s.files src)) (linkOrCopy src dest) s := by
  have hs : T.Inv s := by
    have h := hp none
    rwa [← hfr, Disk.put_self] at h
  rintro ok t (⟨rfl, -, b, hb, rfl⟩ | ⟨rfl, rfl⟩)
  · exact .inr ⟨Good.sameRecord (hp _) rfl, some b, rfl, fun _ => hb.symm⟩
  refine .inr ⟨Good.sameRecord hs rfl, ?_⟩
  -- the link failed: the copy creates the file, then fills it
  rintro ok t (⟨rfl, -, hc⟩ | ⟨rfl, rfl⟩)
  · rw [if_pos hfr] at hc
    obtain ⟨junk, rfl⟩ := hc
    refine .inr ⟨Good.sameRecord (hp _) rfl, ?_⟩
    rintro ok t (⟨rfl, rfl⟩ | ⟨rfl, junk', rfl⟩)
    · rw [Disk.put_put]
      refine .inr ⟨Good.sameRecord (hp _) rfl, _, rfl, fun _ => ?_⟩
      simp [hne]
    · rw [Disk.put_put]
      exact .inr ⟨Good.sameRecord (hp _) rfl, _, rfl, nofun⟩
  · exact .inr ⟨Good.sameRecord hs rfl, none, by rw [← hfr, Disk.put_self], nofun⟩

end

/-! ## Programs beside the update

The dead-man's program and the failed build are kept beside the files of the update. -/

/-- The two disks have the same record and the same three files. -/
structure Alike (s t : Disk B H V) : Prop where
  record : t.record = s.record
  live : t.files .live = s.files .live
  new : t.files .new = s.files .new
  prev : t.files .prev = s.files .prev

theorem Alike.refl (s : Disk B H V) : Alike s s := ⟨rfl, rfl, rfl, rfl⟩

theorem Alike.trans {u : Disk B H V} (h : Alike s t) (h' : Alike t u) : Alike s u :=
  ⟨h'.record.trans h.record, h'.live.trans h.live, h'.new.trans h.new, h'.prev.trans h.prev⟩

theorem Alike.inv (h : Alike s t) (hs : T.Inv s) : T.Inv t :=
  hs.congr h.record h.live h.new h.prev

theorem Alike.put (hlv : p ≠ .live) (hn : p ≠ .new) (hpv : p ≠ .prev) :
    Alike s (s.put p cont) :=
  ⟨rfl, by simp [hlv.symm], by simp [hn.symm], by simp [hpv.symm]⟩

theorem sound_linkOrCopy_beside {src dest : Path} (hs : T.Inv s) (hne : src ≠ dest)
    (hfr : s.files dest = none) (hlv : dest ≠ .live) (hn : dest ≠ .new)
    (hpv : dest ≠ .prev) :
    T.Sound exc (fun _ t => Alike s t) (linkOrCopy src dest) s := by
  refine (sound_linkOrCopy hne hfr fun _ => hs.put_other hlv hn hpv).weaken ?_
  rintro ok t ⟨cont, rfl, -⟩
  exact Alike.put hlv hn hpv

theorem sound_keepFailed (hs : T.Inv s) (hfr : s.files .failed = none) :
    T.Sound exc (fun _ t => Alike s t) keepFailed s := by
  refine sound_present hs ?_
  cases (s.files .live).isSome with
  | false => exact Alike.refl s
  | true =>
    have hkp : T.Sound exc (fun _ t => Alike s t) (linkOrCopy .live .failed) s :=
      sound_linkOrCopy_beside hs nofun hfr nofun nofun nofun
    exact .bind hkp fun _ _ h => h

theorem sound_sweepRecovery (hs : T.Inv s) (svc : Bool) :
    T.Sound exc (fun _ t => Alike s t) (sweepRecovery svc) s := by
  have hc : T.Sound exc (fun _ t => Alike s t)
      (do let current ← load let _ ← clearRecovery (current.bind kept) return ()) s := by
    refine sound_load hs ?_
    rintro ok t ⟨hr, hf⟩
    have ha : Alike s t := by
      refine ⟨hr, ?_, ?_, ?_⟩
      all_goals
        rcases hf _ with h | ⟨id, hp, -⟩
        · exact h
        · cases hp
    exact .inr ⟨Good.sameRecord (ha.inv hs) hr, ha⟩
  cases svc with
  | false => exact hc
  | true =>
    refine sound_ask hs fun unowned => ?_
    cases unowned with
    | false => exact Alike.refl s
    | true => exact hc

section Recovery
variable [DecidableEq H]

theorem sound_compareCopy (hs : T.Inv s) (program : Option H) :
    T.Sound exc (fun _ t => t = s)
      (sha256File .prev >>= fun copy => match program, copy with
        | some program, some copy => (pure (decide (program = copy)) : Prog B H V Bool)
        | _, _ => pure false) s := by
  refine sound_hash hs ?_ ?_
  · cases program <;> exact rfl
  · cases program <;> cases s.files .prev <;> exact rfl

theorem sound_verifyRecovery (hs : T.Inv s) (id : String) :
    T.Sound exc (fun _ t => t = s) (verifyRecovery id) s := by
  refine sound_present hs ?_
  cases (s.files (.recovery id)).isSome with
  | false => exact rfl
  | true => exact sound_hash hs (sound_compareCopy hs none) (sound_compareCopy hs _)

theorem sound_prepareRecovery (hs : T.Inv s) (id : String) :
    T.Sound exc (fun _ t => Alike s t) (prepareRecovery id) s := by
  have hp : ∀ {t cont}, Alike s t → Alike s (t.put (.recovery id) cont) :=
    fun h => h.trans (Alike.put nofun nofun nofun)
  refine sound_remove hs ((hp (Alike.refl s)).inv hs) ?_ (Alike.refl s)
  have hgo : Alike s (s.put (.recovery id) none) := hp (Alike.refl s)
  refine .bind (sound_linkOrCopy_beside (hgo.inv hs) nofun (by simp) nofun nofun
    nofun) fun ok t ht => ?_
  have ht := hgo.trans ht
  cases ok with
  | false => exact ht
  | true =>
    refine (sound_verifyRecovery (ht.inv hs) id).bind fun same u hu => ?_
    subst hu
    cases same with
    | true => exact ht
    | false =>
      refine sound_remove (ht.inv hs) ((hp ht).inv hs) ?_ ?_
      · exact hp ht
      · exact ht

end Recovery

/-! ## Putting the rollback copy back -/

/-- With the decision recorded and the copy there, a restore that reports success has the old
build live. -/
theorem sound_restore (hs : T.Inv s) (hr : s.record = some r) (hl : r.lifecycle = .rollingBack)
    (hcp : s.files .prev = some r.base) :
    T.Sound exc (fun done t => done ≠ some false ∧ T.Inv t ∧ t.record = some r ∧
      (done = some true → t.files .live = some r.base)) restore s := by
  refine sound_present hs ?_
  rw [hcp]
  have hgo : Alike s (s.put .failed none) := Alike.put nofun nofun nofun
  refine sound_remove hs (hgo.inv hs) ?_ ⟨nofun, hs, hr, nofun⟩
  refine (sound_keepFailed (hgo.inv hs) (by simp)).bind fun _ t ht => ?_
  have ht := hgo.trans ht
  have hrt : t.record = some r := ht.record.trans hr
  have hc : t.files .prev = some r.base := ht.prev.trans hcp
  have hi := ht.inv hs
  refine sound_rename hi ?_ ?_ ⟨nofun, hi, hrt, nofun⟩
  · intro b hb
    obtain rfl : b = r.base := by rw [hc] at hb; exact (Option.some.inj hb).symm
    have hhd := hi.held hrt
    have hm : T.Inv ((t.put .live (some r.base)).put .prev none) := by
      refine inv_of_held (r := r) hrt ⟨hhd.differ, hhd.hash, hhd.named, ?_⟩
      unfold Placed
      rw [hl]
      right
      simp
    exact ⟨hm, nofun, hm, hrt, fun _ => by simp⟩
  · -- the copy and the live binary are two links of the old build
    intro b hb hlv
    rw [hc] at hb
    exact ⟨nofun, hi, hrt, fun _ => hlv.trans hb.symm⟩

section Restore
variable [DecidableEq H]

/-- How a restore may end: an error, or the old build live under a decided rollback.  The
rollback copy is never found missing. -/
def Restores (T : Setting B H V) (r : Record B H V) :
    Option (Record B H V × Restored) → Disk B H V → Prop
  | none, t => T.Inv t
  | some (_, .noCopy), _ => False
  | some (r', .done), t => r' = r ∧ T.Inv t ∧ t.record = some r ∧ t.files .live = some r.base

/-- Putting the old build back keeps the invariant. -/
theorem sound_finishRestore (hs : T.Inv s) (hr : s.record = some r)
    (hl : r.lifecycle = .rollingBack) :
    T.Sound exc (Restores T r) (finishRestore (s.files .prev).isSome r) s := by
  have hhd := hs.held hr
  rcases hhd.of_rollingBack hl with ⟨hcp, -⟩ | ⟨hgo, hlv⟩
  · rw [hcp]
    refine (sound_restore hs hr hl hcp).bind ?_
    rintro (_ | _ | _) t ⟨hne, hi, hrt, hdn⟩
    · exact hi
    · exact absurd rfl hne
    · exact ⟨rfl, hi, hrt, hdn rfl⟩
  · -- the restore ran before: the live binary is not the new build
    rw [hgo]
    show T.Sound exc (Restores T r) (restoreCompleted r >>= _) s
    unfold restoreCompleted
    rw [hhd.hash]
    refine sound_hash hs hs ?_
    rw [hlv]
    simp only [Program.bind, pure, Option.map_some, decide_eq_true hhd.differ]
    exact ⟨rfl, hs, hr, hlv⟩

/-- **A durable restore never loses the old build.** -/
theorem sound_restoreDurably (hs : T.Inv s) {old : Record B H V} (hold : s.record = some old)
    (hop : ¬ old.IsConfirmed) (hhd : T.Held s r)
    (hl : r.lifecycle = .swapped ∨ r.lifecycle = .rollingBack ∧ r = old) :
    T.Sound exc (Restores T { r with lifecycle := .rollingBack }) (restoreDurably r) s := by
  refine sound_present hs ?_
  rcases hl with hl | ⟨hl, rfl⟩
  · rw [if_neg (by rw [hl]; nofun)]
    have hcp := (hhd.of_swapped hl).1
    have hdi := (hhd.asRollingBack hl).written
    rw [hcp, beginRollback_of_swapped hl]
    refine sound_save hs hdi (fun o ho hc => ?_) (fun ok => ?_) hs
    · rw [hold] at ho
      cases ho
      exact absurd hc hop
    · cases ok with
      | false => exact hdi
      | true =>
        have hf : T.Sound exc (Restores T { r with lifecycle := .rollingBack })
            (finishRestore (s.files .prev).isSome { r with lifecycle := .rollingBack })
            { s with record := some { r with lifecycle := .rollingBack } } :=
          sound_finishRestore hdi rfl rfl
        rw [hcp] at hf
        exact hf
  · rw [if_pos hl]
    have hsm : { r with lifecycle := Lifecycle.rollingBack } = r := by rw [← hl]
    rw [hsm]
    exact sound_finishRestore hs hold hl

end Restore

end Setting

end ModelProxy.SelfUpdate
