import ModelProxy.PathWalk

/-! # Resolved paths stay inside the roots

The walk keeps two things in step: the directory it holds and the names it went through.  The
names spell the directory's physical path at every turn (`Kept.spelled`), and the directory is
where following the path physically leads (`Kept.followed`); a link with an absolute target
resets both, and `..` takes the parent of one and the last name of the other.  So the path the
policy is asked about is the physical path of what is held, whether the system reports it or
not.

The walk may make directories.  Each was checked first (`Sound.made`), and a call that fails
gives back the tree's entries (`Sound.undone`).
-/
namespace ModelProxy.FilePath
open List FileTree

open Relation (ReflTransGen)

variable {host : PathHost} {opts : ResolveOpts} {base : FileTree} {comps : List FileName}
  {s t : Walk}

/-! ## The invariant -/

/-- What holds of the loop's variables however the walk ends. -/
structure Sound (opts : ResolveOpts) (base : FileTree) (s : Walk) : Prop where
  hops_le : s.hops ≤ maxSymlinkHops
  made : ∀ c ∈ s.created, ∃ p, s.tree.At p c.1 ∧ opts.policy.Allows .write (p ++ [c.2])
  undone : (rollbackCreated s.created s.tree).entry = base.entry

/-- **The invariant of the loop.** -/
structure Kept (opts : ResolveOpts) (base : FileTree) (comps : List FileName) (s : Walk) : Prop
    extends Sound opts base s where
  spelled : s.tree.At s.names s.cur
  followed : ReflTransGen s.tree.Follows (0, comps) (s.cur, s.remaining)
  plain : ∀ c ∈ s.remaining, c ≠ dotName

theorem splitComponents_plain {path : List Char} : ∀ c ∈ splitComponents path, c ≠ dotName := by
  intro c hc
  have := (mem_filter.mp hc).2
  simp only [Bool.and_eq_true, decide_eq_true_eq] at this
  exact this.2

theorem Kept.start {path : List Char} :
    Kept opts base (splitComponents path) (.start base (splitComponents path)) where
  hops_le := Nat.zero_le _
  made := nofun
  undone := rfl
  spelled := .root
  followed := .refl
  plain := splitComponents_plain

/-- The names kept are what the system reports, where it does. -/
theorem dirPath_eq (h : s.tree.At s.names s.cur) : s.dirPath host = s.names := by
  rw [Walk.dirPath, PathHost.fdPath]
  split
  · cases hrp : host.report s.tree s.cur with
    | none => rfl
    | some p => exact (host.report_at _ _ _ hrp).unique h
  · rfl

theorem rollbackCreated_entry {created : List (ℕ × FileName)} {t u : FileTree}
    (h : t.entry = u.entry) :
    (rollbackCreated created t).entry = (rollbackCreated created u).entry := by
  induction created with
  | nil => exact h
  | cons c created ih =>
    funext d n
    show (if d = c.1 ∧ n = c.2 then none else (rollbackCreated created t).entry d n) = _
    rw [ih]
    rfl

/-- Making a missing parent keeps what holds however the walk ends. -/
theorem Kept.withMade {comp : FileName} {hd : s.cur < s.tree.next}
    (h : Kept opts base comps s) (hm : Missing host opts s comp hd) :
    Sound opts base (s.withMade comp hd) where
  hops_le := h.hops_le
  made := by
    have hg := grows_withDir hd hm.free
    intro c hc
    rcases mem_append.mp hc with hold | hn
    · obtain ⟨p, hp, hal⟩ := h.made c hold
      exact ⟨p, hp.grows hg, hal⟩
    · rw [mem_singleton.mp hn]
      have ha := hm.allowed
      rw [dirPath_eq h.spelled] at ha
      exact ⟨s.names, h.spelled.grows hg, Policy.checkPath_allows ha⟩
  undone := by
    show (rollbackCreated (s.created ++ [(s.cur, comp)]) _).entry = _
    rw [rollbackCreated, foldr_append]
    -- the newest directory goes first, which leaves the tree it was made in
    have hbk := withoutEntry_withDir hd hm.free rfl
    exact (rollbackCreated_entry hbk).trans h.undone

/-- **Every turn keeps the invariant.** -/
theorem Turn.kept (htu : Turn host opts s t) (h : Kept opts base comps s) :
    Kept opts base comps t := by
  cases htu with
  | up more =>
    have hf := h.followed
    rw [more] at hf
    exact
      { h with
        spelled := h.spelled.up
        followed := hf.tail (.up _ _)
        plain := fun c hc => h.plain c (more ▸ mem_cons_of_mem _ hc) }
  | down more plain held =>
    have hf := h.followed
    rw [more] at hf
    exact
      { h with
        spelled := h.spelled.down held
        followed := hf.tail (.down _ plain held)
        plain := fun c hc => h.plain c (more ▸ mem_cons_of_mem _ hc) }
  | @link comp rest target more plain held ho =>
    have hf := h.followed
    rw [more] at hf
    exact
      { h with
        hops_le := ho
        spelled := by
          -- an absolute target starts over at the root, with no names
          by_cases ha : target.head? = some '/'
          · simpa only [if_pos ha] using FileTree.At.root
          · simpa only [if_neg ha] using h.spelled
        followed := hf.tail (.link _ plain held)
        plain := by
          intro c hc
          rcases mem_append.mp hc with ht | hr
          · exact splitComponents_plain c ht
          · exact h.plain c (more ▸ mem_cons_of_mem _ hr) }
  | @made comp rest hd more missing =>
    have hg := grows_withDir hd missing.free
    have hhd := withDir_entry (n := comp) hd
    -- what was followed so far is followed the same way in the tree with the new directory
    have hf := follows_grows .root h.followed hg
    rw [more] at hf
    have hs := h.withMade missing
    exact
      { hops_le := hs.hops_le
        made := hs.made
        undone := hs.undone
        spelled := (h.spelled.grows hg).down hhd
        followed := hf.tail (.down _ missing.plain hhd)
        plain := fun c hc => h.plain c (more ▸ mem_cons_of_mem _ hc) }

/-! ## Whole walks -/

/-- One turn of the loop that goes on. -/
def Next (host : PathHost) (opts : ResolveOpts) (s t : Walk) : Prop :=
  walkStep host opts s = .next t

theorem Kept.run (h : Kept opts base comps s) (hr : ReflTransGen (Next host opts) s t) :
    Kept opts base comps t := by
  induction hr with
  | refl => exact h
  | tail _ hsp ih => exact (turn_of_next hsp).kept ih

variable (host opts) in
/-- **The loop ends**: some turns that go on, and then one that does not. -/
theorem walk_ends (s : Walk) : ∃ last, ReflTransGen (Next host opts) s last ∧
    ((∃ t leaf, walkStep host opts last = .finished t leaf ∧ walk host opts s = (t, .ok leaf)) ∨
      ∃ t e, walkStep host opts last = .failed e t ∧ walk host opts s = (t, .error e)) := by
  induction s using walk.induct host opts with
  | case1 s t hsp ih =>
    obtain ⟨last, hr, hla⟩ := ih
    rw [walk_next hsp]
    exact ⟨last, .head hsp hr, hla⟩
  | case2 s t leaf hsp => exact ⟨s, .refl, .inl ⟨t, leaf, hsp, walk_finished hsp⟩⟩
  | case3 s e t hsp => exact ⟨s, .refl, .inr ⟨t, e, hsp, walk_failed hsp⟩⟩

/-- What a walk that found its leaf has: the invariant, up to the leaf. -/
structure Arrived (opts : ResolveOpts) (comps : List FileName) (s : Walk)
    (leaf : Option FileName) : Prop where
  spelled : s.tree.At s.names s.cur
  followed : ReflTransGen s.tree.Follows (0, comps) (s.cur, leaf.toList)
  plain : leaf ≠ some dotName
  last : opts.followLast = true → ∀ name ∈ leaf, ∀ target,
    s.tree.entry s.cur name ≠ some (.link target)

/-- A walk from a state with the invariant ends soundly, and with a leaf it has arrived. -/
theorem Kept.walk {found : Except FileError (Option FileName)} (h : Kept opts base comps s)
    (hwl : walk host opts s = (t, found)) :
    Sound opts base t ∧ ∀ leaf, found = .ok leaf → Arrived opts comps t leaf := by
  obtain ⟨last, hr, ⟨u, leaf, hsp, hu⟩ | ⟨u, e, hsp, hu⟩⟩ := walk_ends host opts s
  all_goals
    have hla := h.run hr
    have he : (walkStep host opts last).Explained host opts last := walkStep_explained last
    rw [hsp] at he
    rw [hwl] at hu
    cases hu
  · cases leaf with
    | none =>
      obtain ⟨hno, rfl⟩ := he
      refine ⟨hla.toSound, ?_⟩
      rintro leaf ⟨⟩
      have hf := hla.followed
      rw [hno] at hf
      exact ⟨hla.spelled, hf, nofun, nofun⟩
    | some name =>
      obtain ⟨hnm, rfl, hp, hli⟩ := he
      have hs := hla.toSound
      refine ⟨⟨hs.hops_le, hs.made, hs.undone⟩, ?_⟩
      rintro leaf ⟨⟩
      have hf := hla.followed
      rw [hnm] at hf
      refine ⟨hla.spelled, hf, ?_, ?_⟩
      · rintro ⟨⟩
        exact hla.plain dotName (by rw [hnm]; exact mem_cons_self) rfl
      · rintro hl _ ⟨⟩
        exact hli hl
  · refine ⟨?_, nofun⟩
    rcases he with rfl | ⟨comp, hd, hm, rfl⟩
    · exact hla.toSound
    · exact hla.withMade hm

/-! ## The result -/

/-- The names left to follow from the directory held: the leaf, or none. -/
def Resolved.leaf (r : Resolved) : List FileName := if r.name = dotName then [] else [r.name]

/-- **What a resolved path is**: the directory held is where the components lead, physically;
its path is its physical path, which the names kept spell; with `followLast` the leaf is no
link; and the policy allows the whole path. -/
structure Confined (opts : ResolveOpts) (comps : List FileName) (out : Resolution)
    (r : Resolved) : Prop where
  followed : ReflTransGen out.tree.Follows (0, comps) (r.dir, r.leaf)
  last : opts.followLast = true → ∀ name ∈ r.leaf, ∀ target,
    out.tree.entry r.dir name ≠ some (.link target)
  spelled : out.tree.At r.dirPath r.dir
  names : out.walked.names = r.dirPath
  allowed : opts.policy.Allows opts.access r.fullPath

/-- A walk that passes the last check is confined. -/
theorem Arrived.confined {leaf : Option FileName} (h : Arrived opts comps s leaf)
    (hc : checkResolved host opts s ⟨s.cur, s.dirPath host, leaf.getD dotName, s.created⟩ =
      .ok ()) :
    Confined opts comps ⟨s, s.tree, .ok ⟨s.cur, s.dirPath host, leaf.getD dotName, s.created⟩⟩
      ⟨s.cur, s.dirPath host, leaf.getD dotName, s.created⟩ := by
  have hl : ∀ d p created, Resolved.leaf ⟨d, p, leaf.getD dotName, created⟩ = leaf.toList := by
    intro d p created
    cases leaf with
    | none => rfl
    | some name => exact if_neg fun hnm => h.plain (congrArg some hnm)
  have hph : s.dirPath host = s.names := dirPath_eq h.spelled
  refine ⟨?_, ?_, ?_, hph.symm, ?_⟩
  · rw [hl]
    exact h.followed
  · intro hf name hnm
    rw [hl] at hnm
    exact h.last hf name (Option.mem_toList.mp hnm)
  · rw [hph]
    exact h.spelled
  · rw [checkResolved] at hc
    split at hc
    · cases hc
    · exact Policy.checkPath_allows hc

/-- What a call of `resolve` comes to. -/
structure Resolution.Safe (opts : ResolveOpts) (tree : FileTree) (comps : List FileName)
    (out : Resolution) : Prop where
  sound : Sound opts tree out.walked
  confined : ∀ r, out.result = .ok r → Confined opts comps out r
  undone : ∀ e, out.result = .error e → out.tree.entry = tree.entry

/-- Resolving is safe, whatever it ends with. -/
theorem resolve_safe (host : PathHost) (opts : ResolveOpts) (tree : FileTree) (input : List Char) :
    (resolve host opts tree input).Safe opts tree (components host.home input) := by
  cases hea : expand host.home input with
  | error e =>
    have ho : resolve host opts tree input = ⟨.start tree [], tree, .error e⟩ := by
      rw [resolve, hea]
    rw [ho]
    exact ⟨⟨Nat.zero_le _, nofun, rfl⟩, nofun, fun _ _ => rfl⟩
  | ok expanded =>
    have hc : components host.home input = splitComponents expanded := by
      rw [components, hea]
    have hst : Kept opts tree (splitComponents expanded) _ := Kept.start
    rw [resolve, hea, hc]
    rcases hwl : walk host opts (.start tree (splitComponents expanded)) with ⟨s, e | leaf⟩
    · obtain ⟨hs, -⟩ := hst.walk hwl
      simp only [hwl]
      exact ⟨hs, nofun, fun _ _ => hs.undone⟩
    · obtain ⟨hs, ha⟩ := hst.walk hwl
      simp only [hwl]
      cases hh : checkResolved host opts s
          ⟨s.cur, s.dirPath host, leaf.getD dotName, s.created⟩ with
      | error e => exact ⟨hs, nofun, fun _ _ => hs.undone⟩
      | ok =>
        refine ⟨hs, ?_, nofun⟩
        rintro r ⟨⟩
        exact (ha leaf rfl).confined hh

/-- **Resolved paths stay inside the roots**: at every turn of the walk the names kept spell
the physical path of the directory held and few links have been expanded; the walk ends; each
directory made passed the policy for writing; and what is resolved is where the components
lead physically, on a path the policy allows. -/
theorem resolve_confined (host : PathHost) (opts : ResolveOpts) (tree : FileTree)
    (input : List Char) :
    (∀ s, ReflTransGen (Next host opts) (.start tree (components host.home input)) s →
      s.tree.At s.names s.cur ∧ s.hops ≤ maxSymlinkHops) ∧
    (∃ last, ReflTransGen (Next host opts) (.start tree (components host.home input)) last ∧
      ∀ t, ¬ Next host opts last t) ∧
    (∀ c ∈ (resolve host opts tree input).walked.created,
      ∃ p, (resolve host opts tree input).walked.tree.At p c.1 ∧
        opts.policy.Allows .write (p ++ [c.2])) ∧
    ∀ r, (resolve host opts tree input).result = .ok r →
      Confined opts (components host.home input) (resolve host opts tree input) r := by
  have hst : Kept opts tree (components host.home input)
      (.start tree (components host.home input)) := by
    rw [components]
    split
    · exact (Kept.start : Kept opts tree (splitComponents []) _)
    · exact Kept.start
  have hs := resolve_safe host opts tree input
  refine ⟨?_, ?_, hs.sound.made, hs.confined⟩
  · intro s hr
    have hk := hst.run hr
    exact ⟨hk.spelled, hk.hops_le⟩
  · obtain ⟨last, hr, ⟨u, leaf, ht, -⟩ | ⟨u, e, ht, -⟩⟩ := walk_ends host opts
      (.start tree (components host.home input))
    all_goals
      refine ⟨last, hr, ?_⟩
      intro t hn
      rw [Next, ht] at hn
      cases hn

/-! An absolute link in the root, to `/srv/../srv` which does not exist yet. -/

/-- A root with one link. -/
def linkedTree : FileTree where
  entry d n := if d = 0 ∧ n = ['l'] then some (.link (some "/srv/../srv".toList)) else none
  up _ := 0
  next := 1
  next_pos := Nat.one_pos
  up_root := rfl
  up_child := by
    intro d n c held
    split at held <;> cases held
  named_once := by
    intro d n n' c held
    split at held <;> cases held
  root_free := by
    intro d n held
    split at held <;> cases held
  child_lt := by
    intro d n c held
    split at held <;> cases held
  unmade := by
    intro d n hge
    exact if_neg (by omega)

/-- A system that reports no paths and never fails. -/
def plainHost : PathHost where
  home := none
  linux := false
  report _ _ := none
  report_at := nofun
  openFault _ _ := none
  statFault _ _ := none
  readLinkFault _ _ := none
  makeDirFault _ _ := none
  probeFault _ := none
  synced _ := true

/-- Writing below `/srv`, parents made where they are missing. -/
def srvOpts : ResolveOpts where
  followLast := true
  makeParents := true
  policy :=
    { roots := [["srv".toList]]
      rootsRequired := true
      «protected» := [⟨["srv".toList, "State".toList], true, .readWrite⟩]
      lower := List.map Char.toLower
      secretScope _ := false
      guard _ _ := .passes }
  access := .write
  cancelled _ := false

/-- The tree once `/srv` is made. -/
def linkedTreeWithSrv : FileTree := linkedTree.withDir 0 "srv".toList Nat.one_pos

theorem walk_linked :
    walk plainHost srvOpts (.start linkedTree ["l".toList, "x".toList]) =
      (⟨linkedTreeWithSrv, 1, ["srv".toList], [], 1, [(0, "srv".toList)]⟩,
        .ok (some "x".toList)) := by
  have hli : Next plainHost srvOpts (.start linkedTree ["l".toList, "x".toList])
      ⟨linkedTree, 0, [], ["srv".toList, "..".toList, "srv".toList, "x".toList], 1, []⟩ := rfl
  have hme : Next plainHost srvOpts
      ⟨linkedTree, 0, [], ["srv".toList, "..".toList, "srv".toList, "x".toList], 1, []⟩
      ⟨linkedTreeWithSrv, 1, ["srv".toList], ["..".toList, "srv".toList, "x".toList], 1,
        [(0, "srv".toList)]⟩ := rfl
  have hup : Next plainHost srvOpts
      ⟨linkedTreeWithSrv, 1, ["srv".toList], ["..".toList, "srv".toList, "x".toList], 1,
        [(0, "srv".toList)]⟩
      ⟨linkedTreeWithSrv, 0, [], ["srv".toList, "x".toList], 1, [(0, "srv".toList)]⟩ := rfl
  have hdw : Next plainHost srvOpts
      ⟨linkedTreeWithSrv, 0, [], ["srv".toList, "x".toList], 1, [(0, "srv".toList)]⟩
      ⟨linkedTreeWithSrv, 1, ["srv".toList], ["x".toList], 1, [(0, "srv".toList)]⟩ := rfl
  rw [walk_next hli, walk_next hme, walk_next hup, walk_next hdw]
  exact walk_finished rfl

theorem resolve_linked :
    (resolve plainHost srvOpts linkedTree "/l/x".toList).result =
      .ok ⟨1, ["srv".toList], "x".toList, [(0, "srv".toList)]⟩ := by
  have hea : expand plainHost.home "/l/x".toList = .ok "/l/x".toList := rfl
  have hc : splitComponents "/l/x".toList = ["l".toList, "x".toList] := rfl
  rw [resolve, hea]
  simp only [hc, walk_linked]
  rfl

theorem resolve_confined_linked :
    ∃ r, (resolve plainHost srvOpts linkedTree "/l/x".toList).result = .ok r ∧
      Confined srvOpts ["l".toList, "x".toList]
        (resolve plainHost srvOpts linkedTree "/l/x".toList) r ∧
      r.fullPath = ["srv".toList, "x".toList] :=
  ⟨_, resolve_linked,
    (resolve_confined plainHost srvOpts linkedTree "/l/x".toList).2.2.2 _ resolve_linked, rfl⟩

end ModelProxy.FilePath
