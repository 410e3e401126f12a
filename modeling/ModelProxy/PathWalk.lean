import Mathlib.Algebra.Ring.Nat
import ModelProxy.PathPolicy

/-! # Resolving a path of the file tools

`resolve` walks from the root one name at a time on held directories: a name is opened
without following it, a link's target is put in front of the names that remain, `..` opens
the parent of the directory held, and a missing parent may be made on the way.  Beside the
directory the walk keeps the names it went through, for systems that cannot tell the path of
a held directory.

One turn of the loop is `walkStep`; `walk` repeats it.  It ends because a turn either takes a
name or expands a link, and at most `maxSymlinkHops` links are expanded.
-/
namespace ModelProxy.FilePath

/-- MAX_SYMLINK_HOPS -/
def maxSymlinkHops : ℕ := 40

/-- MAX_PATH_BYTES -/
def maxPathBytes : ℕ := 4096

/-- The system under the walk.  Where it reports the path of a held directory it reports the
physical one; calls may fail for reasons of their own. -/
structure PathHost where
  home : Option (List Char)
  linux : Bool
  report : FileTree → ℕ → Option (List FileName)
  report_at : ∀ t d p, report t d = some p → t.At p d
  /-- Failures other than those the tree explains, by name. -/
  openFault : ℕ → FileName → Option String
  statFault : ℕ → FileName → Option String
  readLinkFault : ℕ → FileName → Option String
  makeDirFault : ℕ → FileName → Option String
  /-- The sync of a directory before it is changed, and of a changed one. -/
  probeFault : ℕ → Option Errno
  synced : ℕ → Bool

/-- What a caller asks of the walk. -/
structure ResolveOpts where
  followLast : Bool
  makeParents : Bool
  policy : Policy
  access : Access
  /-- Whether the call is cancelled, asked before each directory is made. -/
  cancelled : ℕ → Bool

/-! ## Calls on held directories -/

namespace PathHost
variable (host : PathHost)

/-- Opens a directory without following a link. -/
def openDirAt (t : FileTree) (d : ℕ) (n : FileName) : Except Errno ℕ :=
  match host.openFault d n with
  | some name => .error (.other name)
  | none =>
    if n = parentName then .ok (t.up d)
    else
      match t.entry d n with
      | some (.dir c) => .ok c
      | some .file => .error .ENOTDIR
      | some (.link _) => .error (if host.linux then .ENOTDIR else .ELOOP)
      | none => .error .ENOENT

/-- `fstatat` without following a link. -/
def statAt (t : FileTree) (d : ℕ) (n : FileName) : Except Errno TreeEntry :=
  match host.statFault d n with
  | some name => .error (.other name)
  | none =>
    match t.entry d n with
    | some entry => .ok entry
    | none => .error .ENOENT

/-- The text of a link, and nothing for what is no link. -/
def readLinkAt (t : FileTree) (d : ℕ) (n : FileName) : Except Errno (Option (List Char)) :=
  match host.readLinkFault d n with
  | some name => .error (.other name)
  | none =>
    match t.entry d n with
    | some (.link target) => .ok target
    | some _ => .error .EINVAL
    | none => .error .ENOENT

/-- Makes a directory under another. -/
def makeDirAt (t : FileTree) (d : ℕ) (n : FileName) : Except Errno FileTree :=
  match host.makeDirFault d n with
  | some name => .error (.other name)
  | none =>
    if hd : d < t.next then
      match t.entry d n with
      | some _ => .error .EEXIST
      | none => .ok (t.withDir d n hd)
    else .error .ENOENT

/-- The physical path of a held directory, when the system can tell it. -/
def fdPath (t : FileTree) (d : ℕ) : Option (List FileName) :=
  if host.linux then host.report t d else none

end PathHost

/-- The error for what stopped the walk. -/
def barrierError : Errno → FileError
  | .EINVAL | .ENOTSUP => .unsafeFilesystem
  | errno => .errno errno

/-! ## The walk -/

/-- `PathBuf::join`: an absolute path replaces what it is joined to. -/
def joinPath (base rest : List Char) : List Char :=
  if rest.head? = some '/' then rest
  else if base.getLast? = some '/' then base ++ rest
  else base ++ '/' :: rest

/-- Absolute or `~/…`, no NUL, at most `maxPathBytes`. -/
def expand (home : Option (List Char)) (input : List Char) : Except FileError (List Char) :=
  if input = [] ∨ maxPathBytes < (input.map Char.utf8Size).sum then
    .error (.invalid "path must be 1 to 4096 bytes")
  else if '\x00' ∈ input then .error (.invalid "path contains a NUL byte")
  else if input = ['~'] ∨ ['~', '/'] <+: input then
    match home with
    | none => .error (.invalid "cannot determine the home directory")
    | some home => .ok (joinPath home ((input.dropPrefix? ['~', '/']).getD []))
  else if input.head? = some '/' then .ok input
  else .error (.invalid "path must be absolute or start with ~/")

/-- The variables of the loop.  `created` has the parent and the name of each directory
made. -/
structure Walk where
  tree : FileTree
  cur : ℕ
  names : List FileName
  remaining : List FileName
  hops : ℕ
  created : List (ℕ × FileName)

/-- A walk from the root. -/
def Walk.start (tree : FileTree) (remaining : List FileName) : Walk :=
  ⟨tree, 0, [], remaining, 0, []⟩

/-- What one turn of the loop comes to. -/
inductive Progress where
  | next (s : Walk)
  | finished (s : Walk) (leaf : Option FileName)
  | failed (error : FileError) (s : Walk)

section
variable (host : PathHost) (opts : ResolveOpts)

/-- Put the target of the link `comp` in front of what remains. -/
def spliceLink (s : Walk) (comp : FileName) (rest : List FileName) : Progress :=
  match host.readLinkAt s.tree s.cur comp with
  | .error .EINVAL => .failed ⟨.notADir, "a path component is not a directory"⟩ s
  | .error errno => .failed (.errno errno) s
  | .ok target =>
    if maxSymlinkHops < s.hops + 1 then .failed ⟨.ioError, "ELOOP"⟩ s
    else
      match target with
      | none => .failed (.invalid "symlink target is not valid UTF-8") s
      | some target =>
        if '\x00' ∈ target then .failed (.invalid "symlink target contains a NUL byte") s
        else
          let absolute := target.head? = some '/'
          .next { s with
            cur := if absolute then 0 else s.cur
            names := if absolute then [] else s.names
            remaining := splitComponents target ++ rest
            hops := s.hops + 1 }

/-- The path of the directory held: what the system reports, or the names kept. -/
def Walk.dirPath (s : Walk) : List FileName := (host.fdPath s.tree s.cur).getD s.names

/-- Make the missing parent `comp` and hold it. -/
def createParent (s : Walk) (comp : FileName) (rest : List FileName) : Progress :=
  if opts.cancelled s.created.length then .failed .cancelled s
  else
    match opts.policy.checkPath .write (s.dirPath host ++ [comp]) with
    | .error e => .failed e s
    | .ok () =>
      match host.probeFault s.cur with
      | some errno => .failed (barrierError errno) s
      | none =>
        match host.makeDirAt s.tree s.cur comp with
        | .error errno => .failed (.errno errno) s
        | .ok tree =>
          let made := { s with tree, created := s.created ++ [(s.cur, comp)] }
          match host.openDirAt tree s.cur comp with
          | .error errno => .failed (.errno errno) made
          | .ok fd =>
            if host.synced fd && host.synced s.cur then
              .next { made with cur := fd, names := s.names ++ [comp], remaining := rest }
            else .failed .mutationUncertain made

/-- The last name: a link is followed where the call asks for it, anything else is the leaf,
also what does not exist. -/
def lastStep (s : Walk) (comp : FileName) : Progress :=
  match host.statAt s.tree s.cur comp with
  | .ok (.link _) =>
    if opts.followLast then spliceLink host s comp []
    else .finished { s with remaining := [] } (some comp)
  | .ok _ => .finished { s with remaining := [] } (some comp)
  | .error .ENOENT => .finished { s with remaining := [] } (some comp)
  | .error errno => .failed (.errno errno) s

/-- **One turn of the loop of `resolve`.** -/
def walkStep (s : Walk) : Progress :=
  match s.remaining with
  | [] => .finished s none
  | comp :: rest =>
    if comp = parentName then
      match host.openDirAt s.tree s.cur parentName with
      | .error errno => .failed (.errno errno) s
      | .ok fd => .next { s with cur := fd, names := s.names.dropLast, remaining := rest }
    else if rest = [] then lastStep host opts s comp
    else
      match host.openDirAt s.tree s.cur comp with
      | .ok fd => .next { s with cur := fd, names := s.names ++ [comp], remaining := rest }
      | .error .ELOOP | .error .ENOTDIR => spliceLink host s comp rest
      | .error .ENOENT =>
        if opts.makeParents then createParent host opts s comp rest
        else .failed (.errno .ENOENT) s
      | .error errno => .failed (.errno errno) s

variable {host opts} {s t : Walk} {comp : FileName} {rest : List FileName}

/-! ## What a turn can do -/

/-- The state after `comp` was made in the directory held, which is held still. -/
def Walk.withMade (s : Walk) (comp : FileName) (hd : s.cur < s.tree.next) : Walk :=
  { s with tree := s.tree.withDir s.cur comp hd, created := s.created ++ [(s.cur, comp)] }

variable (host opts) in
/-- A parent that was missing and may be made. -/
structure Missing (s : Walk) (comp : FileName) (hd : s.cur < s.tree.next) : Prop where
  plain : comp ≠ parentName
  free : s.tree.entry s.cur comp = none
  allowed : opts.policy.checkPath .write (s.dirPath host ++ [comp]) = .ok ()

variable (host opts) in
/-- **The turns that go on**: to the parent, into a directory, along a link, into a directory
just made. -/
inductive Turn : Walk → Walk → Prop
  | up {s : Walk} {rest : List FileName} (more : s.remaining = parentName :: rest) :
      Turn s { s with cur := s.tree.up s.cur, names := s.names.dropLast, remaining := rest }
  | down {s : Walk} {comp : FileName} {rest : List FileName} {c : ℕ}
      (more : s.remaining = comp :: rest) (plain : comp ≠ parentName)
      (held : s.tree.entry s.cur comp = some (.dir c)) :
      Turn s { s with cur := c, names := s.names ++ [comp], remaining := rest }
  | link {s : Walk} {comp : FileName} {rest : List FileName} {target : List Char}
      (more : s.remaining = comp :: rest) (plain : comp ≠ parentName)
      (held : s.tree.entry s.cur comp = some (.link (some target)))
      (hops : s.hops + 1 ≤ maxSymlinkHops) :
      Turn s { s with
        cur := if target.head? = some '/' then 0 else s.cur
        names := if target.head? = some '/' then [] else s.names
        remaining := splitComponents target ++ rest
        hops := s.hops + 1 }
  | made {s : Walk} {comp : FileName} {rest : List FileName} {hd : s.cur < s.tree.next}
      (more : s.remaining = comp :: rest) (missing : Missing host opts s comp hd) :
      Turn s { s.withMade comp hd with
        cur := s.tree.next, names := s.names ++ [comp], remaining := rest }

variable {tree : FileTree} {d : ℕ}

theorem readLinkAt_ok {target : Option (List Char)} (h : host.readLinkAt tree d comp = .ok target) :
    tree.entry d comp = some (.link target) := by
  rw [PathHost.readLinkAt] at h
  split at h
  · cases h
  split at h
  · rename_i held
    cases h
    exact held
  · cases h
  · cases h

theorem openDirAt_ok {c : ℕ} (hp : comp ≠ parentName) (h : host.openDirAt tree d comp = .ok c) :
    tree.entry d comp = some (.dir c) := by
  rw [PathHost.openDirAt] at h
  split at h
  · cases h
  rw [if_neg hp] at h
  split at h
  · rename_i held
    cases h
    exact held
  · cases h
  · cases h
  · cases h

theorem openDirAt_parent {c : ℕ} (h : host.openDirAt tree d parentName = .ok c) :
    c = tree.up d := by
  rw [PathHost.openDirAt] at h
  split at h
  · cases h
  · cases h
    rfl

theorem makeDirAt_ok {u : FileTree} (h : host.makeDirAt tree d comp = .ok u) :
    ∃ hd : d < tree.next, tree.entry d comp = none ∧ u = tree.withDir d comp hd := by
  rw [PathHost.makeDirAt] at h
  split at h
  · cases h
  split at h
  · rename_i hd
    split at h
    · cases h
    · rename_i free
      cases h
      exact ⟨hd, free, rfl⟩
  · cases h

variable (host opts) in
/-- What a turn comes to: it goes on by a `Turn`; it ends with nothing left to follow, or at
the leaf; or it fails where it was, perhaps with a directory made. -/
def Progress.Explained (s : Walk) : Progress → Prop
  | .next t => Turn host opts s t
  | .finished t none => s.remaining = [] ∧ t = s
  | .finished t (some leaf) => s.remaining = [leaf] ∧ t = { s with remaining := [] } ∧
      leaf ≠ parentName ∧
      (opts.followLast = true → ∀ target, s.tree.entry s.cur leaf ≠ some (.link target))
  | .failed _ t => t = s ∨ ∃ comp hd, Missing host opts s comp hd ∧ t = s.withMade comp hd

/-- What following a link does. -/
theorem spliceLink_explained (hmo : s.remaining = comp :: rest) (hp : comp ≠ parentName) :
    (spliceLink host s comp rest).Explained host opts s := by
  rw [spliceLink]
  split
  · exact .inl rfl
  · exact .inl rfl
  rename_i target hrd
  have held := readLinkAt_ok hrd
  split
  · exact .inl rfl
  rename_i hhp
  cases target with
  | none => exact .inl rfl
  | some target =>
    simp only
    split
    · exact .inl rfl
    · exact Turn.link hmo hp held (by omega)

/-- What making a parent does. -/
theorem createParent_explained (hmo : s.remaining = comp :: rest) (hp : comp ≠ parentName) :
    (createParent host opts s comp rest).Explained host opts s := by
  rw [createParent]
  split
  · exact .inl rfl
  split
  · exact .inl rfl
  rename_i ha
  split
  · exact .inl rfl
  split
  · exact .inl rfl
  rename_i tree hk
  obtain ⟨hd, free, rfl⟩ := makeDirAt_ok hk
  have hm : Missing host opts s comp hd := ⟨hp, free, ha⟩
  split
  · exact .inr ⟨comp, hd, hm, rfl⟩
  rename_i fd hop
  -- the directory opened is the one just made
  have hfd := openDirAt_ok hp hop
  rw [FileTree.withDir_entry hd] at hfd
  cases hfd
  split
  · exact Turn.made hmo hm
  · exact .inr ⟨comp, hd, hm, rfl⟩

/-- What the last step does. -/
theorem lastStep_explained (hmo : s.remaining = [comp]) (hp : comp ≠ parentName) :
    (lastStep host opts s comp).Explained host opts s := by
  rw [lastStep]
  split
  · split
    · exact spliceLink_explained hmo hp
    · rename_i hla
      exact ⟨hmo, rfl, hp, fun h => absurd h hla⟩
  · rename_i entry hkd hs
    refine ⟨hmo, rfl, hp, fun _ target held => ?_⟩
    rw [PathHost.statAt, held] at hs
    split at hs
    · cases hs
    · cases hs
      exact hkd target rfl
  · rename_i hs
    refine ⟨hmo, rfl, hp, fun _ target held => ?_⟩
    rw [PathHost.statAt, held] at hs
    split at hs
    · cases hs
    · cases hs
  · exact .inl rfl

/-- **Every turn is one of these.** -/
theorem walkStep_explained (s : Walk) : (walkStep host opts s).Explained host opts s := by
  rw [walkStep]
  split
  · rename_i hno
    exact ⟨hno, rfl⟩
  rename_i comp rest hmo
  by_cases hup : comp = parentName
  · subst hup
    rw [if_pos rfl]
    split
    · exact .inl rfl
    · rename_i fd hop
      rw [openDirAt_parent hop]
      exact Turn.up hmo
  · rw [if_neg hup]
    by_cases hr : rest = []
    · subst hr
      exact lastStep_explained hmo hup
    rw [if_neg hr]
    split
    · rename_i fd hop
      exact Turn.down hmo hup (openDirAt_ok hup hop)
    · exact spliceLink_explained hmo hup
    · exact spliceLink_explained hmo hup
    · split
      · exact createParent_explained hmo hup
      · exact .inl rfl
    · exact .inl rfl

theorem turn_of_next (h : walkStep host opts s = .next t) : Turn host opts s t := by
  have he : (walkStep host opts s).Explained host opts s := walkStep_explained s
  rw [h] at he
  exact he

/-- A turn expands a link, of which there are few, or takes a name. -/
theorem Turn.decreases (h : Turn host opts s t) :
    Prod.Lex (· < ·) (· < ·) (maxSymlinkHops - t.hops, t.remaining.length)
      (maxSymlinkHops - s.hops, s.remaining.length) := by
  cases h with
  | up more | down more | made more =>
    refine Prod.Lex.right _ ?_
    rw [more]
    exact Nat.lt_succ_self _
  | link more plain held ho =>
    refine Prod.Lex.left _ _ ?_
    show maxSymlinkHops - (s.hops + 1) < maxSymlinkHops - s.hops
    omega

end

/-! ## The loop and its result -/

/-- The loop of `resolve`, with the state it ended in and the leaf it found.  It ends,
whatever links the tree has. -/
def walk (host : PathHost) (opts : ResolveOpts) (s : Walk) :
    Walk × Except FileError (Option FileName) :=
  match _h : walkStep host opts s with
  | .next t => walk host opts t
  | .finished t leaf => (t, .ok leaf)
  | .failed e t => (t, .error e)
termination_by (maxSymlinkHops - s.hops, s.remaining.length)
decreasing_by exact (turn_of_next (by assumption)).decreases

section
variable {host : PathHost} {opts : ResolveOpts} {s t : Walk}

theorem walk_next (h : walkStep host opts s = .next t) :
    walk host opts s = walk host opts t := by
  rw [walk]
  split <;> rename_i h' <;> rw [h] at h' <;> cases h'
  rfl

theorem walk_finished {leaf : Option FileName} (h : walkStep host opts s = .finished t leaf) :
    walk host opts s = (t, .ok leaf) := by
  rw [walk]
  split <;> rename_i h' <;> rw [h] at h' <;> cases h'
  rfl

theorem walk_failed {e : FileError} (h : walkStep host opts s = .failed e t) :
    walk host opts s = (t, .error e) := by
  rw [walk]
  split <;> rename_i h' <;> rw [h] at h' <;> cases h'
  rfl

end

/-- A held directory and the name of the leaf in it; `.` names the directory itself. -/
structure Resolved where
  dir : ℕ
  dirPath : List FileName
  name : FileName
  created : List (ℕ × FileName)

/-- The physical path of the object. -/
def Resolved.fullPath (r : Resolved) : List FileName :=
  if r.name = dotName then r.dirPath else r.dirPath ++ [r.name]

/-- Undo the directories made, newest first. -/
def rollbackCreated (created : List (ℕ × FileName)) (tree : FileTree) : FileTree :=
  created.foldr (fun c t => t.withoutEntry c.1 c.2) tree

/-- The names `resolve` starts to follow. -/
def components (home : Option (List Char)) (input : List Char) : List FileName :=
  match expand home input with
  | .error _ => []
  | .ok expanded => splitComponents expanded

/-- A call of `resolve`: the state its loop ended in, the tree it leaves and its result. -/
structure Resolution where
  walked : Walk
  tree : FileTree
  result : Except FileError Resolved

/-- The policy's verdict on what the walk found. -/
def checkResolved (host : PathHost) (opts : ResolveOpts) (s : Walk) (resolved : Resolved) :
    Except FileError Unit :=
  if (host.fdPath s.tree s.cur).isNone && host.linux then
    .error ⟨.notFound, "directory was removed"⟩
  else opts.policy.checkPath opts.access resolved.fullPath

/-- **Resolve `input` and apply the policy to the result.** -/
def resolve (host : PathHost) (opts : ResolveOpts) (tree : FileTree) (input : List Char) :
    Resolution :=
  match expand host.home input with
  | .error e => ⟨.start tree [], tree, .error e⟩
  | .ok expanded =>
    match walk host opts (.start tree (splitComponents expanded)) with
    | (s, .error e) => ⟨s, rollbackCreated s.created s.tree, .error e⟩
    | (s, .ok leaf) =>
      let resolved : Resolved := ⟨s.cur, s.dirPath host, leaf.getD dotName, s.created⟩
      match checkResolved host opts s resolved with
      | .error e => ⟨s, rollbackCreated s.created s.tree, .error e⟩
      | .ok () => ⟨s, s.tree, .ok resolved⟩

end ModelProxy.FilePath
