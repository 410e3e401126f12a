import ModelProxy.FileTree
import Mathlib.Data.List.DropRight

/-! # The path policy of the file tools

Every decision about a path is taken on a physical path, here the list of its names.
`checkPath` refuses special trees, protected files of the program itself, the names its own
recovery and staging use, secret places for anything but reading, and, with roots configured,
whatever is not below one.

Protected entries are compared *folded*: lower-cased, ligatures written out, and without the
dots and blanks at the end of a name.  Folding works name by name, so that it keeps "below"
(`foldPath_append`): an allowed path is outside the protected entries as they are written too
(`Policy.Allows`, `checkPath_allows`).
-/
namespace ModelProxy.FilePath
open List

/-! ## Errors -/

/-- The codes of a failed operation. -/
inductive ErrorCode
  | pathDenied | secretFile | notFound | notADir | exists | specialFile | ioError | invalidInput
  | unsafeFilesystem | cancelled
deriving DecidableEq, Repr

/-- How an operation fails. -/
structure FileError where
  code : ErrorCode
  message : String
deriving DecidableEq, Repr

namespace FileError

/-- The path is not well formed. -/
def invalid (message : String) : FileError := ⟨.invalidInput, message⟩

/-- The policy refuses the path. -/
def denied (message : String) : FileError := ⟨.pathDenied, message⟩

/-- Nobody knows whether the change was made. -/
def mutationUncertain : FileError := ⟨.ioError, "the mutation outcome is unknown"⟩

/-- The filesystem cannot make the change safely. -/
def unsafeFilesystem : FileError :=
  ⟨.unsafeFilesystem, "this filesystem lacks the atomic primitives to change this path without " ++
    "risking a concurrent save; nothing was changed"⟩

/-- The caller has cancelled. -/
def cancelled : FileError := ⟨.cancelled, "the operation was cancelled"⟩

end FileError

/-- What a call of the system fails with; every other number by its name. -/
inductive Errno
  | ENOENT | ENOTDIR | ELOOP | EEXIST | EINVAL | ENOTSUP
  | other (name : String)
deriving DecidableEq, Repr

/-- The name of an error number. -/
def Errno.name : Errno → String
  | .ENOENT => "ENOENT"
  | .ENOTDIR => "ENOTDIR"
  | .ELOOP => "ELOOP"
  | .EEXIST => "EEXIST"
  | .EINVAL => "EINVAL"
  | .ENOTSUP => "ENOTSUP"
  | .other name => name

/-- The error of an error number. -/
def FileError.errno : Errno → FileError
  | .ENOENT => ⟨.notFound, "no such file or directory"⟩
  | .ENOTDIR => ⟨.notADir, "a path component is not a directory"⟩
  | .EEXIST => ⟨.exists, "already exists"⟩
  | other => ⟨.ioError, other.name⟩

/-! ## Folded names -/

/-- The ligature-style folds that case-insensitive file systems apply. -/
def foldLigature : Char → List Char
  | 'ſ' => ['s']
  | 'ß' | 'ẞ' => ['s', 's']
  | 'ﬀ' => ['f', 'f']
  | 'ﬁ' => ['f', 'i']
  | 'ﬂ' => ['f', 'l']
  | 'ﬃ' => ['f', 'f', 'i']
  | 'ﬄ' => ['f', 'f', 'l']
  | 'ﬅ' | 'ﬆ' => ['s', 't']
  | other => [other]

/-- `fold` of one name; `lower` is the lower-casing of the language, whose context ends at a
separator. -/
def foldName (lower : FileName → FileName) (name : FileName) : FileName :=
  let part := (lower name).flatMap foldLigature
  if part = dotName ∨ part = parentName then part
  else part.rdropWhile fun c => c = '.' || c = ' '

/-- The components of a folded path: a name of dots and blanks folds to nothing. -/
def foldPath (lower : FileName → FileName) (path : List FileName) : List FileName :=
  (path.map (foldName lower)).filter fun c => c ≠ [] && c ≠ dotName

theorem foldPath_append (lower : FileName → FileName) (p q : List FileName) :
    foldPath lower (p ++ q) = foldPath lower p ++ foldPath lower q := by
  simp [foldPath]

/-- Folding keeps "below". -/
theorem foldPath_below {lower : FileName → FileName} {p q : List FileName} (h : p <+: q) :
    foldPath lower p <+: foldPath lower q := by
  obtain ⟨rest, rfl⟩ := h
  exact ⟨foldPath lower rest, (foldPath_append lower p rest).symm⟩

/-! ## Names of the file tools' own -/

/-- An ASCII letter or digit. -/
def isAsciiAlphanumeric (c : Char) : Bool := c.isAlphanum

/-- The ten letters and digits a recovery directory and a staged file end in. -/
def isTag (suffix : FileName) : Bool := suffix.length = 10 && suffix.all isAsciiAlphanumeric

/-- The name of a recovery directory, or of its lock. -/
def recoveryName (name : FileName) : Bool :=
  let name := (name.dropPrefix? ".wsmp-lock-".toList).getD name
  match name.dropPrefix? ".wsmp-recover-".toList with
  | some suffix => isTag suffix
  | none => false

/-- A path through a recovery directory. -/
def isRecoveryPath (lower : FileName → FileName) (path : List FileName) : Bool :=
  (path.map (foldName lower)).any recoveryName

/-- `rsplit_once`: what stands behind the last occurrence of `sep`. -/
def afterLast (sep : List Char) : List Char → Option (List Char)
  | [] => none
  | c :: text => (afterLast sep text).orElse fun _ => (c :: text).dropPrefix? sep

/-- `.<name>.wsmp-<tag>`, the name a replacement is staged under. -/
def isStagingName (lower : FileName → FileName) (path : List FileName) : Bool :=
  match (path.map (foldName lower)).getLast?.getD [] with
  | '.' :: rest => (afterLast ".wsmp-".toList rest).any isTag
  | _ => false

/-! ## The policy -/

/-- What an operation does with a path. -/
inductive Access
  | read | write | remove
deriving DecidableEq, Repr

/-- What an entry of the policy denies. -/
inductive Deny
  | readWrite | writeOnly
deriving DecidableEq, Repr

/-- An entry of the policy. -/
structure Protected where
  path : List FileName
  /-- The entry covers everything below `path` too. -/
  subtree : Bool
  deny : Deny
deriving DecidableEq, Repr

/-- Whether an entry denies an access. -/
def Deny.blocks : Deny → Access → Bool
  | .readWrite, _ => true
  | .writeOnly, access => access ≠ .read

/-- What the kernel's second guard says of a path below a root. -/
inductive Guard
  | passes | unavailable | refused
deriving DecidableEq, Repr

/-- The policy in force: the roots as resolved at the start, none usable where one was not. -/
structure Policy where
  roots : List (List FileName)
  rootsRequired : Bool
  «protected» : List Protected
  /-- The lower-casing of a name, the classification of secret places and the kernel's guard
  of a path below a root. -/
  lower : FileName → FileName
  secretScope : List FileName → Bool
  guard : List FileName → List FileName → Guard

/-- The kernel's own trees. -/
def specialTrees : List (List FileName) := [["proc".toList], ["sys".toList], ["dev".toList]]

namespace Policy
variable (policy : Policy)

/-- One protected entry against the folded path. -/
def checkEntry (access : Access) (folded : List FileName) (entry : Protected) :
    Except FileError Unit :=
  let entryPath := foldPath policy.lower entry.path
  let inside := folded = entryPath || (entry.subtree && entryPath.isPrefixOf folded)
  if inside && entry.deny.blocks access then .error (.denied "path is protected by wsmp")
  else if access = .remove && folded.isPrefixOf entryPath then
    .error (.denied "path contains protected wsmp files and cannot be removed or moved")
  else .ok ()

/-- No entry denies the path. -/
def checkEntries (access : Access) (folded : List FileName) :
    List Protected → Except FileError Unit
  | [] => .ok ()
  | entry :: rest =>
    match policy.checkEntry access folded entry with
    | .error e => .error e
    | .ok () => checkEntries access folded rest

/-- The path-text policy. -/
def checkText (access : Access) (full : List FileName) : Except FileError Unit :=
  if specialTrees.any (·.isPrefixOf full) then
    .error ⟨.specialFile, "this tree holds special files and is not accessible"⟩
  else if access ≠ .read && isRecoveryPath policy.lower full then
    .error (.denied "file recovery locations are read-only; use the shell for recovery")
  else if access ≠ .read && isStagingName policy.lower full then
    .error (.denied "temporary files of the file tools are not accessible")
  else if access ≠ .read && policy.secretScope full then
    .error ⟨.secretFile,
      "secret files and their directories are read-only through the file tools"⟩
  else policy.checkEntries access (foldPath policy.lower full) policy.protected

/-- The path is under one of the roots, where roots are required. -/
def withinRoots (full : List FileName) : Bool :=
  !policy.rootsRequired || policy.roots.any (·.isPrefixOf full)

/-- The root as it was at the start, and the kernel's guard below it. -/
def checkBeneath (full : List FileName) : Except FileError Unit :=
  if policy.rootsRequired then
    match policy.roots.find? (·.isPrefixOf full) with
    | none => .error (.denied "path is outside the configured file roots")
    | some root =>
      match policy.guard root full with
      | .passes => .ok ()
      | .unavailable => .error (.denied "configured file root is unavailable")
      | .refused => .error (.denied "path failed the kernel file-root guard")
  else .ok ()

/-- The decision on the physical path `full`. -/
def checkPath (access : Access) (full : List FileName) : Except FileError Unit :=
  match policy.checkText access full with
  | .error e => .error e
  | .ok () =>
    if policy.withinRoots full then policy.checkBeneath full
    else .error (.denied "path is outside the configured file roots")

/-! ## What an allowed path is -/

/-- **What the policy is for**: the path is below a configured root, outside the special
trees and outside every entry denied for the access; what is removed holds none. -/
structure Allows (access : Access) (full : List FileName) : Prop where
  rooted : policy.rootsRequired = true → ∃ root ∈ policy.roots, root <+: full
  ordinary : ∀ tree ∈ specialTrees, ¬ tree <+: full
  outside : ∀ entry ∈ policy.protected, entry.deny.blocks access = true →
    full ≠ entry.path ∧ (entry.subtree = true → ¬ entry.path <+: full)
  holdsNone : access = .remove → ∀ entry ∈ policy.protected, ¬ full <+: entry.path

variable {policy} {access : Access} {full : List FileName}

/-- What an entry lets through. -/
theorem checkEntry_ok {e : Protected}
    (h : policy.checkEntry access (foldPath policy.lower full) e = .ok ()) :
    (e.deny.blocks access = true → full ≠ e.path ∧ (e.subtree = true → ¬ e.path <+: full)) ∧
      (access = .remove → ¬ full <+: e.path) := by
  simp only [checkEntry] at h
  split at h
  · cases h
  rename_i hin
  split at h
  · cases h
  rename_i hh
  simp only [Bool.and_eq_true, Bool.or_eq_true, decide_eq_true_eq, isPrefixOf_iff_prefix,
    not_and] at hin hh
  constructor
  · intro hl
    constructor
    · rintro rfl
      exact hin (.inl rfl) hl
    · intro hs hb
      exact hin (.inr ⟨hs, foldPath_below hb⟩) hl
  · intro hr hb
    exact hh hr (foldPath_below hb)

theorem checkEntries_ok {es : List Protected}
    (h : policy.checkEntries access (foldPath policy.lower full) es = .ok ()) :
    ∀ e ∈ es, policy.checkEntry access (foldPath policy.lower full) e = .ok () := by
  induction es with
  | nil => exact nofun
  | cons e rest ih =>
    rw [checkEntries] at h
    split at h
    · cases h
    · rename_i he
      intro other ho
      rcases mem_cons.mp ho with rfl | hr
      · exact he
      · exact ih h other hr

/-- What the text check lets through. -/
theorem checkText_ok (h : policy.checkText access full = .ok ()) :
    (∀ tree ∈ specialTrees, ¬ tree <+: full) ∧
      policy.checkEntries access (foldPath policy.lower full) policy.protected = .ok () := by
  rw [checkText] at h
  split at h
  · cases h
  rename_i hs
  refine ⟨fun tree ht hb => hs ?_, ?_⟩
  · exact any_eq_true.mpr ⟨tree, ht, isPrefixOf_iff_prefix.mpr hb⟩
  split at h
  · cases h
  · split at h
    · cases h
    · split at h
      · cases h
      · exact h

/-- The path is below a root where roots are required. -/
theorem withinRoots_iff :
    policy.withinRoots full = true ↔
      (policy.rootsRequired = true → ∃ root ∈ policy.roots, root <+: full) := by
  simp only [withinRoots, Bool.or_eq_true, Bool.not_eq_true', any_eq_true, isPrefixOf_iff_prefix]
  constructor
  · rintro (hfr | hrt) hr
    · rw [hr] at hfr
      cases hfr
    · exact hrt
  · intro h
    by_cases hr : policy.rootsRequired = true
    · exact .inr (h hr)
    · exact .inl (Bool.eq_false_iff.mpr hr)

/-- **What passes the check is allowed.** -/
theorem checkPath_allows (h : policy.checkPath access full = .ok ()) :
    policy.Allows access full := by
  rw [checkPath] at h
  split at h
  · cases h
  rename_i htx
  obtain ⟨hoi, hes⟩ := checkText_ok htx
  have he := fun e hm => checkEntry_ok (checkEntries_ok hes e hm)
  split at h
  · rename_i hr
    exact
      { rooted := withinRoots_iff.mp hr
        ordinary := hoi
        outside := fun e hm => (he e hm).1
        holdsNone := fun hrm e hm => (he e hm).2 hrm }
  · cases h

end Policy

end ModelProxy.FilePath
