import Mathlib.Data.List.Basic
import Mathlib.Logic.Relation

/-! # Trees of directories, files and symbolic links

A file tree is given by what each directory holds.  Directories are numbers, as a held
descriptor is: `0` is the root, and `next` the number the next directory gets.  The laws of a
tree are fields: a directory has one parent and one name in it, and the root is nobody's
child.

`At path d` says that `d` is the directory of physical path `path`; a directory has at most
one (`At.unique`).  `Follows` is one step of following a path, with links and `..` taken
physically: a position is the directory reached and the names still to follow.
-/
namespace ModelProxy

/-- A file name, or the text of a path. -/
abbrev FileName := List Char

/-- The directory itself. -/
def dotName : FileName := ['.']

/-- The directory above. -/
def parentName : FileName := ['.', '.']

/-- The names of a path's text: `/` separates, and empty names and `.` say nothing. -/
def splitComponents (path : List Char) : List FileName :=
  (path.splitOn '/').filter fun c => c ≠ [] && c ≠ dotName

/-- What a directory holds under a name.  A link's target is `none` where it is not text. -/
inductive TreeEntry where
  | dir (number : ℕ)
  | file
  | link (target : Option (List Char))
  deriving DecidableEq

/-- **A tree of directories, files and symbolic links.** -/
structure FileTree where
  entry : ℕ → FileName → Option TreeEntry
  /-- The directory that `..` opens. -/
  up : ℕ → ℕ
  /-- The number of the next directory made. -/
  next : ℕ
  next_pos : 0 < next
  up_root : up 0 = 0
  up_child : ∀ d n c, entry d n = some (.dir c) → up c = d
  named_once : ∀ d n n' c, entry d n = some (.dir c) → entry d n' = some (.dir c) → n = n'
  root_free : ∀ d n, entry d n ≠ some (.dir 0)
  child_lt : ∀ d n c, entry d n = some (.dir c) → c < next
  unmade : ∀ d n, next ≤ d → entry d n = none

namespace FileTree
variable {t u : FileTree} {d c : ℕ} {n : FileName} {p q : List FileName}

/-- `d` is the directory whose physical path is `p`. -/
inductive At (t : FileTree) : List FileName → ℕ → Prop
  | root : At t [] 0
  | down {p : List FileName} {d : ℕ} {n : FileName} {c : ℕ} (above : At t p d)
      (held : t.entry d n = some (.dir c)) : At t (p ++ [n]) c

theorem At.lt (h : t.At p d) : d < t.next := by
  cases h with
  | root => exact t.next_pos
  | down above held => exact t.child_lt _ _ _ held

/-- `..` drops the last name of the physical path; at the root it stays there. -/
theorem At.up (h : t.At p d) : t.At p.dropLast (t.up d) := by
  cases h with
  | root =>
    rw [t.up_root]
    exact .root
  | down above held =>
    rw [List.dropLast_concat, t.up_child _ _ _ held]
    exact above

/-- **A directory has one physical path.** -/
theorem At.unique (hp : t.At p d) (hq : t.At q d) : p = q := by
  induction hp generalizing q with
  | root =>
    cases hq with
    | root => rfl
    | down above held => exact absurd held (t.root_free _ _)
  | down above held ih =>
    cases hq with
    | root => exact absurd held (t.root_free _ _)
    | down above' held' =>
      -- both parents are the one `..` opens, and they hold it under one name
      have hpe := (t.up_child _ _ _ held).symm.trans (t.up_child _ _ _ held')
      subst hpe
      rw [ih above', t.named_once _ _ _ _ held held']

/-! ## Following a path -/

/-- **One step of following a path physically**: from the directory reached and the names
still to follow. -/
inductive Follows (t : FileTree) : ℕ × List FileName → ℕ × List FileName → Prop
  | up (d : ℕ) (rest : List FileName) : Follows t (d, parentName :: rest) (t.up d, rest)
  | down {d : ℕ} {n : FileName} {c : ℕ} (rest : List FileName) (plain : n ≠ parentName)
      (held : t.entry d n = some (.dir c)) : Follows t (d, n :: rest) (c, rest)
  | link {d : ℕ} {n : FileName} {target : List Char} (rest : List FileName)
      (plain : n ≠ parentName) (held : t.entry d n = some (.link (some target))) :
      Follows t (d, n :: rest)
        (if target.head? = some '/' then 0 else d, splitComponents target ++ rest)

theorem Follows.at_of_at {b : ℕ × List FileName} {rest : List FileName} (hp : t.At p d)
    (h : t.Follows (d, rest) b) : ∃ q, t.At q b.1 := by
  cases h with
  | up d rest => exact ⟨_, hp.up⟩
  | down rest plain held => exact ⟨_, hp.down held⟩
  | @link _ _ target rest plain held =>
    by_cases ha : target.head? = some '/'
    · exact ⟨[], by simpa [ha] using At.root⟩
    · exact ⟨p, by simpa [ha] using hp⟩

/-! ## Making and removing directories -/

/-- `u` holds all that `t` holds. -/
structure Grows (t u : FileTree) : Prop where
  entry_eq : ∀ d n e, t.entry d n = some e → u.entry d n = some e
  up_eq : ∀ d, d < t.next → u.up d = t.up d

theorem At.grows (hp : t.At p d) (hg : t.Grows u) : u.At p d := by
  induction hp with
  | root => exact .root
  | down above held ih => exact ih.down (hg.entry_eq _ _ _ held)

theorem Follows.grows {a b : ℕ × List FileName} (hp : t.At p a.1) (h : t.Follows a b)
    (hg : t.Grows u) : u.Follows a b := by
  cases h with
  | up d rest =>
    rw [← hg.up_eq d hp.lt]
    exact .up d rest
  | down rest plain held => exact .down rest plain (hg.entry_eq _ _ _ held)
  | link rest plain held => exact .link rest plain (hg.entry_eq _ _ _ held)

/-- What was followed in `t` is followed the same way in a tree that holds more. -/
theorem follows_grows {a b : ℕ × List FileName} (hp : t.At p a.1)
    (h : Relation.ReflTransGen t.Follows a b) (hg : t.Grows u) :
    Relation.ReflTransGen u.Follows a b := by
  induction h using Relation.ReflTransGen.head_induction_on generalizing p with
  | refl => exact .refl
  | head step _ ih =>
    obtain ⟨q, hq⟩ := step.at_of_at hp
    exact .head (step.grows hp hg) (ih hq)

/-- The tree with a new empty directory under the name `n` of `d`. -/
def withDir (t : FileTree) (d : ℕ) (n : FileName) (hd : d < t.next) : FileTree where
  entry d' n' := if d' = d ∧ n' = n then some (.dir t.next) else t.entry d' n'
  up c := if c = t.next then d else t.up c
  next := t.next + 1
  next_pos := t.next.succ_pos
  up_root := by
    have := t.next_pos
    rw [if_neg (by omega), t.up_root]
  up_child := by
    intro d' n' c held
    by_cases hnew : d' = d ∧ n' = n
    · rw [if_pos hnew] at held
      cases held
      rw [if_pos rfl, hnew.1]
    · rw [if_neg hnew] at held
      have := t.child_lt _ _ _ held
      rw [if_neg (by omega), t.up_child _ _ _ held]
  named_once := by
    intro d' n₁ n₂ c h₁ h₂
    by_cases hnew₁ : d' = d ∧ n₁ = n <;> by_cases hnew₂ : d' = d ∧ n₂ = n
    · rw [hnew₁.2, hnew₂.2]
    · rw [if_pos hnew₁] at h₁
      rw [if_neg hnew₂] at h₂
      cases h₁
      exact absurd (t.child_lt _ _ _ h₂) (Nat.lt_irrefl _)
    · rw [if_neg hnew₁] at h₁
      rw [if_pos hnew₂] at h₂
      cases h₂
      exact absurd (t.child_lt _ _ _ h₁) (Nat.lt_irrefl _)
    · rw [if_neg hnew₁] at h₁
      rw [if_neg hnew₂] at h₂
      exact t.named_once _ _ _ _ h₁ h₂
  root_free := by
    intro d' n' held
    by_cases hnew : d' = d ∧ n' = n
    · rw [if_pos hnew] at held
      have := t.next_pos
      injection held with held
      injection held with held
      omega
    · rw [if_neg hnew] at held
      exact t.root_free _ _ held
  child_lt := by
    intro d' n' c held
    by_cases hnew : d' = d ∧ n' = n
    · rw [if_pos hnew] at held
      cases held
      exact t.next.lt_succ_self
    · rw [if_neg hnew] at held
      exact Nat.lt_succ_of_lt (t.child_lt _ _ _ held)
  unmade := by
    intro d' n' hge
    rw [if_neg (by omega)]
    exact t.unmade _ _ (by omega)

theorem grows_withDir (hd : d < t.next) (free : t.entry d n = none) :
    t.Grows (t.withDir d n hd) := by
  constructor
  · intro d' n' e held
    have hold : ¬ (d' = d ∧ n' = n) := by
      rintro ⟨rfl, rfl⟩
      rw [free] at held
      cases held
    show (if d' = d ∧ n' = n then _ else _) = _
    rw [if_neg hold, held]
  · intro d' hlt
    show (if d' = t.next then _ else _) = _
    rw [if_neg (by omega)]

theorem withDir_entry (hd : d < t.next) :
    (t.withDir d n hd).entry d n = some (.dir t.next) := if_pos ⟨rfl, rfl⟩

/-- The tree without the entry `n` of `d`. -/
def withoutEntry (t : FileTree) (d : ℕ) (n : FileName) : FileTree where
  entry d' n' := if d' = d ∧ n' = n then none else t.entry d' n'
  up := t.up
  next := t.next
  next_pos := t.next_pos
  up_root := t.up_root
  up_child := by
    intro d' n' c held
    obtain ⟨-, held⟩ := Option.ite_none_left_eq_some.mp held
    exact t.up_child _ _ _ held
  named_once := by
    intro d' n₁ n₂ c h₁ h₂
    obtain ⟨-, h₁⟩ := Option.ite_none_left_eq_some.mp h₁
    obtain ⟨-, h₂⟩ := Option.ite_none_left_eq_some.mp h₂
    exact t.named_once _ _ _ _ h₁ h₂
  root_free := by
    intro d' n' held
    obtain ⟨-, held⟩ := Option.ite_none_left_eq_some.mp held
    exact t.root_free _ _ held
  child_lt := by
    intro d' n' c held
    obtain ⟨-, held⟩ := Option.ite_none_left_eq_some.mp held
    exact t.child_lt _ _ _ held
  unmade := by
    intro d' n' hge
    split
    · rfl
    · exact t.unmade _ _ hge

/-- Removing what was just made gives back every entry. -/
theorem withoutEntry_withDir (hd : d < t.next) (free : t.entry d n = none)
    (hu : u.entry = (t.withDir d n hd).entry) : (u.withoutEntry d n).entry = t.entry := by
  funext d' n'
  show (if d' = d ∧ n' = n then none else u.entry d' n') = _
  by_cases hn : d' = d ∧ n' = n
  · rw [if_pos hn, hn.1, hn.2, free]
  · rw [if_neg hn, hu]
    exact if_neg hn

end FileTree

end ModelProxy
