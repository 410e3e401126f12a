import Mathlib.Data.List.Basic

/-! # Quoted arguments

The node runs an argv through a shell: `argv_script` quotes every argument.  What the shell makes
of the script: every argument is one word of it, character by character as it was given.
-/
namespace ModelProxy.Runtime
open List

/-- The shell a command runs in. -/
inductive CommandShell
  | sh
  | pwsh
  | powershell
  | cmd
deriving DecidableEq, Repr

namespace Node

/-! ## The script -/

/-- The parts with blanks between. -/
def joinSpaces (parts : List (List Char)) : List Char := [' '].intercalate parts

/-- `sh_word`: a quote ends the quoted run, stands behind a backslash and opens the next one. -/
def shWord (arg : List Char) : List Char :=
  ['\''] ++ arg.flatMap (fun c => if c = '\'' then "'\\''".toList else [c]) ++ ['\'']

/-- The quotes PowerShell reads as one. -/
def isQuote (c : Char) : Bool :=
  ['\'', Char.ofNat 0x2018, Char.ofNat 0x2019, Char.ofNat 0x201A, Char.ofNat 0x201B].contains c

/-- `powershell_word`: every quote is doubled. -/
def powershellWord (arg : List Char) : List Char :=
  ['\''] ++ arg.flatMap (fun c => if isQuote c then [c, c] else [c]) ++ ['\'']

/-- `argv_script`. -/
def argvScript (shell : CommandShell) (argv : List (List Char)) : Option (List Char) :=
  match shell with
  | .sh => some ("exec ".toList ++ joinSpaces (argv.map shWord))
  | .pwsh => some ("$PSNativeCommandArgumentPassing = 'Standard'; & ".toList ++
      joinSpaces (argv.map powershellWord))
  | .powershell => some ("& ".toList ++ joinSpaces (argv.map powershellWord))
  | .cmd => none

/-! ## The shells -/

/-- Where a shell stands in a line of words. -/
inductive Reading
  | between
  /-- In a word, outside quotes. -/
  | bare (word : List Char)
  | quoted (word : List Char)
  | escaped (word : List Char)

/-- The word that ends where the shell stands. -/
def Reading.ended : Reading → Option (List (List Char))
  | .between => some []
  | .bare word => some [word]
  | _ => none

/-- `sh`: a word is made of quoted runs and of quotes behind a backslash.  Any other character
outside quotes has a meaning of its own. -/
def shRead : Reading → Char → Option (Reading × List (List Char))
  | .quoted word, c => some (if c = '\'' then .bare word else .quoted (word ++ [c]), [])
  | .escaped word, c => if c = '\'' then some (.bare (word ++ [c]), []) else none
  | s, c => do
    let words ← s.ended
    if c = '\'' then return (.quoted words.flatten, [])
    else if c = '\\' then return (.escaped words.flatten, [])
    else if c = ' ' then return (.between, words) else none

/-- The straight quote and the four curly ones. -/
def powershellQuotes : List Char := ['\'', '\u2018', '\u2019', '\u201a', '\u201b']

/-- PowerShell: in quotes, a quote behind a quote stands for itself, and a single one ends the
word. -/
def powershellRead : Reading → Char → Option (Reading × List (List Char))
  | .quoted word, c =>
    some (if c ∈ powershellQuotes then .bare word else .quoted (word ++ [c]), [])
  | .between, c =>
    if c ∈ powershellQuotes then some (.quoted [], [])
    else if c = ' ' then some (.between, []) else none
  | .bare word, c =>
    if c ∈ powershellQuotes then some (.quoted (word ++ [c]), [])
    else if c = ' ' then some (.between, [word]) else none
  | .escaped _, _ => none

/-- The node doubles the quotes PowerShell reads. -/
theorem isQuote_iff {c : Char} : isQuote c = true ↔ c ∈ powershellQuotes := by
  simp [isQuote, powershellQuotes]

variable (read : Reading → Char → Option (Reading × List (List Char)))

/-- The words of a line; none where the shell would read anything but words. -/
def readWords : Reading → List Char → Option (List (List Char))
  | s, [] => s.ended
  | s, c :: rest => do
    let (s', words) ← read s c
    return words ++ (← readWords s' rest)

/-- The text in front of the words. -/
def launcher : CommandShell → List Char
  | .pwsh => "$PSNativeCommandArgumentPassing = 'Standard'; & ".toList
  | .powershell => "& ".toList
  | _ => "exec ".toList

/-- The words of a line as the shell reads it. -/
def shellWords (shell : CommandShell) (line : List Char) : Option (List (List Char)) :=
  readWords (if shell = .sh then shRead else powershellRead) .between line

/-- How a shell reads arguments that are quoted character by character. -/
structure Unquotes (write : Char → List Char) : Prop where
  opened : read .between '\'' = some (.quoted [], [])
  char : ∀ c word rest, readWords read (.quoted word) (write c ++ rest) =
    readWords read (.quoted (word ++ [c])) rest
  closed : ∀ word, read (.quoted word) '\'' = some (.bare word, [])
  space : ∀ word, read (.bare word) ' ' = some (.between, [word])

section Unquotes
variable {read} {write : Char → List Char} (h : Unquotes read write)
include h

theorem Unquotes.word (arg rest : List Char) :
    readWords read .between (['\''] ++ arg.flatMap write ++ ['\''] ++ rest) =
      readWords read (.bare arg) rest := by
  have hq (w : List Char) :
      readWords read (.quoted w) (arg.flatMap write ++ '\'' :: rest) =
        readWords read (.bare (w ++ arg)) rest := by
    induction arg generalizing w with
    | nil => simp [readWords, h.closed]
    | cons c arg ih => rw [flatMap_cons, append_assoc, h.char, ih, append_assoc]; rfl
  have hop := hq []
  simpa [readWords, h.opened] using hop

/-- A quoted command line reads back as its words. -/
theorem Unquotes.argv {argv : List (List Char)} (har : argv ≠ []) :
    readWords read .between
      (joinSpaces (argv.map fun arg => ['\''] ++ arg.flatMap write ++ ['\''])) = some argv := by
  induction argv with
  | nil => exact absurd rfl har
  | cons arg argv ih =>
    cases argv with
    | nil => simpa [joinSpaces, readWords, Reading.ended] using h.word arg []
    | cons next argv =>
      have hr := ih (cons_ne_nil next argv)
      rw [map_cons, joinSpaces] at hr
      rw [map_cons, map_cons, joinSpaces, intercalate_cons_cons, append_assoc, h.word,
        singleton_append, readWords, h.space]
      simp only [Option.bind_eq_bind, Option.bind_some, hr]
      rfl

end Unquotes

theorem unquotes_sh :
    Unquotes shRead fun c => if c = '\'' then "'\\''".toList else [c] where
  opened := rfl
  char c word rest := by
    by_cases hc : c = '\''
    · subst hc
      simp [readWords, shRead, Reading.ended]
    · simp [readWords, shRead, hc]
  closed _ := rfl
  space _ := rfl

theorem unquotes_powershell :
    Unquotes powershellRead fun c => if isQuote c then [c, c] else [c] where
  opened := rfl
  char c word rest := by
    by_cases hc : c ∈ powershellQuotes
    · simp [readWords, powershellRead, isQuote_iff, hc]
    · simp [readWords, powershellRead, isQuote_iff, hc]
  closed _ := rfl
  space _ := rfl

/-- **Quoted arguments reach the program unchanged**: the shell reads them as its words. -/
theorem argvScript_words {shell : CommandShell} (hshell : shell ≠ .cmd) {argv : List (List Char)}
    (hargv : argv ≠ []) : ∃ line, argvScript shell argv = some (launcher shell ++ line) ∧
      shellWords shell line = some argv := by
  cases shell with
  | sh => exact ⟨_, rfl, unquotes_sh.argv hargv⟩
  | pwsh | powershell => exact ⟨_, rfl, unquotes_powershell.argv hargv⟩
  | cmd => exact absurd rfl hshell

/-- A word with a quote in either shell. -/
theorem argvScript_words_quote :
    let curly := "it\u2019s".toList
    (∃ line, argvScript .sh ["it's".toList, "$HOME".toList] = some (launcher .sh ++ line) ∧
      shellWords .sh line = some ["it's".toList, "$HOME".toList]) ∧
    ∃ line, argvScript .pwsh [curly, []] = some (launcher .pwsh ++ line) ∧
      shellWords .pwsh line = some [curly, []] :=
  ⟨argvScript_words (by decide) (by decide), argvScript_words (by decide) (by decide)⟩

end Node
end ModelProxy.Runtime
