import ModelProxy.Patterns
import ModelProxy.TextLines

/-! # What makes a line secret

The recognisers of the masking rules, each over one line without its terminator: names of
secrets, flags whose value is one, values that go on over the following lines, and the
markers of private keys.
-/
namespace ModelProxy.Redact
open Utf8 (byteLength)

/-- How the lines of a file are masked. -/
inductive FileClass
  | plain | dotenv | sshPrivateKey | pemKey | hfToken
deriving DecidableEq, Repr

/-- A range of bytes. -/
structure ByteRange where
  start : ℕ
  stop : ℕ
deriving DecidableEq, Repr

/-! ## Mask tokens -/

/-- How a mask begins. -/
def maskOpen : List Char := "⟦redacted".toList

/-- How a mask ends. -/
def maskClose : List Char := "⟧".toList

/-- The mask of so many characters. -/
def token (chars : ℕ) : List Char := maskOpen ++ ':' :: (toString chars).toList ++ maskClose

/-- A mask that tells no length. -/
def tokenBare : List Char := maskOpen ++ maskClose

/-- The token of a line that is masked for its own sake. -/
def tokenLine : List Char := maskOpen ++ " line".toList ++ maskClose

/-! ## The patterns -/

/-- `[A-Za-z0-9_-]`. -/
def isNameChar (c : Char) : Bool := c.isAlphanum || c == '_' || c == '-'

/-- A space or a tab. -/
def isBlank (c : Char) : Bool := c == ' ' || c == '\t'

/-- A quotation mark of either kind. -/
def isQuote (c : Char) : Bool := c == '"' || c == '\''

/-- `SECRET_FLAG_SUFFIX`. -/
def secretFlagSuffix : Pattern :=
  .anyOf [
    .sequence [.literal "api".toList, .perhaps (.one fun c => c == '-' || c == '_'),
      .literal "key".toList],
    .literal "token".toList, .literal "secret".toList, .literal "password".toList]

/-- The part both flag patterns begin with: the dashes and the name. -/
def flagName : List Pattern :=
  [.anyOf [.start, .one fun c => !isNameChar c], .one (· == '-'), .perhaps (.one (· == '-')),
    .few isNameChar, secretFlagSuffix]

/-- `FLAG`. -/
def flag : Pattern :=
  .sequence (flagName ++ [.anyOf [
    .one (· == '='),
    .some_ isBlank,
    .sequence [.one (· == '\\'), .one fun c => c == 'n' || c == 'r' || c == 't'],
    .sequence [.perhaps (.one isQuote), .one (· == ','), .many isBlank]]])

/-- `FLAG_AT_END`. -/
def flagAtEnd : Pattern :=
  .sequence (flagName ++ [.perhaps (.one isQuote), .perhaps (.one (· == ',')), .many isBlank,
    .perhaps (.one (· == '\\')), .many fun c => isBlank c || c == '\r', .stop])

/-- `DOTENV_ASSIGN`. -/
def dotenvAssign : Pattern :=
  .sequence [.start, .many isBlank, .perhaps (.then_ (.literal "export".toList) (.some_ isBlank)),
    .one fun c => c.isAlpha || c == '_',
    .many fun c => c.isAlphanum || c == '_' || c == '.' || c == '-',
    .many isBlank, .one (· == '='), .many isBlank]

/-- `BLOCK_SCALAR`. -/
def blockScalar : Pattern :=
  .sequence [.start,
    .perhaps (.sequence [.one (· == '!'), .many fun c => !isWhitespace c, .some_ isBlank]),
    .one fun c => c == '|' || c == '>', .many fun c => c == '+' || c == '-' || c.isDigit,
    .many isBlank, .perhaps (.then_ (.one (· == '#')) (.many fun c => c != '\n')), .stop]

/-! ## Values -/

/-- The value only names a variable. -/
def isVariableReference (value : List Char) : Bool :=
  let inner : Option (List Char) :=
    match value with
    | '$' :: '\x7b' :: rest => if rest.getLast? = some '\x7d' then some rest.dropLast else none
    | '$' :: rest => some rest
    | _ => none
  match inner with
  | some (c :: rest) =>
    (c.isUpper || c == '_') && rest.all fun c => c.isUpper || c.isDigit || c == '_'
  | _ => false

/-- A backslash after a blank continues the command, not the value. -/
def withoutContinuation (value : List Char) : List Char :=
  if value.getLast? = some '\\' ∧ value.dropLast.getLast?.any isBlank then trimEnd value.dropLast
  else value

/-- The value hides nothing. -/
def valueIsPublic (value : List Char) : Bool :=
  if value = [] ∨ value = ['\\'] ∨ value = ['"', '"'] ∨ value = ['\'', '\''] then true
  else
    isVariableReference <|
      match value.head? with
      | some quote =>
        if isQuote quote ∧ value.getLast? = some quote ∧ 2 ≤ byteLength value then
          value.tail.dropLast
        else value
      | none => value

/-- One character of `quote_left_open`: the open quote, and whether the next is escaped. -/
def quoteStep (seen : Option Char × Bool) (c : Char) : Option Char × Bool :=
  if seen.2 then (seen.1, false)
  else if c = '\\' then (seen.1, true)
  else
    match seen.1 with
    | some quote => if c = quote then (none, false) else (some quote, false)
    | none => if isQuote c then (some c, false) else (none, false)

/-- A quotation is open at the end of the text. -/
def quoteLeftOpen (text : List Char) : Bool := (text.foldl quoteStep (none, false)).1.isSome

/-! ## Values over several lines -/

/-- Bytes of leading whitespace. -/
def indentOf (line : List Char) : ℕ := byteLength line - byteLength (trimStart line)

/-- Which whitespace (1 space, 2 tab) a line is indented with. -/
def indentKinds (line : List Char) : ℕ :=
  (line.takeWhile isBlank).foldl (fun kinds c => kinds ||| if c = ' ' then 1 else 2) 0

/-- Tabs and spaces cannot be ordered against each other. -/
def mixedIndent (a b : ℕ) : Bool := (a ||| b) == 3

/-- What the value of a line opens. -/
inductive Construct
  | none
  /-- Every line up to the first blank one. -/
  | untilBlank
  /-- Blank lines, and lines indented deeper than this. -/
  | block (lineIndent : ℕ)
deriving DecidableEq, Repr

/-- What a name with this tail goes on with. -/
def constructForTail (tail : List Char) (colon : Bool) (lineIndent : ℕ) (lineQuoteOpen : Bool) :
    Construct :=
  let trimmed := trim tail
  if colon && blockScalar.isMatch trimmed then .block lineIndent
  else if trimmed.getLast? = some '\\' ∨ lineQuoteOpen then .untilBlank
  else if colon then .block lineIndent
  else .none

/-! ## Names of secrets -/

/-- The text in small letters. -/
def lowerAscii (text : List Char) : List Char := text.map Char.toLower

/-- The endings that make a word the name of a secret. -/
def secretSuffixes : List (List Char) :=
  ["_token", "_key", "_secret", "_password", "apikey", "api-key", "api_key", "hf-token",
    "hf_token"].map String.toList

/-- The word names a secret. -/
def isSecretName (word : List Char) : Bool :=
  word.head? != some '-' &&
    (lowerAscii word == "password".toList ||
      secretSuffixes.any fun ending => ending.isSuffixOf (lowerAscii word))

/-- The scan of `first_secret_name`: the position, and the word that ends there. -/
def secretNameFrom (at_ : ℕ) (word : List Char) : List Char → Option ByteRange
  | [] => if word ≠ [] ∧ isSecretName word then some ⟨at_ - byteLength word, at_⟩ else none
  | c :: rest =>
    if isNameChar c then secretNameFrom (at_ + byteLength [c]) (word ++ [c]) rest
    else if word ≠ [] ∧ isSecretName word then some ⟨at_ - byteLength word, at_⟩
    else secretNameFrom (at_ + byteLength [c]) [] rest

/-- Where the line first names a secret. -/
def firstSecretName (line : List Char) : Option ByteRange := secretNameFrom 0 [] line

/-! ## Flags -/

/-- The loop of `first_flag`, from a place in the line.  Every turn goes past a flag, so the
length of the line bounds the turns. -/
def firstFlagFrom (line : List Char) : ℕ → Bool → List Char → Option (ℕ × Construct)
  | 0, _, _ => none
  | turns + 1, begins, rest =>
    match flag.search begins rest with
    | none => none
    | some tail =>
      let trimmed := trimEnd tail
      if trimmed = ['\\'] then some (byteLength line, .untilBlank)
      else if valueIsPublic (withoutContinuation trimmed) then
        firstFlagFrom line turns false tail
      else
        some (byteLength line - byteLength tail,
          constructForTail tail false (indentOf line) (quoteLeftOpen line))

/-- The first flag with a secret value: where its masked tail starts and what it opens. -/
def firstFlag (line : List Char) : Option (ℕ × Construct) :=
  if '-' ∉ line ∨ ¬ ["token", "key", "secret", "password"].any
      fun word => containsText word.toList line then none
  else firstFlagFrom line (line.length + 1) true line

/-- The value on the line after a flag that ended its line. -/
def continuationValue (line : List Char) : Option (ByteRange × Construct) :=
  let length := byteLength line
  let body := trimStart line
  let trimmedStart := length - byteLength body
  let rest := if ['-', ' '] <+: body then trimStart (body.drop 2) else body
  let start := length - byteLength rest
  if length ≤ start then none
  else
    let value := trimEnd rest
    if value = ['\\'] then some (⟨length, length⟩, .untilBlank)
    else if valueIsPublic (withoutContinuation value) then none
    else
      let blockItem := blockScalar.isMatch value
      some (⟨start, max length start⟩,
        constructForTail rest blockItem (if blockItem then trimmedStart else indentOf line)
          (quoteLeftOpen line))

/-! ## Private keys -/

/-- What a PEM mark begins and ends with. -/
def dashes : List Char := "-----".toList

/-- The loop of `pem_events`.  Every turn goes past a run of dashes, so the length of the
line bounds the turns. -/
def pemEventsFrom : ℕ → List Char → List (Bool × List Char)
  | 0, _ => []
  | turns + 1, text =>
    match splitAtFirst dashes text with
    | none => []
    | some (_, found) =>
      let rest := found.drop 5
      let marker : Option (Bool × List Char) :=
        if "BEGIN ".toList <+: rest then some (true, rest.drop 6)
        else if "END ".toList <+: rest then some (false, rest.drop 4)
        else none
      match marker with
      | none => pemEventsFrom turns rest
      | some (begin, labelStart) =>
        match splitAtFirst dashes labelStart with
        | none => pemEventsFrom turns rest
        | some (label, closing) =>
          -- The closing dashes may be the opening dashes of the next marker.
          (if "PRIVATE KEY".toList <:+ label then [(begin, label)] else []) ++
            pemEventsFrom turns closing

/-- The markers of private keys on a line, `true` for a BEGIN, with their labels. -/
def pemEvents (line : List Char) : List (Bool × List Char) := pemEventsFrom (line.length + 1) line

end ModelProxy.Redact
