import ModelProxy.Utf8

/-! # The command-output text an agent sees

The server's bytes-to-text rules: lossy decoding, terminal sequences and controls removed
over UTF-16 code units, credential substrings redacted, and the bounded view of a stream
(its first bytes, and a rolling tail that starts where the terminal parser is on a
boundary).  Code units are numbers below `2 ^ 16`; so are the parser's states.
-/
namespace ModelProxy.CommandOutput

/-! ## Decoding -/

/-- The UTF-16 code units of a code point. -/
def unitsOf (code : ℕ) : List ℕ :=
  if code < 0x10000 then [code]
  else [0xd800 + (code - 0x10000) / 1024, 0xdc00 + (code - 0x10000) % 1024]

/-- A decoder removes one byte order mark at the start of its stream. -/
def withoutByteOrderMark : List ℕ → List ℕ
  | [] => []
  | code :: codes => if code = 0xfeff then codes else code :: codes

/-- The code points of a stream, errors replaced. -/
def lossyCodes (bytes : List UInt8) : List ℕ := (Utf8.decode bytes).map (·.getD 0xfffd)

/-- `TextDecoder` on the bytes, as code units. -/
def decodeLossy (bytes : List UInt8) : List ℕ :=
  (withoutByteOrderMark (lossyCodes bytes)).flatMap unitsOf

/-- The units a text is written with. -/
def textUnits (text : List Char) : List ℕ := text.flatMap fun c => unitsOf c.toNat

theorem textUnits_append (text text' : List Char) :
    textUnits (text ++ text') = textUnits text ++ textUnits text' := List.flatMap_append

theorem textUnits_cons (c : Char) (text : List Char) :
    textUnits (c :: text) = unitsOf c.toNat ++ textUnits text := rfl

/-- A text literal of the source. -/
def literal (text : String) : List ℕ := textUnits text.toList

/-- Drop C0/C1 controls except tab, LF and CR. -/
def stripDisallowedControls (text : List ℕ) : List ℕ :=
  text.filter fun code =>
    decide (code = 0x09 ∨ code = 0x0a ∨ code = 0x0d) ||
      !(decide (code < 0x20) || (decide (0x7f ≤ code) && decide (code ≤ 0x9f)))

/-! ## The terminal parser -/

-- The states of the parser.
def ground : ℕ := 0
def escape : ℕ := 1
def escapeIntermediate : ℕ := 2
def csiEntry : ℕ := 3
def csiParam : ℕ := 4
def csiIntermediate : ℕ := 5
def csiIgnore : ℕ := 6
def oscString : ℕ := 7
/-- SOS, PM and APC bodies. -/
def ignoredString : ℕ := 8
def dcsEntry : ℕ := 9
def dcsParam : ℕ := 10
def dcsIntermediate : ℕ := 11
def dcsIgnore : ℕ := 12
def dcsPassthrough : ℕ := 13

/-- States in which the terminal executes a C0 control. -/
def executesC0 (state : ℕ) : Bool := decide (state ≤ csiIgnore)

/-- A control the parser executes. -/
def isExecutable (code : ℕ) : Bool :=
  decide (code ≤ 0x17) || decide (code = 0x19) || (decide (0x1c ≤ code) && decide (code ≤ 0x1f))

/-- The state a code leads to from any other. -/
def anywhereTransition (code : ℕ) : Option ℕ :=
  if code = 0x1b then some escape
  else if code = 0x18 ∨ code = 0x1a then some ground
  else if code < 0x80 ∨ 0x9f < code then none
  else if code = 0x90 then some dcsEntry
  else if code = 0x9b then some csiEntry
  else if code = 0x9d then some oscString
  else if code = 0x98 ∨ code = 0x9e ∨ code = 0x9f then some ignoredString
  else some ground

/-- The state after a printable byte outside GROUND. -/
def printableTransition (state code : ℕ) : ℕ :=
  if state = escape then
    if code ≤ 0x2f then escapeIntermediate
    else if code = 0x5b then csiEntry
    else if code = 0x5d then oscString
    else if code = 0x50 then dcsEntry
    else if code = 0x58 ∨ code = 0x5e ∨ code = 0x5f then ignoredString
    else ground
  else if state = escapeIntermediate then if code ≤ 0x2f then escapeIntermediate else ground
  else if state = csiEntry ∨ state = csiParam then
    if 0x40 ≤ code then ground
    else if code ≤ 0x2f then csiIntermediate
    else if 0x3c ≤ code then if state = csiEntry then csiParam else csiIgnore
    else csiParam
  else if state = csiIntermediate then
    if 0x40 ≤ code then ground else if code ≤ 0x2f then csiIntermediate else csiIgnore
  else if state = csiIgnore then if 0x40 ≤ code then ground else csiIgnore
  else if state = dcsEntry ∨ state = dcsParam then
    if 0x40 ≤ code then dcsPassthrough
    else if code ≤ 0x2f then dcsIntermediate
    else if 0x3c ≤ code then if state = dcsEntry then dcsParam else dcsIgnore
    else dcsParam
  else if state = dcsIntermediate then
    if 0x40 ≤ code then dcsPassthrough
    else if code ≤ 0x2f then dcsIntermediate else dcsIgnore
  else state

/-- The state after a non-ASCII printable outside GROUND. -/
def nonAsciiTransition (state : ℕ) : ℕ :=
  if state = csiIgnore ∨ oscString ≤ state then
    if state = dcsEntry ∨ state = dcsParam ∨ state = dcsIntermediate then dcsIgnore else state
  else ground

/-- The parser state after one code point (or UTF-16 code unit of one). -/
def nextState (state code : ℕ) : ℕ :=
  match anywhereTransition code with
  | some next => next
  | none =>
    if isExecutable code then if state = oscString ∧ code = 0x07 then ground else state
    else if code = 0x7f then state
    else if state = ground then ground
    else if 0xa0 ≤ code then nonAsciiTransition state
    else printableTransition state code

/-- A code that is shown. -/
def printable (code : ℕ) : Bool :=
  (decide (0x20 ≤ code) && decide (code ≤ 0x7e)) || decide (0xa0 ≤ code)

/-- The first half of a surrogate pair. -/
def isHighSurrogate (code : ℕ) : Bool := decide (0xd800 ≤ code) && decide (code ≤ 0xdbff)

/-- The second half of a surrogate pair. -/
def isLowSurrogate (code : ℕ) : Bool := decide (0xdc00 ≤ code) && decide (code ≤ 0xdfff)

/-- What is kept so far, the parser's state, and the printed run not yet copied. -/
structure Stripped where
  out : List ℕ
  state : ℕ
  run : List ℕ

/-- `astral`: the unit before was a high surrogate the parser read, so that a low one here
goes with it (an astral character is one input). -/
def stripLoop : List ℕ → Bool → Stripped → Stripped
  | [], _, s => s
  | code :: rest, astral, s =>
    if astral && isLowSurrogate code then stripLoop rest false s
    else if decide (s.state = ground) && printable code then
      stripLoop rest false { s with run := s.run ++ [code] }
    else
      let out := s.out ++ s.run
      stripLoop rest (isHighSurrogate code)
        { out := if isExecutable code && executesC0 s.state then out ++ [code] else out
          state := nextState s.state code
          run := [] }

/-- Removes terminal escape sequences. -/
def stripTerminalSequences (text : List ℕ) : List ℕ :=
  let s := stripLoop text false ⟨[], ground, []⟩
  s.out ++ s.run

/-! ## The byte automaton -/

/-- What the next byte must be; `decC2`: a continuation 80..9F makes a C1 control. -/
def decNone : ℕ := 0
def decC2 : ℕ := 1
def decNeed1 : ℕ := 2
def decNeed2 : ℕ := 3
def decNeed3 : ℕ := 4
def decE0 : ℕ := 5
def decED : ℕ := 6
def decF0 : ℕ := 7
def decF4 : ℕ := 8
def decoderStates : ℕ := 9

/-- Any complete non-ASCII, non-C1 character. -/
def nonAscii : ℕ := 0xfffd

/-- The decoder substate after a lead byte. -/
def decoderAfterLead (byte : ℕ) : Option ℕ :=
  if byte = 0xc2 then some decC2
  else if 0xc3 ≤ byte ∧ byte ≤ 0xdf then some decNeed1
  else if byte = 0xe0 then some decE0
  else if byte = 0xed then some decED
  else if 0xe1 ≤ byte ∧ byte ≤ 0xef then some decNeed2
  else if byte = 0xf0 then some decF0
  else if byte = 0xf4 then some decF4
  else if 0xf1 ≤ byte ∧ byte ≤ 0xf3 then some decNeed3
  else none

/-- One byte on a character boundary. -/
def stepBoundary (parser byte : ℕ) : ℕ × ℕ :=
  if byte < 0x80 then (nextState parser byte, decNone)
  else
    match decoderAfterLead byte with
    | none => (nextState parser nonAscii, decNone)
    | some lead => (parser, lead)

/-- The least and greatest byte that continues, and the substate after it. -/
def decoderRange (decoder : ℕ) : ℕ × ℕ × ℕ :=
  if decoder = decC2 ∨ decoder = decNeed1 then (0x80, 0xbf, decNone)
  else if decoder = decNeed2 then (0x80, 0xbf, decNeed1)
  else if decoder = decNeed3 then (0x80, 0xbf, decNeed2)
  else if decoder = decE0 then (0xa0, 0xbf, decNeed1)
  else if decoder = decED then (0x80, 0x9f, decNeed1)
  else if decoder = decF0 then (0x90, 0xbf, decNeed2)
  else (0x80, 0x8f, decNeed2)

/-- One byte from a combined (parser, decoder) state. -/
def stepByte (parser decoder byte : ℕ) : ℕ × ℕ :=
  if decoder = decNone then stepBoundary parser byte
  else
    let (low, high, after) := decoderRange decoder
    if byte < low ∨ high < byte then stepBoundary (nextState parser nonAscii) byte
    else if after ≠ decNone then (parser, after)
    else
      (nextState parser (if decoder = decC2 ∧ byte ≤ 0x9f then byte else nonAscii), decNone)

/-- Parser and decoder state as one number. -/
def encodeState (state : ℕ × ℕ) : ℕ := state.1 * decoderStates + state.2

/-- Every (parser, decoder) state and byte, at `state * 256 + byte`. -/
def buildByteTransitions : List ℕ :=
  (List.range (dcsPassthrough + 1)).flatMap fun parser =>
    (List.range decoderStates).flatMap fun decoder =>
      (List.range 0x100).map fun byte => encodeState (stepByte parser decoder byte)

/-- One table load. -/
def byteTransition (state byte : ℕ) : ℕ := buildByteTransitions.getD (state * 256 + byte) 0

/-- GROUND with no partial character: the only state a tail may start in. -/
def boundary : ℕ := ground * decoderStates + decNone

/-- Feed bytes while the index is below `dropUntil` or the parser is not on a boundary:
the first index not fed, and the state there. -/
def consume (dropUntil : Int) : List UInt8 → ℕ → ℕ → ℕ × ℕ
  | [], index, state => (index, state)
  | byte :: bytes, index, state =>
    if (index : Int) < dropUntil ∨ state ≠ boundary then
      consume dropUntil bytes (index + 1) (byteTransition state byte.toNat)
    else (index, state)

/-- A capture's rolling tail after appending `chunk`. -/
def appendRollingTail (tail chunk : List UInt8) (max state : ℕ) : List UInt8 × ℕ :=
  let mustDrop := tail.length + chunk.length - max
  let fromTail := consume mustDrop tail 0 state
  if fromTail.1 < tail.length then (tail.drop fromTail.1 ++ chunk, fromTail.2)
  else
    let fromChunk := consume ((mustDrop : Int) - tail.length) chunk 0 fromTail.2
    (chunk.drop fromChunk.1, fromChunk.2)

/-! ## Credentials -/

/-- CLI_OUTPUT_CREDENTIAL_PREFIXES -/
def credentialPrefixes : List (List ℕ) :=
  [literal "wsmp_key_", literal "wsmp_node_", literal "wsmp_agent_", literal "wsmp_enr_",
    literal "wsmp_inv_"]

/-- What stands for a credential. -/
def redactedMarker : List ℕ := literal "[redacted]"

/-- `[A-Za-z0-9_-]` -/
def credentialChar (code : ℕ) : Bool :=
  (decide (0x41 ≤ code) && decide (code ≤ 0x5a)) ||
    (decide (0x61 ≤ code) && decide (code ≤ 0x7a)) ||
    (decide (0x30 ≤ code) && decide (code ≤ 0x39)) || decide (code = 0x5f) || decide (code = 0x2d)

/-- The length of a credential that starts here: a prefix and all credential characters
after it, at least one. -/
def credentialLength (text : List ℕ) : Option ℕ :=
  credentialPrefixes.findSome? fun start =>
    let body := (text.drop start.length).takeWhile credentialChar
    if start.isPrefixOf text ∧ body ≠ [] then some (start.length + body.length) else none

/-- Replace credentials from left to right; `skip` is what is left of one. -/
def replaceCredentials : List ℕ → ℕ → List ℕ
  | [], _ => []
  | _ :: rest, skip + 1 => replaceCredentials rest skip
  | code :: rest, 0 =>
    match credentialLength (code :: rest) with
    | some length => redactedMarker ++ replaceCredentials rest (length - 1)
    | none => code :: replaceCredentials rest 0

/-- Peel leading prefixes that no credential character follows. -/
def neutralizeLeadingPrefixes (text : List ℕ) : ℕ → List ℕ
  | 0 => text
  | guard + 1 =>
    match credentialPrefixes.find? fun start => start.isPrefixOf text with
    | none => text
    | some start => neutralizeLeadingPrefixes (redactedMarker ++ text.drop start.length) guard

/-- Every credential replaced by the marker. -/
def redactCredentialSubstrings (text : List ℕ) : List ℕ :=
  neutralizeLeadingPrefixes (replaceCredentials text 0) credentialPrefixes.length

/-- The text without a run that may be the end of a credential. -/
def dropLeadingTokenRun (text : List ℕ) : List ℕ := text.dropWhile credentialChar

/-- Terminal sequences and control characters removed. -/
def cleaned (text : List ℕ) : List ℕ := stripDisallowedControls (stripTerminalSequences text)

/-- Text cleaned and redacted. -/
def cleanText (text : List ℕ) (dropLeadingToken : Bool) : List ℕ :=
  redactCredentialSubstrings
    (if dropLeadingToken then dropLeadingTokenRun (cleaned text) else cleaned text)

/-- Bytes decoded, cleaned and redacted. -/
def cleanDecoded (bytes : List UInt8) (dropLeadingToken : Bool) : List ℕ :=
  cleanText (decodeLossy bytes) dropLeadingToken

/-! ## The bounded view -/

/-- Marker between the retained head and tail. -/
def ellipsis : List ℕ := literal "\n…\n"

/-- The start and the end of a stream. -/
structure BoundedByteView where
  head : List UInt8
  tail : List UInt8
  totalBytes : ℕ

/-- A stream as it is shown. -/
structure CliStreamText where
  text : List ℕ
  truncated : Bool
  totalBytes : ℕ

/-- The text of a stream, cut in the middle if it is too long. -/
def formatBoundedStream (stream : BoundedByteView) : CliStreamText :=
  if stream.head.length + stream.tail.length < stream.totalBytes then
    ⟨cleanDecoded stream.head false ++ ellipsis ++ cleanDecoded stream.tail true, true,
      stream.totalBytes⟩
  else
    let overlap := stream.head.length + stream.tail.length - stream.totalBytes
    ⟨cleanDecoded (stream.head ++ stream.tail.drop overlap) false, false, stream.totalBytes⟩

end ModelProxy.CommandOutput
