import ModelProxy.Utf8

/-! # Where a terminal parser stands after a stream of bytes

The command-line tool's parser: the states of the VT500 parser over code points from a
UTF-8 decoder, one byte at a time, and what it keeps of the text (what the terminal prints,
and the tabs, line feeds and carriage returns it executes).  A rolling tail drops bytes from
its front until it is short enough and the parser is on a boundary.
-/
namespace ModelProxy.Terminal

/-- The VT500 parser's states. -/
inductive VtState
  | ground | escape | escapeIntermediate
  | csiEntry | csiParam | csiIntermediate | csiIgnore
  | oscString
  /-- SOS, PM and APC bodies. -/
  | ignoredString
  | dcsEntry | dcsParam | dcsIntermediate | dcsIgnore | dcsPassthrough
deriving DecidableEq, Repr

namespace VtState

/-- Whether HT, LF and CR are printed here: never inside a string body. -/
def printsLineControls : VtState → Bool
  | ground | escape | escapeIntermediate | csiEntry | csiParam | csiIntermediate | csiIgnore => true
  | _ => false

end VtState

open VtState

/-- The state after an ESC, CAN, SUB or C1 control, which act the same in every state. -/
def anywhereTransition (code : ℕ) : Option VtState :=
  if code = 0x1b then some escape
  else if code = 0x18 ∨ code = 0x1a then some ground
  else if code = 0x90 then some dcsEntry
  else if code = 0x9b then some csiEntry
  else if code = 0x9d then some oscString
  else if code = 0x98 ∨ code = 0x9e ∨ code = 0x9f then some ignoredString
  else if 0x80 ≤ code ∧ code ≤ 0x9f then some ground
  else none

/-- C0 controls the parser executes (or, inside strings, ignores) in place. -/
def isExecutable (code : ℕ) : Bool :=
  decide (code ≤ 0x17) || decide (code = 0x19) || (decide (0x1c ≤ code) && decide (code ≤ 0x1f))

/-- The state after a printable byte outside GROUND. -/
def printableTransition (state : VtState) (code : ℕ) : VtState :=
  match state with
  | escape =>
    if 0x20 ≤ code ∧ code ≤ 0x2f then escapeIntermediate
    else if code = 0x5b then csiEntry
    else if code = 0x5d then oscString
    else if code = 0x50 then dcsEntry
    else if code = 0x58 ∨ code = 0x5e ∨ code = 0x5f then ignoredString
    else ground
  | escapeIntermediate => if code ≤ 0x2f then escapeIntermediate else ground
  | csiEntry =>
    if 0x40 ≤ code then ground
    else if code ≤ 0x2f then csiIntermediate
    else csiParam
  | csiParam =>
    if 0x40 ≤ code then ground
    else if code ≤ 0x2f then csiIntermediate
    else if 0x3c ≤ code then csiIgnore
    else csiParam
  | csiIntermediate =>
    if 0x40 ≤ code then ground
    else if code ≤ 0x2f then csiIntermediate
    else csiIgnore
  | csiIgnore => if 0x40 ≤ code then ground else csiIgnore
  | dcsEntry =>
    if 0x40 ≤ code then dcsPassthrough
    else if code ≤ 0x2f then dcsIntermediate
    else dcsParam
  | dcsParam =>
    if 0x40 ≤ code then dcsPassthrough
    else if code ≤ 0x2f then dcsIntermediate
    else if 0x3c ≤ code then dcsIgnore
    else dcsParam
  | dcsIntermediate =>
    if 0x40 ≤ code then dcsPassthrough
    else if code ≤ 0x2f then dcsIntermediate
    else dcsIgnore
  | ground | oscString | ignoredString | dcsIgnore | dcsPassthrough => state

/-- The state after a non-ASCII printable outside GROUND. -/
def nonAsciiTransition (state : VtState) : VtState :=
  match state with
  | dcsEntry | dcsParam | dcsIntermediate => dcsIgnore
  | csiIgnore | oscString | ignoredString | dcsIgnore | dcsPassthrough => state
  | ground | escape | escapeIntermediate | csiEntry | csiParam | csiIntermediate => ground

/-- The state after a code. -/
def nextState (state : VtState) (code : ℕ) : VtState :=
  match anywhereTransition code with
  | some next => next
  | none =>
    if isExecutable code then if state = oscString ∧ code = 0x07 then ground else state
    -- DEL is ignored in every state
    else if code = 0x7f ∨ state = ground then state
    else if 0xa0 ≤ code then nonAsciiTransition state
    else printableTransition state code

/-! ## Bytes -/

/-- The UTF-8 decoder between code points. -/
inductive Utf8
  | idle
  /-- `remaining` continuation bytes to come, the next in `lower..=upper`. -/
  | partialChar (remaining codePoint lower upper : ℕ)
deriving DecidableEq, Repr

/-- The parser across a byte stream, one byte at a time. -/
structure TerminalByteState where
  state : VtState
  decodedAny : Bool
  utf8 : Utf8
deriving DecidableEq, Repr

/-- The character with this code point. -/
def charFromU32 (code : ℕ) : Option Char :=
  if h : code.isValidChar then some (Char.ofNatAux code h) else none

/-- The code shows something. -/
def printable (code : ℕ) : Bool :=
  (decide (0x20 ≤ code) && decide (code ≤ 0x7e)) || decide (0xa0 ≤ code)

/-- A tab or the end of a line. -/
def lineControl (code : ℕ) : Bool := decide (code = 0x09 ∨ code = 0x0a ∨ code = 0x0d)

namespace TerminalByteState

/-- The state before the first byte. -/
def default : TerminalByteState := ⟨ground, false, .idle⟩

/-- In the ground state with no partial character pending. -/
def atBoundary (s : TerminalByteState) : Bool := decide (s.state = ground ∧ s.utf8 = .idle)

/-- One code point: the text it keeps.  A leading byte order mark is removed. -/
def code (s : TerminalByteState) (code : ℕ) : TerminalByteState × List Char :=
  let first := !s.decodedAny
  let s := { s with decodedAny := true }
  if first && decide (code = 0xfeff) then (s, [])
  else
    ({ s with state := nextState s.state code },
      if (decide (s.state = ground) && printable code) ||
          (s.state.printsLineControls && lineControl code) then (charFromU32 code).toList
      else [])

/-- A byte on a character boundary. -/
def decodeIdle (s : TerminalByteState) (byte : UInt8) : TerminalByteState × List Char :=
  let b := byte.toNat
  if b ≤ 0x7f then s.code b
  else if 0xc2 ≤ b ∧ b ≤ 0xdf then ({ s with utf8 := .partialChar 1 (b % 32) 0x80 0xbf }, [])
  else if 0xe0 ≤ b ∧ b ≤ 0xef then
    ({ s with
        utf8 := .partialChar 2 (b % 16) (if b = 0xe0 then 0xa0 else 0x80)
          (if b = 0xed then 0x9f else 0xbf) }, [])
  else if 0xf0 ≤ b ∧ b ≤ 0xf4 then
    ({ s with
        utf8 := .partialChar 3 (b % 8) (if b = 0xf0 then 0x90 else 0x80)
          (if b = 0xf4 then 0x8f else 0xbf) }, [])
  else s.code 0xfffd

/-- One byte; what it keeps of the text. -/
def decode : Transducer TerminalByteState UInt8 Char := fun s byte =>
  let b := byte.toNat
  match s.utf8 with
  | .idle => s.decodeIdle byte
  | .partialChar remaining codePoint lower upper =>
    if b < lower ∨ upper < b then
      -- cut short: a replacement, then the byte starts afresh
      let cut := { s with utf8 := .idle }.code 0xfffd
      let again := cut.1.decodeIdle byte
      (again.1, cut.2 ++ again.2)
    else
      let codePoint := codePoint * 64 + b % 64
      if remaining = 1 then { s with utf8 := .idle }.code codePoint
      else ({ s with utf8 := .partialChar (remaining - 1) codePoint 0x80 0xbf }, [])

/-- The state after a byte. -/
def feed (s : TerminalByteState) (byte : UInt8) : TerminalByteState := (s.decode byte).1

/-- The end of the stream: an incomplete last character is replaced. -/
def finishClean (s : TerminalByteState) : TerminalByteState × List Char :=
  match s.utf8 with
  | .idle => (s, [])
  | .partialChar .. => { s with utf8 := .idle }.code 0xfffd

end TerminalByteState

/-- The text a stream keeps: `feed_clean` of every byte, then `finish_clean`. -/
def cleanBytes (stream : List UInt8) : List Char :=
  let fed := Transducer.run TerminalByteState.decode .default stream
  fed.2 ++ fed.1.finishClean.2

/-- Drop bytes from the front until at most `max` are left and the parser is on a boundary. -/
def trimRollingTail (max : ℕ) :
    List UInt8 → TerminalByteState → List UInt8 × TerminalByteState
  | [], s => ([], s)
  | byte :: tail, s =>
    if decide (tail.length + 1 ≤ max) && s.atBoundary then (byte :: tail, s)
    else trimRollingTail max tail (s.feed byte)

end ModelProxy.Terminal
