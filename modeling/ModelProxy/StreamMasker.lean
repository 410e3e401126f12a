import ModelProxy.LineMasker
import ModelProxy.TerminalParse

/-! # Masking the output of a command as it is written

Bytes are held until a line feed on which the terminal parser stands in its ground state.
What was held up to there, a group, is scanned as the text the terminal shows of it, and
comes out byte for byte if nothing in it is masked.  A group too long to hold comes out as
one marker a line, and so does the rest of a stream whose masking state grows too large.
-/
namespace ModelProxy.Redact
open Utf8 (byteLength)

/-! ## The carry of a line too long to hold -/

/-- What is kept of an overlong line: the labels of the private keys it leaves open. -/
structure SameLineCarry where
  pemTail : List Char
  pemOpen : OrderedMap (List Char) ℕ
  stateCost : ℕ
  liveInput : ℕ
  unrepresentable : Bool

namespace SameLineCarry

/-- Nothing carried. -/
def default : SameLineCarry := ⟨[], .empty, 0, 0, false⟩

/-- `OVERLAP`. -/
def overlap : ℕ := 1024

/-- One marker of a private key: what it adds to the open labels and to their cost. -/
def marker (carry : SameLineCarry) (event : Bool × List Char) : SameLineCarry :=
  let cost := byteLength event.2 + 17
  if event.1 then
    { carry with
      pemOpen := carry.pemOpen.set event.2 ((carry.pemOpen.get event.2).getD 0 + 1)
      stateCost := carry.stateCost + cost }
  else
    match carry.pemOpen.get event.2 with
    | none => carry
    | some count =>
      { carry with
        pemOpen :=
          if count - 1 = 0 then carry.pemOpen.delete event.2
          else carry.pemOpen.set event.2 (count - 1)
        stateCost := carry.stateCost - cost }

/-- The loop of `feed` over the tail.  Every turn that goes on takes five characters or more
from it, so its length bounds the turns. -/
def scanTail (stateLimit : ℕ) : ℕ → SameLineCarry → SameLineCarry
  | 0, carry => carry
  | turns + 1, carry =>
    match splitAtFirst dashes carry.pemTail with
    | none =>
      { carry with pemTail := dropBytes (byteLength carry.pemTail - 4) carry.pemTail }
    | some (_, tail) =>
      let rest := tail.drop 5
      let labelAt : Option ℕ :=
        if "BEGIN ".toList <+: rest then some 11
        else if "END ".toList <+: rest then some 9
        else none
      match labelAt with
      | none =>
        -- A marker may still be coming.
        if rest <+: "BEGIN ".toList ∨ rest <+: "END ".toList then
          { carry with pemTail := tail }
        else scanTail stateLimit turns { carry with pemTail := rest }
      | some labelAt =>
        match splitAtFirst dashes (tail.drop labelAt) with
        | none =>
          if overlap < byteLength tail then
            { carry with unrepresentable := true, pemTail := [] }
          else { carry with pemTail := tail }
        | some (label, closing) =>
          let markerEnd := labelAt + byteLength label + 5
          if overlap < markerEnd then
            { carry with unrepresentable := true, pemTail := [] }
          else
            -- The closing dashes stay: they may introduce the next marker.
            let carry := (pemEvents (takeBytes markerEnd tail)).foldl marker
              { carry with pemTail := closing }
            if stateLimit < carry.stateCost then
              { carry with unrepresentable := true, pemOpen := .empty }
            else scanTail stateLimit turns carry

/-- `feed`: a piece of the line, and how many bytes of input it came from. -/
def feed (carry : SameLineCarry) (piece : List Char) (inputBytes stateLimit : ℕ) : SameLineCarry :=
  if carry.unrepresentable then carry
  else if '\n' ∈ piece then { carry with unrepresentable := true }
  else
    let tail := carry.pemTail ++ piece
    let carry := scanTail stateLimit (tail.length + 1) { carry with pemTail := tail }
    let live := if carry.pemOpen.entries.isEmpty then 0 else carry.liveInput + inputBytes
    let carry := { carry with liveInput := live }
    if stateLimit < live then { carry with unrepresentable := true, pemOpen := .empty } else carry

/-- The order of labels. -/
def LabelBefore (a b : List Char × ℕ) : Prop := ¬ b.1 < a.1

instance : DecidableRel LabelBefore := fun a b => inferInstanceAs (Decidable (¬ b.1 < a.1))

/-- `recover`: the open labels given back to a masker, and what they cost. -/
def recover (carry : SameLineCarry) (m : LineMasker) : LineMasker × Option ℕ :=
  if carry.unrepresentable then (m, none)
  else
    let openers := (carry.pemOpen.entries.insertionSort LabelBefore).flatMap fun entry =>
      List.replicate entry.2 ("-----BEGIN ".toList ++ entry.1 ++ dashes)
    (openers.foldl (fun m opener => (m.scan opener).1) m,
      some (max carry.stateCost carry.liveInput))

end SameLineCarry

end ModelProxy.Redact

namespace ModelProxy.Output
open Redact Terminal

/-- The byte of a carriage return. -/
def crByte : UInt8 := 0x0D

/-- `MAX_HELD_BYTES`. -/
def maxHeldBytes : ℕ := 64 * 1024

/-- `MAX_STATE_INPUT_BYTES`. -/
def maxStateInputBytes : ℕ := 1024 * 1024

/-- `LINE_MARKER`. -/
def lineMarker : List UInt8 := ModelProxy.Utf8.encode "⟦redacted line⟧".toList

/-- What the masker does with what comes. -/
inductive Mode
  | scanning
  /-- An overlong line outside of every multi-line value. -/
  | overlongLine
  /-- Every remaining line is opaque. -/
  | opaqueStream
deriving DecidableEq, Repr

/-- A stream being masked. -/
structure StreamMasker where
  masker : LineMasker
  /-- The raw bytes held. -/
  pending : List UInt8
  /-- What the terminal shows of them. -/
  cleaned : List Char
  terminal : TerminalByteState
  carry : SameLineCarry
  mode : Mode
  /-- The marker of this line is out. -/
  opaqueLine : Bool
  recoveryPending : Bool
  finished : Bool
  stateInputBytes : ℕ
  holdLimit : ℕ

/-- `emit_opaque` for one byte, after whether the marker of the line is out. -/
def emitOpaque : Transducer Bool UInt8 UInt8 := fun started byte =>
  if byte = crByte then (started, [byte])
  else if byte = lfByte then (false, [byte])
  else if started then (true, [])
  else (true, lineMarker)

/-- The file class of a command's output. -/
def classOf (command : List Char) : FileClass :=
  if containsText ".cache/huggingface/token".toList command ||
      containsText ".huggingface/token".toList command then .hfToken
  else .plain

/-- The text of a group, masked line by line, while a recovery may be pending. -/
structure Rendered where
  masker : LineMasker
  recoveryPending : Bool
  anyMask : Bool
  text : List Char

namespace Rendered

/-- One visible line of a group. -/
def line (r : Rendered) (raw : List Char) : Rendered :=
  let body := lineBody raw
  let (masker, masked, count) := r.masker.maskLineCounted body
  let blank := decide (trim body = [])
  { masker := if r.recoveryPending && blank then (masker.scan "X_TOKEN".toList).1 else masker
    recoveryPending := r.recoveryPending && blank
    anyMask := r.anyMask || decide (count ≠ 0)
    text := r.text ++ masked ++ raw.drop body.length }

end Rendered

/-- How many carriage returns some bytes end in. -/
def trailingCrs (bytes : List UInt8) : ℕ := (bytes.reverse.takeWhile (· == crByte)).length

namespace StreamMasker

/-- `new`, for any limit of what is held. -/
def withLimit (command : List Char) (holdLimit : ℕ) : StreamMasker :=
  ⟨.new (classOf command), [], [], .default, .default, .scanning, false, false, false, 0, holdLimit⟩

/-- The masker of a command's output. -/
def new (command : List Char) : StreamMasker := withLimit command maxHeldBytes

variable (s : StreamMasker)

/-- Raw bytes held. -/
def held : ℕ := s.pending.length

/-- Forgets the piece at hand. -/
def clearPiece : StreamMasker := { s with pending := [], cleaned := [] }

/-- Starts the scanner over. -/
def resetScanner : StreamMasker :=
  { s with masker := .new s.masker.fileClass, stateInputBytes := 0, recoveryPending := false }

/-- Shows nothing of the stream from here on. -/
def makeOpaque : StreamMasker :=
  { resetScanner { s with mode := .opaqueStream } with carry := .default }

/-- `prime_recovery`: an open quote masks up to the next blank line. -/
def primeRecovery : StreamMasker :=
  { s with masker := (s.masker.scan "X_TOKEN=\"".toList).1, recoveryPending := true }

/-- `scan_piece`: of an overlong line only the carry is kept. -/
def scanPiece : StreamMasker :=
  let s :=
    if s.mode = .overlongLine then
      let carry := s.carry.feed s.cleaned s.pending.length maxStateInputBytes
      if carry.unrepresentable then { s with carry := carry }.makeOpaque
      else { s with carry := carry }
    else s
  s.clearPiece

/-- The visible lines of a group. -/
def lines : List (List Char) := if s.cleaned = [] then [[]] else splitInclusive '\n' s.cleaned

/-- The lines of the group, masked. -/
def rendered : Rendered :=
  s.lines.foldl Rendered.line ⟨s.masker, s.recoveryPending, false, []⟩

/-- What comes out of the group, and whether the marker of a line is out then. -/
def shownGroup : Bool × List UInt8 :=
  if !s.rendered.anyMask then (s.opaqueLine, s.pending)
  else if lfByte ∈ s.pending then Transducer.run emitOpaque s.opaqueLine s.pending
  else
    -- Trailing CRs that a control sequence hides still frame the line.
    let text := ModelProxy.Utf8.encode s.rendered.text
    (s.opaqueLine, text ++ List.replicate (trailingCrs s.pending - trailingCrs text) crByte)

/-- The input behind what is open after the group. -/
def liveBytes : ℕ :=
  if s.rendered.masker.inContinuation then s.stateInputBytes + (s.pending.length + 1) else 0

/-- `emit_group`. -/
def emitGroup : StreamMasker × List UInt8 :=
  if s.mode ≠ .scanning then (s.scanPiece, [])
  else
    let after : StreamMasker :=
      { s with
        masker := s.rendered.masker
        recoveryPending := s.rendered.recoveryPending
        opaqueLine := s.shownGroup.1
        stateInputBytes := s.liveBytes }
    ((if maxStateInputBytes < s.liveBytes then after.makeOpaque else after).clearPiece,
      s.shownGroup.2)

/-- The held bytes are at the limit and the group goes on. -/
def overflow : StreamMasker × List UInt8 :=
  if s.mode = .scanning then
    let liveOpener := s.masker.hasContentContinuation ||
      (s.masker.inContinuation && !s.recoveryPending)
    let shown := Transducer.run emitOpaque s.opaqueLine s.pending
    ({ resetScanner { s with mode := if liveOpener then .opaqueStream else .overlongLine } with
        opaqueLine := shown.1 }.scanPiece, shown.2)
  else (s.scanPiece, [])

/-- The end of an overlong line. -/
def recover : StreamMasker :=
  let s := resetScanner { s with mode := .scanning }
  let (masker, cost) := s.carry.recover s.masker
  match cost with
  | some cost =>
    { primeRecovery { s with masker := masker, carry := .default } with stateInputBytes := cost }
  | none => makeOpaque { s with carry := .default }

/-- One byte of `push`. -/
def pushByte : Transducer StreamMasker UInt8 UInt8 := fun s byte =>
  let full := if s.pending.length = s.holdLimit ∧ ¬ (byte = lfByte ∧ s.terminal.atBoundary) then
      s.overflow
    else (s, [])
  let s := full.1
  let fed := s.terminal.decode byte
  let s := { s with terminal := fed.1, cleaned := s.cleaned ++ fed.2 }
  if byte = lfByte ∧ s.terminal.atBoundary then
    let group := emitGroup { s with cleaned := s.cleaned.dropLast }
    let s := { group.1 with opaqueLine := false }
    (if s.mode = .overlongLine then s.recover else s, full.2 ++ group.2 ++ [byte])
  else
    let shown : Bool × List UInt8 :=
      if s.mode ≠ .scanning then emitOpaque s.opaqueLine byte else (s.opaqueLine, [])
    ({ s with opaqueLine := shown.1, pending := s.pending ++ [byte] }, full.2 ++ shown.2)

/-- `push`. -/
def push (bytes : List UInt8) : StreamMasker × List UInt8 :=
  if s.finished then (s, []) else Transducer.run pushByte s bytes

/-- `finish`. -/
def finish : StreamMasker × List UInt8 :=
  if s.finished then (s, [])
  else
    let fed := s.terminal.finishClean
    let s := { s with terminal := fed.1, cleaned := s.cleaned ++ fed.2 }
    let group := if s.pending = [] then (s, []) else s.emitGroup
    ({ group.1.resetScanner with carry := .default, finished := true }, group.2)

/-- A whole stream, in any chunks. -/
def maskChunks (chunks : List (List UInt8)) : List UInt8 :=
  let pushed := Transducer.run push s chunks
  pushed.2 ++ pushed.1.finish.2

end StreamMasker

end ModelProxy.Output
