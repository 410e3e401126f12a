import Mathlib.Data.List.Sort
import ModelProxy.OrderedMap
import ModelProxy.SecretLines

/-! # The line masker

Lines are fed in file order, without their terminators.  A line is masked by its own rules
and by whatever earlier lines have opened and not yet closed: indentation blocks, a run up
to the next blank line, and private keys by label.
-/
namespace ModelProxy.Redact
open Utf8 (byteLength)

/-- A masked range of a line and what stands in its place. -/
structure LineMask where
  range : ByteRange
  token : List Char
deriving DecidableEq, Repr

/-- The whole line as one mask. -/
def wholeMask (line token : List Char) : LineMask := ⟨⟨0, byteLength line⟩, token⟩

/-- The line from `start` to its end, if that is anything. -/
def tailMask (line : List Char) (start : ℕ) : Option LineMask :=
  if start < byteLength line then
    some ⟨⟨start, byteLength line⟩, token (slice line start (byteLength line)).length⟩
  else none

/-! ## Merging overlapping masks -/

/-- By start, then by end. -/
def MaskBefore (a b : LineMask) : Prop :=
  a.range.start < b.range.start ∨ a.range.start = b.range.start ∧ a.range.stop ≤ b.range.stop

instance : DecidableRel MaskBefore := fun a b =>
  inferInstanceAs (Decidable (a.range.start < b.range.start ∨
    a.range.start = b.range.start ∧ a.range.stop ≤ b.range.stop))

/-- One mask of the sorted list: into the last merged one (the head here) if they overlap. -/
def absorb (merged : List (LineMask × Bool)) (mask : LineMask) : List (LineMask × Bool) :=
  match merged with
  | (last, _) :: earlier =>
    if mask.range.start < last.range.stop then
      ({ last with range := ⟨last.range.start, max last.range.stop mask.range.stop⟩ }, true)
        :: earlier
    else (mask, false) :: merged
  | [] => [(mask, false)]

/-- A merged range is counted again once all its members are known. -/
def recount (line : List Char) (merged : LineMask × Bool) : LineMask :=
  if merged.2 then
    { merged.1 with token := token (slice line merged.1.range.start merged.1.range.stop).length }
  else merged.1

/-- The masks in order, with those that overlap joined. -/
def merge (masks : List LineMask) (line : List Char) : List LineMask :=
  (((masks.insertionSort MaskBefore).foldl absorb []).reverse).map (recount line)

/-! ## A line's own rules -/

/-- What the rules make of a line: the masks, what the line opens, and what the next line
has to know. -/
structure LineBody where
  masks : List LineMask
  constructs : List Construct
  pendingFlagValue : Bool
  pendingTokenLine : Bool

/-- The rule of the file class: whether the generic rules apply, masks, and what it opens. -/
def classRule (fileClass : FileClass) (line : List Char) :
    Bool × List LineMask × List Construct :=
  match fileClass with
  | .sshPrivateKey => (false, if trim line = [] then [] else [wholeMask line tokenBare], [])
  | .hfToken => (false, if trim line = [] then [] else [wholeMask line (token line.length)], [])
  | .pemKey | .plain => (true, [], [])
  | .dotenv =>
    let trimmed := trimStart line
    if trimmed = [] then (false, [], [])
    else if trimmed.head? = some '#' then (true, [], [])
    else
      match dotenvAssign.search true line with
      | some tail =>
        (false, (tailMask line (byteLength line - byteLength tail)).toList,
          [constructForTail tail false (indentOf line) (quoteLeftOpen line)])
      | none =>
        (false, [wholeMask line tokenBare],
          [constructForTail line false (indentOf line) (quoteLeftOpen line)])

/-- A trailing backslash or an open quote runs to the next blank line. -/
def runsOn (line : List Char) : List Construct :=
  if (trimEnd line).getLast? = some '\\' ∨ quoteLeftOpen line then [.untilBlank] else []

/-- `scan_body`, as a function of the state it reads. -/
def scanBody (fileClass : FileClass) (pendingFlagValue pendingTokenLine : Bool)
    (line : List Char) : LineBody :=
  let (generic, masks, constructs) := classRule fileClass line
  let nextFlag := line.contains '-' && flagAtEnd.isMatch line
  if generic then
    let continued : List LineMask × List Construct :=
      match if pendingFlagValue then continuationValue line else none with
      | some (range, opened) => ((tailMask line range.start).toList, [opened])
      | none => ([], [])
    let masks := masks ++ continued.1
    let constructs := constructs ++ continued.2
    if (firstSecretName line).isSome then
      ⟨[wholeMask line tokenLine], constructs ++ [.block (indentOf line)] ++ runsOn line,
        nextFlag, true⟩
    else
      let flagged : List LineMask × List Construct :=
        match firstFlag line with
        | some (start, opened) => ((tailMask line start).toList, [opened])
        | none => ([], [])
      if pendingTokenLine ∧ trim line ≠ [] then
        ⟨[wholeMask line tokenLine], constructs ++ flagged.2 ++ runsOn line, nextFlag, false⟩
      else ⟨masks ++ flagged.1, constructs ++ flagged.2, nextFlag, false⟩
  else ⟨masks, constructs, nextFlag, false⟩

/-! ## The masker -/

/-- An open block: it masks lines indented deeper than `indent`. -/
structure OpenBlock where
  indent : ℕ
  ws : ℕ
  opener : ℕ
deriving DecidableEq, Repr

/-- The scanner's state between lines. -/
structure LineMasker where
  fileClass : FileClass
  lookback : ℕ
  /-- The offsets of the open BEGIN lines of each label, innermost last. -/
  pemOpen : OrderedMap (List Char) (List ℕ)
  /-- How many BEGINs are open at each offset. -/
  pemLatest : OrderedMap ℕ ℕ
  pendingFlagValue : Bool
  untilBlank : Option ℕ
  blocks : List OpenBlock
  pendingTokenLine : Bool
  tokenAt : Option ℕ
  nextAt : ℕ
  longRun : Bool

/-- `LOOKBACK_BYTES`. -/
def lookbackBytes : ℕ := 1024 * 1024

/-- The later of two openers. -/
def later : Option ℕ → Option ℕ → Option ℕ
  | some a, some b => some (max a b)
  | some a, none => some a
  | none, b => b

namespace LineMasker

/-- A scanner with the lookback of its own. -/
def withLookback (fileClass : FileClass) (lookback : ℕ) : LineMasker :=
  ⟨fileClass, lookback, .empty, .empty, false, none, [], false, none, 0, false⟩

/-- A scanner before its first line. -/
def new (fileClass : FileClass) : LineMasker := withLookback fileClass lookbackBytes

variable (m : LineMasker)

/-- A value that started on an earlier line is still open. -/
def inContinuation : Bool := m.untilBlank.isSome || !m.blocks.isEmpty || !m.pemOpen.entries.isEmpty

/-- The next line may continue a value. -/
def hasContentContinuation : Bool := m.untilBlank.isSome || !m.pemOpen.entries.isEmpty

/-- Whether a block stays open over a line that is not blank. -/
def staysOpen (line : List Char) (block : OpenBlock) : Bool :=
  decide (block.indent < indentOf line) ||
    (decide (0 < indentOf line) && mixedIndent block.ws (indentKinds line)) ||
    decide (some block.opener = m.tokenAt)

/-- The runs a line closes. -/
def closeRuns (line : List Char) : LineMasker :=
  if trim line = [] then { m with untilBlank := none }
  else { m with blocks := m.blocks.filter (m.staysOpen line) }

/-- The latest opener of the runs that mask a line, once it has closed what it closes. -/
def runOpener (line : List Char) : Option ℕ :=
  let openers := m.blocks.map OpenBlock.opener
  if trim line = [] then if line = [] then none else openers.max?
  else (openers ++ m.untilBlank.toList).max?

/-- One marker of a private key, on the line at `at_`. -/
def pemMarker (at_ : ℕ) (m : LineMasker) (marker : Bool × List Char) : LineMasker :=
  if marker.1 then
    { m with
      pemOpen := m.pemOpen.set marker.2 ((m.pemOpen.get marker.2).getD [] ++ [at_])
      pemLatest := m.pemLatest.set at_ ((m.pemLatest.get at_).getD 0 + 1) }
  else
    match m.pemOpen.get marker.2 with
    | none => m
    | some openers =>
      let pemLatest :=
        match openers.getLast? with
        | none => m.pemLatest
        | some opener =>
          match m.pemLatest.get opener with
          | none => m.pemLatest
          | some count =>
            if count - 1 = 0 then m.pemLatest.delete opener
            else m.pemLatest.set opener (count - 1)
      { m with
        pemOpen :=
          if openers.dropLast = [] then m.pemOpen.delete marker.2
          else m.pemOpen.set marker.2 openers.dropLast
        pemLatest := pemLatest }

/-- What a line opens. -/
def openConstruct (line : List Char) (at_ : ℕ) (m : LineMasker) : Construct → LineMasker
  | .none => m
  | .untilBlank => { m with untilBlank := some at_ }
  | .block lineIndent =>
    { m with
      blocks :=
        m.blocks.filter (fun block =>
          decide (block.indent ≠ lineIndent ∨ block.ws ≠ indentKinds line)) ++
        [⟨lineIndent, indentKinds line, at_⟩] }

/-- A private key is open, or the line has a marker of one. -/
def pemTouched (line : List Char) : Bool :=
  m.pemLatest.keys.max?.isSome || !(pemEvents line).isEmpty

/-- The latest opener of what masks a line at `at_`. -/
def maskedBy (line : List Char) (at_ : ℕ) : Option ℕ :=
  later (m.runOpener line)
    (m.pemLatest.keys.max?.or (if m.pemTouched line then some at_ else none))

/-- The masks of a line: its own, or all of it if something masks it. -/
def shownMasks (line : List Char) (pemTouched masked : Bool) (masks : List LineMask) :
    List LineMask :=
  -- The content of a private key stays opaque even where it holds a name.
  if pemTouched then [wholeMask line tokenBare]
  else if masked then
    match masks with
    | [mask] => if mask.range = ⟨0, byteLength line⟩ then [mask] else [wholeMask line tokenBare]
    | _ => [wholeMask line tokenBare]
  else if masks = [] then []
  else merge masks line

/-- `scan_at`: the masks of the line that starts at byte `at_`, and the state after it. -/
def scanAt (line : List Char) (at_ : ℕ) : LineMasker × List LineMask :=
  let m := { m with nextAt := at_ + byteLength line + 1 }.closeRuns line
  let maskedBy := m.maskedBy line at_
  let pemTouched := m.pemTouched line
  let m := (pemEvents line).foldl (pemMarker at_) m
  let body := scanBody m.fileClass m.pendingFlagValue m.pendingTokenLine line
  let m := { m with
    pendingFlagValue := body.pendingFlagValue
    pendingTokenLine := body.pendingTokenLine
    tokenAt := if body.pendingTokenLine then some at_ else none
    longRun := m.longRun || maskedBy.any fun opener => decide (m.lookback < at_ - opener) }
  (body.constructs.foldl (openConstruct line at_) m,
    shownMasks line pemTouched maskedBy.isSome body.masks)

/-- `scan`: the line after the last one. -/
def scan (line : List Char) : LineMasker × List LineMask := m.scanAt line m.nextAt

/-- The line with its masks replaced, from a position on. -/
def render (line : List Char) : ℕ → List LineMask → List Char
  | cursor, [] => slice line cursor (byteLength line)
  | cursor, mask :: masks =>
    slice line cursor mask.range.start ++ mask.token ++ render line mask.range.stop masks

/-- `mask_line_counted`. -/
def maskLineCounted (line : List Char) : LineMasker × List Char × ℕ :=
  let (m', masks) := m.scan line
  if masks = [] then (m', line, 0) else (m', render line 0 masks, masks.length)

end LineMasker

/-! ## The masked view of a text -/

/-- The line ends stripped before a line is scanned. -/
def isLineEnd (c : Char) : Bool := c == '\n' || c == '\r'

/-- A line without its terminator. -/
def lineBody (raw : List Char) : List Char := raw.rdropWhile isLineEnd

theorem lineBody_start (raw : List Char) : lineBody raw <+: raw :=
  List.rdropWhile_prefix isLineEnd raw

/-- The masks of lines that start at `offset`, and the masker after them. -/
def maskLines (m : LineMasker) (offset : ℕ) : List (List Char) → LineMasker × List (List LineMask)
  | [] => (m, [])
  | raw :: raws =>
    let (m', masks) := m.scanAt (lineBody raw) offset
    let (m'', rest) := maskLines m' (offset + byteLength raw) raws
    (m'', masks :: rest)

/-- A part of the view and where it stands in the line. -/
structure Span where
  view : ByteRange
  orig : ByteRange
deriving DecidableEq, Repr

/-- The spans of one line: the masks placed in the view, which has `written` bytes of the
line so far, and in the text, where the line starts at `offset`. -/
def placeMasks (line : List Char) (offset : ℕ) : ℕ → ℕ → List LineMask → List Span
  | _, _, [] => []
  | written, cursor, mask :: masks =>
    let viewStart := written + byteLength (slice line cursor mask.range.start)
    let viewStop := viewStart + byteLength mask.token
    ⟨⟨viewStart, viewStop⟩, ⟨offset + mask.range.start, offset + mask.range.stop⟩⟩ ::
      placeMasks line offset viewStop mask.range.stop masks

/-- One line of the view: its masked body and its own terminator. -/
def viewLine (raw : List Char) (masks : List LineMask) : List Char :=
  LineMasker.render (lineBody raw) 0 masks ++ raw.drop (lineBody raw).length

/-- The spans of the lines. -/
def placeLines : ℕ → ℕ → List (List Char) → List (List LineMask) → List Span
  | written, offset, raw :: raws, masks :: rest =>
    placeMasks (lineBody raw) offset written 0 masks ++
      placeLines (written + byteLength (viewLine raw masks)) (offset + byteLength raw) raws rest
  | _, _, _, _ => []

/-- The line as the scanner shows it. -/
structure MaskedView where
  text : List Char
  spans : List Span
  /-- Bytes of the text over bytes of the view, up to and including each span. -/
  cum : List Int
  longConstruct : Bool

/-- The running difference of `from_parts`. -/
def cumulative : Int → List Span → List Int
  | _, [] => []
  | delta, span :: spans =>
    let delta := delta + (((span.orig.stop - span.orig.start : ℕ) : Int) -
      ((span.view.stop - span.view.start : ℕ) : Int))
    delta :: cumulative delta spans

/-- The masks of each line of a text, and the masker after the last one. -/
def textMasks (fileClass : FileClass) (text : List Char) (lookback : ℕ) :
    LineMasker × List (List LineMask) :=
  maskLines (.withLookback fileClass lookback) 0 (splitInclusive '\n' text)

/-- `mask_with_lookback`. -/
def maskWithLookback (fileClass : FileClass) (text : List Char) (lookback : ℕ) : MaskedView :=
  let raws := splitInclusive '\n' text
  let (m, masks) := textMasks fileClass text lookback
  let spans := placeLines 0 0 raws masks
  ⟨((raws.zip masks).flatMap fun line => viewLine line.1 line.2), spans, cumulative 0 spans,
    m.longRun⟩

/-- `mask`. -/
def mask (fileClass : FileClass) (text : List Char) : MaskedView :=
  maskWithLookback fileClass text lookbackBytes

end ModelProxy.Redact
