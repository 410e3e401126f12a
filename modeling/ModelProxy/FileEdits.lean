import ModelProxy.FileWindow

/-! # Edits of a text file

A request replaces exact texts and ranges of lines, all of them found in the original file
and applied at once or not at all.  Exact texts are looked for in the masked view, and no
edit may touch a masked part or leave one in a place where it is not masked any more.
Opening, locking and writing the file are left out: an edit goes from the file's bytes and
etag to its new text.
-/
namespace ModelProxy.Redact

/-- `partition_point`: how many elements pass a test that those behind them fail. -/
def partitionPoint {α : Type} (test : α → Bool) (list : List α) : ℕ := (list.takeWhile test).length

namespace MaskedView

/-- `overlaps_span`: whether a range of the view overlaps a masked span.  An empty range does
only strictly inside one. -/
def overlapsSpan (view : MaskedView) (range : ByteRange) : Bool :=
  match view.spans[
    partitionPoint (fun span => decide (span.view.stop ≤ range.start)) view.spans]? with
  | none => false
  | some span =>
    if range.start = range.stop then
      decide (span.view.start < range.start) && decide (range.start < span.view.stop)
    else decide (range.start < span.view.stop) && decide (span.view.start < range.stop)

/-- `to_orig`: the position in the text of one in the view that is not inside a span. -/
def toOrig (view : MaskedView) (pos : ℕ) : ℕ :=
  let idx := partitionPoint (fun span => decide (span.view.stop ≤ pos)) view.spans
  let delta := if idx = 0 then 0 else view.cum.getD (idx - 1) 0
  ((pos : Int) + delta).toNat

end MaskedView

end ModelProxy.Redact

namespace ModelProxy.FileEdit
open Redact
open Utf8 (byteLength)

/-! ## Errors -/

/-- The codes of a failed edit. -/
inductive ErrorCode
  | binaryFile | tooLarge | conflict | matchCount | noMatch | redactedSpan | invalidInput
deriving DecidableEq, Repr

/-- A value in an error's detail. -/
inductive DetailValue
  | null
  | number (n : ℕ)
  | numbers (list : List ℕ)
  | text (value : String)
deriving DecidableEq, Repr

/-- How an edit fails. -/
structure FileError where
  code : ErrorCode
  message : String
  detail : Option (List (String × DetailValue))
deriving DecidableEq, Repr

/-- An error without detail. -/
def FileError.new (code : ErrorCode) (message : String) : FileError := ⟨code, message, none⟩

/-- The error with detail. -/
def FileError.withDetail (e : FileError) (detail : List (String × DetailValue)) : FileError :=
  { e with detail := some detail }

/-- The input is not well formed. -/
def FileError.invalid (message : String) : FileError := .new .invalidInput message

/-- The file is not the one that was read. -/
def FileError.conflict (currentEtag : String) : FileError :=
  (FileError.new .conflict "the file changed since it was read; re-read it and retry").withDetail
    [("currentEtag", .text currentEtag)]

/-! ## Files and their lines -/

/-- What a file that is no text looks like. -/
inductive BinaryKind
  | gguf | safetensors | elf | gzip | zip | utf16 | unknown
deriving DecidableEq, Repr

/-- The kind as an error names it. -/
def BinaryKind.text : BinaryKind → String
  | gguf => "gguf"
  | safetensors => "safetensors"
  | elf => "elf"
  | gzip => "gzip"
  | zip => "zip"
  | utf16 => "utf16"
  | unknown => "unknown"

/-- SNIFF_BYTES -/
def sniffBytes : ℕ := 8 * 1024

/-- `sniff_binary`. -/
def sniffBinary (bytes : List UInt8) : Option BinaryKind :=
  let head := bytes.take sniffBytes
  if [0x47, 0x47, 0x55, 0x46] <+: head then some .gguf
  else if [0x7F, 0x45, 0x4C, 0x46] <+: head then some .elf
  else if [0x1F, 0x8B] <+: head then some .gzip
  else if [0x50, 0x4B, 0x03, 0x04] <+: head then some .zip
  else if [0xFF, 0xFE] <+: head ∨ [0xFE, 0xFF] <+: head then some .utf16
  else if [0x00, 0x00, 0xFE, 0xFF] <+: head then some .utf16
  else if head[8]? = some 0x7B ∧ head[6]? = some 0 ∧ head[7]? = some 0 then some .safetensors
  else if 0 ∈ head then some .unknown
  else none

/-- The file is not text. -/
def binaryError (kind : BinaryKind) (size : ℕ) (etag : String) : FileError :=
  (FileError.new .binaryFile "file is not text").withDetail
    [("size", .number size), ("etag", .text etag), ("sniff", .text kind.text)]

/-- `count_lines`: line feeds, and one for a last line without any. -/
def countLines (bytes : List UInt8) : ℕ :=
  bytes.count lfByte + if bytes ≠ [] ∧ bytes.getLast? ≠ some lfByte then 1 else 0

/-- How the lines of a file end. -/
inductive Eol
  | lf | crlf | mixed | none
deriving DecidableEq, Repr

/-- The line feeds of some bytes without and with a carriage return before them. -/
def countEols : UInt8 → List UInt8 → ℕ × ℕ
  | _, [] => (0, 0)
  | prev, b :: bytes =>
    let rest := countEols b bytes
    if b = lfByte then if prev = 0x0D then (rest.1, rest.2 + 1) else (rest.1 + 1, rest.2)
    else rest

/-- The line ends a file uses. -/
def detectEol (bytes : List UInt8) : Eol :=
  match countEols 0 bytes with
  | (0, 0) => .none
  | (_, 0) => .lf
  | (0, _) => .crlf
  | _ => .mixed

/-- `line_start`, the function `line_offset` is too. -/
def lineStart (bytes : List UInt8) (n : ℕ) : ℕ := lineOffset bytes n

/-- `translate_eol` after a character. -/
def translateEolFrom : Char → List Char → List Char
  | _, [] => []
  | prev, c :: rest =>
    if c = '\n' ∧ prev ≠ '\r' then '\r' :: c :: translateEolFrom c rest
    else c :: translateEolFrom c rest

/-- `translate_eol`: in a file of CRLF lines a bare LF means CRLF. -/
def translateEol (text : List Char) (crlf : Bool) : List Char :=
  if crlf then translateEolFrom '\x00' text else text

/-- `line_of`: the number of the line a byte is on. -/
def lineOf (text : List Char) (byte : ℕ) : ℕ := (takeBytes byte text).count '\n' + 1

/-- `str::lines`. -/
def lines (text : List Char) : List (List Char) :=
  (splitInclusive '\n' text).map fun line =>
    if line.getLast? = some '\n' then
      let line := line.dropLast
      if line.getLast? = some '\r' then line.dropLast else line
    else line

/-- How many characters two texts begin with alike. -/
def commonLength : List Char → List Char → ℕ
  | c :: rest, d :: rest' => if c = d then commonLength rest rest' + 1 else 0
  | _, _ => 0

/-- `nearest_line`: the first of the lines that share most with the first line of `old`. -/
def nearestLine (haystack old : List Char) : Option ℕ :=
  let first := (lines old).head?.getD old
  let best := (lines haystack).zipIdx.foldl
    (fun (best : Option (ℕ × ℕ)) line =>
      let common := commonLength line.1 first
      if 0 < common ∧ (best.all fun found => decide (found.2 < common)) then
        some (line.2 + 1, common)
      else best) none
  best.map Prod.fst

/-- `match_indices` from a position on, where the next `skip` characters belong to a match:
the occurrences of a word that do not overlap. -/
def matchIndicesFrom (word : List Char) : ℕ → ℕ → List Char → List ℕ
  | at_, _, [] => if word = [] then [at_] else []
  | at_, skip, c :: rest =>
    if skip = 0 ∧ word <+: c :: rest then
      at_ :: matchIndicesFrom word (at_ + byteLength [c]) (word.length - 1) rest
    else matchIndicesFrom word (at_ + byteLength [c]) (skip - 1) rest

/-- Where a text has a word. -/
def matchIndices (word text : List Char) : List ℕ := matchIndicesFrom word 0 0 text

/-- `text.get(range)`: nothing unless the range is one and on character boundaries. -/
def getRange (text : List Char) (range : ByteRange) : Option (List Char) :=
  if range.start ≤ range.stop ∧ byteLength (takeBytes range.start text) = range.start ∧
      byteLength (takeBytes range.stop text) = range.stop then
    some (slice text range.start range.stop)
  else none

/-! ## Requests -/

/-- How often an edit's text may occur. -/
inductive ExpectedMatches
  | count (n : ℕ)
  | all (word : String)
deriving DecidableEq, Repr

/-- An edit: a text to replace, or lines. -/
structure EditOp where
  oldText : Option (List Char)
  newText : List Char
  expectedMatches : Option ExpectedMatches
  startLine : Option ℕ
  endLine : Option ℕ
deriving DecidableEq, Repr

/-- A request to edit a file. -/
structure EditArgs where
  expectedEtag : Option String
  edits : List EditOp
  dryRun : Option Bool
  reason : Option (List Char)
deriving DecidableEq, Repr

/-- MAX_EDITS -/
def maxEdits : ℕ := 20

/-- MAX_EDIT_FILE_BYTES -/
def maxEditFileBytes : ℕ := 16 * 1024 * 1024

/-- MAX_NEW_TEXT_BYTES -/
def maxNewTextBytes : ℕ := 1024 * 1024

/-- MAX_MATCHES_PER_EDIT -/
def maxMatchesPerEdit : ℕ := 100000

/-- One turn of the loop of `validate_args`: whether the edit needs an etag. -/
def validateOp (op : EditOp) : Except FileError Bool :=
  let shape : FileError := .invalid
    "each edit is either \x7boldText,newText[,expectedMatches]\x7d or \x7bstartLine,endLine,newText\x7d"
  let kind : Except FileError Bool :=
    match op.oldText, op.startLine, op.endLine with
    | some old, none, none =>
      if old = [] then .error (.invalid "oldText must not be empty") else .ok false
    | none, some _, some _ => if op.expectedMatches = none then .ok true else .error shape
    | _, _, _ => .error shape
  kind.bind fun needsEtag =>
    if maxNewTextBytes < byteLength op.newText then .error (.invalid "newText is longer than 1 MiB")
    else if containsText maskOpen op.newText then
      .error (.new .redactedSpan
        "newText contains a redaction marker; masked text cannot be written back")
    else .ok needsEtag

/-- `validate_args`. -/
def validateArgs (args : EditArgs) : Except FileError Unit :=
  if args.reason.any fun reason => decide (500 < reason.length) then
    .error (.invalid "reason is longer than 500 characters")
  else if args.edits = [] ∨ maxEdits < args.edits.length then
    .error (.invalid s!"edits must hold 1 to {maxEdits} entries")
  else
    (args.edits.mapM validateOp).bind fun needsEtag =>
      if true ∈ needsEtag ∧ args.expectedEtag = none then
        .error (.invalid "expectedEtag is required for line-range edits")
      else .ok ()

/-! ## Plans -/

/-- A range of the original to be replaced, and by the text of which edit. -/
structure Planned where
  orig : ByteRange
  edit : ℕ
deriving DecidableEq, Repr

/-- How many matches an edit asks for, or all. -/
def EditOp.expected (op : EditOp) : Except FileError (Option ℕ) :=
  match op.expectedMatches with
  | none => .ok (some 1)
  | some (.count 0) => .error (.invalid "expectedMatches must be at least 1 or \"all\"")
  | some (.count n) => .ok (some n)
  | some (.all word) =>
    if word = "all" then .ok none
    else .error (.invalid "expectedMatches must be a positive number or \"all\"")

/-- `plan_exact`: the ranges, and by how much the file grows. -/
def planExact (view : MaskedView) (old : List Char) (newLen : ℕ) (op : EditOp) (index : ℕ) :
    Except FileError (List Planned × Int) :=
  let found := (matchIndices old view.text).take (maxMatchesPerEdit + 1)
  if maxMatchesPerEdit < found.length then
    .error ((FileError.new .matchCount
      s!"edit {index}: more than {maxMatchesPerEdit} matches; narrow oldText").withDetail
      [("edit", .number index), ("moreThan", .number maxMatchesPerEdit)])
  else if found = [] then
    .error ((FileError.new .noMatch s!"edit {index}: oldText was not found").withDetail
      [("edit", .number index),
        ("nearestLine", ((nearestLine view.text old).map DetailValue.number).getD .null)])
  else
    op.expected.bind fun expected =>
      let count := expected.getD found.length
      let total := found.length
      if count ≠ total then
        .error ((FileError.new .matchCount
          s!"edit {index}: expected {count} match(es), found {total}").withDetail
          [("edit", .number index), ("expected", .number count), ("found", .number total),
            ("lines", .numbers ((found.take 5).map (lineOf view.text)))])
      else
        match found.find? fun at_ => view.overlapsSpan ⟨at_, at_ + byteLength old⟩ with
        | some at_ =>
          .error ((FileError.new .redactedSpan
            s!"edit {index}: the match touches a redacted value and cannot be edited").withDetail
            [("edit", .number index), ("line", .number (lineOf view.text at_))])
        | none =>
          .ok (found.map fun at_ =>
              ⟨⟨view.toOrig at_, view.toOrig (at_ + byteLength old)⟩, index⟩,
            total * ((newLen : Int) - byteLength old))

/-- `plan_lines`. -/
def planLines (view : MaskedView) (original : List UInt8) (start stop newLen index : ℕ) :
    Except FileError (List Planned × Int) :=
  let total := countLines original
  if start = 0 ∨ total < stop ∨ stop < start - 1 ∨ total + 1 < start then
    .error (.invalid
      s!"edit {index}: line range {start}..{stop} is outside the file ({total} lines)")
  else
    let range : ByteRange := ⟨lineStart original (start - 1), lineStart original stop⟩
    if view.spans.any fun span =>
        decide (range.start < span.orig.stop) && decide (span.orig.start < range.stop) then
      .error ((FileError.new .redactedSpan
        s!"edit {index}: the line range covers a redacted value and cannot be replaced").withDetail
        [("edit", .number index)])
    else .ok ([⟨range, index⟩], (newLen : Int) - (range.stop - range.start : ℕ))

/-- The plan of one edit of a request. -/
def planEdit (view : MaskedView) (original : List UInt8) (crlf : Bool) (index : ℕ) (op : EditOp) :
    Except FileError (List Planned × Int) :=
  let newLen := byteLength (translateEol op.newText crlf)
  if maxNewTextBytes < newLen then .error (.invalid "newText is longer than 1 MiB")
  else
    match op.oldText, op.startLine, op.endLine with
    | some old, _, _ => planExact view (translateEol old crlf) newLen op index
    | none, some start, some stop => planLines view original start stop newLen index
    | _, _, _ => .error (.invalid "malformed edit")

/-- The plans of the edits from one on, in the order of the request. -/
def planEdits (view : MaskedView) (original : List UInt8) (crlf : Bool) :
    ℕ → List EditOp → Except FileError (List Planned × Int)
  | _, [] => .ok ([], 0)
  | index, op :: ops =>
    (planEdit view original crlf index op).bind fun first =>
      (planEdits view original crlf (index + 1) ops).bind fun rest =>
        .ok (first.1 ++ rest.1, first.2 + rest.2)

/-- The order plans are sorted in. -/
def PlannedBefore (p q : Planned) : Prop :=
  p.orig.start < q.orig.start ∨ p.orig.start = q.orig.start ∧ p.orig.stop ≤ q.orig.stop

instance : DecidableRel PlannedBefore := fun p q => by
  unfold PlannedBefore
  infer_instance

/-- Whether two plans that follow each other overlap or start together. -/
def plansOverlap : List Planned → Bool
  | p :: q :: rest =>
    decide (q.orig.start < p.orig.stop) || decide (q.orig.start = p.orig.start) ||
      plansOverlap (q :: rest)
  | _ => false

/-- A request as it stands when every edit is planned. -/
structure EditPlan where
  original : List Char
  view : MaskedView
  crlf : Bool
  planned : List Planned
  newTexts : List (List Char)
  /-- The size of the file after the edits. -/
  size : Int

/-- The first half of `edit_validated`: the checks of the file and the plans. -/
def planRequest (fileClass : FileClass) (bytes : List UInt8) (etag : String) (args : EditArgs) :
    Except FileError EditPlan :=
  if maxEditFileBytes < bytes.length then
    .error (.new .tooLarge s!"file is larger than {maxEditFileBytes} bytes")
  else if args.expectedEtag.any fun expected => decide (expected ≠ etag) then
    .error (.conflict etag)
  else
    match sniffBinary bytes, Utf8.fromUtf8 bytes with
    | some kind, _ => .error (binaryError kind bytes.length etag)
    | none, none => .error (binaryError .unknown bytes.length etag)
    | none, some original =>
      let view := mask fileClass original
      let crlf := detectEol bytes == .crlf
      (planEdits view bytes crlf 0 args.edits).bind fun plans =>
        let planned := plans.1.insertionSort PlannedBefore
        if plansOverlap planned then
          .error (.invalid "edits overlap; every edit is evaluated against the original file")
        else
          .ok ⟨original, view, crlf, planned,
            args.edits.map fun op => translateEol op.newText crlf, bytes.length + plans.2⟩

/-! ## Applying the plans -/

/-- The text of the edit a plan belongs to. -/
def replacement (newTexts : List (List Char)) (p : Planned) : List Char := newTexts.getD p.edit []

/-- The new text from a position of the original on. -/
def applyPlans (original : List Char) (newTexts : List (List Char)) :
    ℕ → List Planned → Option (List Char)
  | cursor, [] => getRange original ⟨cursor, byteLength original⟩
  | cursor, p :: rest =>
    (getRange original ⟨cursor, p.orig.start⟩).bind fun kept =>
      (applyPlans original newTexts p.orig.stop rest).map fun updated =>
        kept ++ replacement newTexts p ++ updated

/-- By how much a plan lengthens the text. -/
def lengthChange (newTexts : List (List Char)) (p : Planned) : Int :=
  (byteLength (replacement newTexts p) : Int) - (p.orig.stop - p.orig.start : ℕ)

/-- The running sums of the length changes. -/
def runningChanges (newTexts : List (List Char)) : Int → List Planned → List Int
  | _, [] => []
  | running, p :: rest =>
    let running := running + lengthChange newTexts p
    running :: runningChanges newTexts running rest

/-- The walk over the spans from a position on: whether they cover the bytes up to `stop`. -/
def coveredTo (stop : ℕ) : ℕ → List Span → Bool
  | cursor, [] => decide (stop ≤ cursor)
  | cursor, span :: spans =>
    if stop ≤ cursor then true
    else if span.orig.start ≤ cursor then coveredTo stop span.orig.stop spans
    else false

/-- `masked_bytes_stay_masked`. -/
def maskedBytesStayMasked (before : MaskedView) (planned : List Planned)
    (newTexts : List (List Char)) (after : MaskedView) : Bool :=
  let changes := runningChanges newTexts 0 planned
  before.spans.all fun span =>
    let idx := partitionPoint (fun p : Planned => decide (p.orig.stop ≤ span.orig.start)) planned
    let delta := if idx = 0 then 0 else changes.getD (idx - 1) 0
    let start := ((span.orig.start : Int) + delta).toNat
    let stop := start + (span.orig.stop - span.orig.start)
    let at_ := partitionPoint (fun s : Span => decide (s.orig.stop ≤ start)) after.spans
    coveredTo stop start (after.spans.drop at_)

/-- What an accepted edit gives. -/
structure EditOutcome where
  updated : List Char
  /-- Whether the file is written. -/
  applied : Bool
deriving DecidableEq, Repr

/-- The second half of `edit_validated`: the new text and its checks. -/
def finishEdit (fileClass : FileClass) (dryRun : Bool) (plan : EditPlan) :
    Except FileError EditOutcome :=
  let tooLarge : FileError := .new .tooLarge "the edited file would exceed 16 MiB"
  if (maxEditFileBytes : Int) < plan.size then .error tooLarge
  else
    match applyPlans plan.original plan.newTexts 0 plan.planned with
    | none => .error (.new .redactedSpan "cannot map copied disk bytes")
    | some updated =>
      if maxEditFileBytes < byteLength updated then .error tooLarge
      else
        let after := mask fileClass updated
        if after.longConstruct then
          .error (.new .redactedSpan
            ("the file contains, or the edit would create, a masked multi-line value longer " ++
              "than the read lookback (1 MiB); a read could not mask it"))
        else if ¬ maskedBytesStayMasked plan.view plan.planned plan.newTexts after then
          .error (.new .redactedSpan
            "the edit would expose a redacted value; masked text cannot change context")
        else .ok ⟨updated, decide (updated ≠ plan.original) && !dryRun⟩

/-- `edit`: the arguments are checked, the edits planned, and the plans applied. -/
def edit (fileClass : FileClass) (bytes : List UInt8) (etag : String) (args : EditArgs) :
    Except FileError EditOutcome :=
  (validateArgs args).bind fun _ =>
    (planRequest fileClass bytes etag args).bind (finishEdit fileClass (args.dryRun.getD false))

end ModelProxy.FileEdit
