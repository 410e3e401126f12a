import ModelProxy.CanonicalRequests

/-! # The incremental SSE decoder

`SseDecoder` takes a stream of bytes in chunks, cuts its text at blank lines, and hands out a
record for each complete event, with the number of stream bytes read up to its end.  Text is
a list of characters: a fatal UTF-8 decoder hands out no lone surrogates.
-/
namespace ModelProxy

namespace Protocols.AdapterError
open Js (ofText)

/-- The decoder was finished before. -/
def streamClosed : AdapterError := ⟨"stream_closed", "SSE decoder is already closed.", none⟩

/-- The stream is not UTF-8. -/
def invalidUtf8 : AdapterError := ⟨"invalid_utf8", "SSE stream was not valid UTF-8.", none⟩

/-- An event is over the limit. -/
def streamBufferExceeded : AdapterError :=
  ⟨"stream_buffer_exceeded", "SSE event exceeded the bounded buffer.", none⟩

/-- The stream ends inside an event. -/
def truncatedStream : AdapterError :=
  ⟨"truncated_stream", "SSE stream ended inside an event.", none⟩

/-- A field the decoder does not know. -/
def unsupportedSseField (field : List Char) : AdapterError :=
  ⟨"unsupported_sse_field", "Unsupported SSE field: " ++ ofText field ++ ".", none⟩

end Protocols.AdapterError

namespace Sse
open Protocols (AdapterError)
open Utf8 (byteLength)

/-- An event of the stream. -/
structure SseRecord where
  event : Option (List Char)
  data : List Char
  id : Option (List Char)
deriving DecidableEq, Repr

/-! ## A record -/

/-- What the lines of a record have set so far. -/
structure Fields where
  event : Option (List Char)
  id : Option (List Char)
  data : List (List Char)

/-- One line of a record. -/
def readLine (fields : Fields) (line : List Char) : Except AdapterError Fields :=
  if line = [] ∨ line.head? = some ':' then .ok fields
  else
    let field := line.takeWhile (· != ':')
    -- Without a colon nothing is left to drop, and the value is empty.
    let value := (line.dropWhile (· != ':')).tail
    let value := if value.head? = some ' ' then value.tail else value
    if field = "event".toList then .ok { fields with event := some value }
    else if field = "data".toList then .ok { fields with data := fields.data ++ [value] }
    else if field = "id".toList ∧ '\x00' ∉ value then .ok { fields with id := some value }
    else if field ≠ "id".toList then .error (.unsupportedSseField field)
    else .ok fields

/-- `parseRecord`: nothing without a data line. -/
def parseRecord (raw : List Char) : Except AdapterError (Option SseRecord) := do
  let fields ← (raw.splitOn '\n').foldlM readLine ⟨none, none, []⟩
  if fields.data = [] then return none
  else return some ⟨fields.event, ['\n'].intercalate fields.data, fields.id⟩

/-! ## The text decoder -/

/-- A fatal UTF-8 `TextDecoder` that drops a leading byte order mark. -/
structure TextDecoder where
  utf8 : Utf8.Decoder
  bomSeen : Bool
deriving DecidableEq, Repr

/-- A decoder that has read nothing. -/
def TextDecoder.new : TextDecoder := ⟨.idle, false⟩

/-- The byte order mark is dropped if it is the first character of the stream. -/
def TextDecoder.serialize (bomSeen : Bool) : List ℕ → List ℕ
  | [] => []
  | point :: points => if bomSeen = false ∧ point = 0xFEFF then points else point :: points

/-- `decode(chunk, { stream: true })`, `none` where it throws. -/
def TextDecoder.decode (decoder : TextDecoder) (chunk : List UInt8) :
    Option (TextDecoder × List Char) :=
  let (utf8, items) := Transducer.run Utf8.step decoder.utf8 chunk
  if none ∈ items then none
  else
    let points := items.filterMap id
    some (⟨utf8, decoder.bomSeen || !points.isEmpty⟩,
      (serialize decoder.bomSeen points).map Char.ofNat)

/-- `decode()`: a character cut short throws, and nothing else is left to hand out. -/
def TextDecoder.flush (decoder : TextDecoder) : Option (List Char) :=
  if Utf8.finish decoder.utf8 = [] then some [] else none

/-! ## The decoder -/

/-- The first match of `/\r\n\r\n|\n\n|\r\r/`: its index and its length. -/
def terminator : List Char → Option (ℕ × ℕ)
  | [] => none
  | c :: rest =>
    if ['\r', '\n', '\r', '\n'] <+: c :: rest then some (0, 4)
    else if ['\n', '\n'] <+: c :: rest then some (0, 2)
    else if ['\r', '\r'] <+: c :: rest then some (0, 2)
    else (terminator rest).map fun found => (found.1 + 1, found.2)

/-- `replaceAll("\r\n", "\n")`. -/
def replaceCrLf : List Char → List Char
  | [] => []
  | [c] => [c]
  | c :: c' :: rest =>
    if c = '\r' ∧ c' = '\n' then '\n' :: replaceCrLf rest else c :: replaceCrLf (c' :: rest)

/-- Both replacements: every line ends in a line feed. -/
def normalize (text : List Char) : List Char :=
  (replaceCrLf text).map fun c => if c = '\r' then '\n' else c

/-- The decoder between two chunks. -/
structure SseDecoder where
  maxBufferBytes : ℕ
  decoder : TextDecoder
  buffer : List Char
  finished : Bool
  consumedBytes : ℕ
  /-- `#prefix`: the first bytes of the stream, up to three. -/
  leading : List UInt8

/-- A decoder with its limit. -/
def SseDecoder.new (maxBufferBytes : ℕ) : SseDecoder :=
  ⟨maxBufferBytes, .new, [], false, 0, []⟩

/-- The UTF-8 byte order mark. -/
def bom : List UInt8 := [0xEF, 0xBB, 0xBF]

namespace SseDecoder
variable (d : SseDecoder)

/-- `#guard`. -/
def guard : Except AdapterError Unit :=
  if d.maxBufferBytes < byteLength d.buffer then .error .streamBufferExceeded else .ok ()

/-- The loop of `#drain`, with each record the offset its observer is given.  Every turn
takes a terminator off the buffer, so its length bounds the turns. -/
def drainLoop : ℕ → SseDecoder → Except AdapterError (SseDecoder × List (SseRecord × ℕ))
  | 0, d => .ok (d, [])
  | turns + 1, d =>
    match terminator d.buffer with
    | none => .ok (d, [])
    | some (index, length) =>
      let frame := d.buffer.take (index + length)
      let raw := normalize (d.buffer.take index)
      if d.maxBufferBytes < byteLength raw then .error .streamBufferExceeded
      else do
        let consumedBytes := d.consumedBytes + byteLength frame
        let record ← parseRecord raw
        let (d', records) ← drainLoop turns
          { d with buffer := d.buffer.drop (index + length), consumedBytes := consumedBytes }
        return (d', (record.map fun record => (record, consumedBytes)).toList ++ records)

/-- `#drain`. -/
def drain (final : Bool) : Except AdapterError (SseDecoder × List (SseRecord × ℕ)) := do
  let (d', records) ← drainLoop d.buffer.length d
  if final = true ∧ 0 < d'.buffer.length then .error .truncatedStream
  else return (d', records)

/-- The bytes `#prefix` takes in, and the byte order mark counted once it is there. -/
def takeLeading (chunk : List UInt8) : SseDecoder :=
  if d.leading.length < 3 then
    let leading := d.leading ++ chunk.take (3 - d.leading.length)
    { d with
      leading := leading
      consumedBytes := if leading = bom then d.consumedBytes + 3 else d.consumedBytes }
  else d

/-- `push`: the records of the chunk, with the offsets its observer is given. -/
def push (chunk : List UInt8) : Except AdapterError (SseDecoder × List (SseRecord × ℕ)) :=
  if d.finished then .error .streamClosed
  else
    let d := d.takeLeading chunk
    match d.decoder.decode chunk with
    | none => .error .invalidUtf8
    | some (decoder, text) => do
        let (d', records) ←
          { d with decoder := decoder, buffer := d.buffer ++ text }.drain false
        d'.guard
        return (d', records)

/-- `finish`. -/
def finish : Except AdapterError (SseDecoder × List SseRecord) :=
  if d.finished then .ok (d, [])
  else
    match d.decoder.flush with
    | none => .error .invalidUtf8
    | some text => do
        let (d', records) ← { d with finished := true, buffer := d.buffer ++ text }.drain true
        d'.guard
        return (d', records.map Prod.fst)

/-- Chunks pushed one after the other. -/
def pushAll (d : SseDecoder) :
    List (List UInt8) → Except AdapterError (SseDecoder × List (SseRecord × ℕ))
  | [] => .ok (d, [])
  | chunk :: chunks => do
      let (d', records) ← d.push chunk
      let (d'', more) ← d'.pushAll chunks
      return (d'', records ++ more)

end SseDecoder

/-- What a caller gets of a stream: the records returned, and those its observer saw with
their offsets. -/
structure Decoded where
  records : List SseRecord
  observed : List (SseRecord × ℕ)
deriving DecidableEq, Repr

/-- A stream pushed in chunks and finished. -/
def decodeChunks (maxBufferBytes : ℕ) (chunks : List (List UInt8)) :
    Except AdapterError Decoded := do
  let (d, observed) ← (SseDecoder.new maxBufferBytes).pushAll chunks
  let (_, last) ← d.finish
  return ⟨observed.map Prod.fst ++ last, observed⟩

end Sse

end ModelProxy
