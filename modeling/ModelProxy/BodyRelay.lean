import Mathlib.Data.List.Infix
import Mathlib.Data.Nat.Notation

/-! # Relaying a request body

The server pumps a request's body to the node in frames, one credit each; the node's worker
returns the credit once it has passed the chunk on.  The worker streams the body upstream, or reads
it whole first, to count its tokens or to expand its media.

One request's body, from the source to the HTTP client at the node.  Server, socket, relay loop,
worker and client take turns in any order, and either side may give up at any point.
-/
namespace ModelProxy.BodyRelay

/-- Bytes in their order. -/
abbrev Bytes := List UInt8

/-- RELAY_REQUEST_BODY_WINDOW_CHUNKS, also the capacity of the worker's channel. -/
def window : ℕ := 16

/-- RELAY_BINARY_CHUNK_MAX_BYTES -/
def binaryChunkMaxBytes : ℕ := 1024 * 1024

/-- UPSTREAM_BODY_HANDOFF_CAPACITY -/
def handoffCapacity : ℕ := 1

/-- A `relay.request.body` frame. -/
structure BodyFrame where
  chunkId : String
  final : Bool
  data : Bytes

/-- A chunk as the node has it. -/
structure BodyChunk where
  data : Bytes
  last : Bool
deriving DecidableEq

/-- The chunk of a frame. -/
def BodyFrame.chunk (frame : BodyFrame) : BodyChunk := ⟨frame.data, frame.final⟩

/-- What the body's source gives when it is asked: a chunk, or an exception. -/
inductive Yield where
  | chunk (data : Bytes)
  | throws

/-- The server's side of a body. -/
structure OutboundBodyStream where
  /-- What the source still gives. -/
  source : List Yield
  nextChunkIndex : ℕ
  bytesSent : ℕ
  totalBytes : ℕ
  credits : ℕ

/-- What the server reports for the request. -/
inductive Fault where
  /-- `protocol_error`: Relayed request body ended before its declared size. -/
  | endedShort
  /-- `transport`: Failed to read relayed request body. -/
  | unreadable

/-- Where the relay loop sends the request's body frames. -/
inductive RequestBody where
  | open
  | complete
  /-- The request left the live set: late frames are dropped. -/
  | retired
deriving DecidableEq

/-- `Complete` after the last chunk. -/
def RequestBody.after (last : Bool) : RequestBody := if last then .complete else .open

/-- Why a worker reads the whole body first. -/
inductive Use where
  | count
  | expand
deriving DecidableEq

/-- COUNT_CONTEXT_MAX_BODY_BYTES and MEDIA_EXPAND_MAX_BODY_BYTES -/
def Use.maxBytes : Use → ℕ
  | .count => 32 * 1024 * 1024
  | .expand => 256 * 1024 * 1024

/-- Where the worker's reading of the body stands. -/
inductive Reader where
  /-- In `collect_request_body`. -/
  | collecting (use : Use) (buffer : Bytes)
  /-- The bridge thread of `streaming_request_body`, waiting for a chunk. -/
  | waiting
  /-- The bridge thread, with a chunk for the handoff. -/
  | handing (chunk : BodyChunk)
  /-- The bridge thread, about to return the chunk's credit. -/
  | crediting (last : Bool)
  /-- The body was read whole, for its media. -/
  | whole (raw : Bytes)
  /-- The body was over the limit, and the worker is about to return. -/
  | tooLarge
  /-- The reader returned: after the last chunk, or because it gave up. -/
  | gone
deriving DecidableEq

/-- The reader's end of the channel is dropped. -/
def Reader.left : Reader → Bool
  | .gone => true
  | _ => false

/-- How far the client's body has come. -/
inductive BodyStreamState where
  | open
  | ended
  | truncated
deriving DecidableEq

/-- How the client's body fails. -/
inductive IoError where
  /-- relay request body ended before final chunk -/
  | brokenPipe
  /-- request body length mismatch -/
  | invalidData

/-- The body as the HTTP client polls it: `ExactLengthBody` over `TokioBodyStream`. -/
structure Upstream where
  state : BodyStreamState
  length : ℕ
  sent : ℕ
  /-- What the client was given. -/
  yielded : Bytes
  /-- How the body ended, once it is done. -/
  result : Option (Except IoError Unit)

/-- One request's body on its way. -/
structure Relay where
  stream : Option OutboundBodyStream
  fault : Option Fault
  /-- Every frame the server put on the socket. -/
  sent : List BodyFrame
  /-- How many of them the node has read. -/
  received : ℕ
  /-- A `relay.cancel` stands behind the frames. -/
  cancelled : Bool
  /-- Acks under way, one credit each. -/
  acks : ℕ
  body : RequestBody
  /-- The node refused a chunk as over the window. -/
  overCredit : Bool
  ingress : List BodyChunk
  expandMedia : Bool
  reader : Reader
  handoff : List BodyChunk
  upstream : Upstream

/-! ## The server -/

/-- The next frame; the one that completes the size is final. -/
def OutboundBodyStream.frame (stream : OutboundBodyStream) (data : Bytes) : BodyFrame where
  chunkId := toString stream.nextChunkIndex
  final := stream.bytesSent + data.length == stream.totalBytes
  data := data

namespace Relay

/-- One round of `pumpBodyStream`. -/
def pump (r : Relay) : Relay :=
  match r.stream with
  | none => r
  | some stream =>
    if stream.credits = 0 then r else
    match stream.source with
    | [] => { r with
        stream := none
        fault := if stream.bytesSent = stream.totalBytes then r.fault else some .endedShort }
    | .throws :: _ => { r with stream := none, fault := some .unreadable }
    | .chunk data :: rest =>
      if data = [] then { r with stream := some { stream with source := rest } }
      -- `encodeRelayBinaryFrame` throws for a chunk over its limit
      else if stream.totalBytes < stream.bytesSent + data.length ∨
          binaryChunkMaxBytes < data.length then
        { r with stream := none, fault := some .unreadable }
      else { r with
        sent := r.sent ++ [stream.frame data]
        stream := some { stream with
          source := rest
          nextChunkIndex := stream.nextChunkIndex + 1
          bytesSent := stream.bytesSent + data.length
          credits := stream.credits - 1 } }

/-- An ack arrives: `grantBodyCredits` with its one credit. -/
def ack (r : Relay) : Relay :=
  if r.acks = 0 then r else
  { r with
    acks := r.acks - 1
    stream := r.stream.map fun stream =>
      { stream with credits := min (stream.credits + 1) window } }

/-! ## The node -/

/-- The relay loop routes a body frame to the worker: `deliver_body_chunk`. -/
def route (r : Relay) (chunk : BodyChunk) : Relay :=
  match r.body with
  | .complete | .retired => r
  | .open =>
    if r.reader.left then { r with body := .after chunk.last }
    else if window ≤ r.ingress.length then { r with body := .retired, overCredit := true }
    else { r with ingress := r.ingress ++ [chunk], body := .after chunk.last }

/-- The node reads the next message of the socket. -/
def deliver (r : Relay) : Relay :=
  match r.sent[r.received]? with
  | some frame => { r with received := r.received + 1 }.route frame.chunk
  | none => if r.cancelled then { r with body := .retired } else r

/-- The relay loop sends a worker's ack on, unless the request is retired. -/
def returnCredit (r : Relay) : Relay :=
  { r with acks := if r.body = .retired then r.acks else r.acks + 1 }

/-- What reads the body from here on. -/
def upstreamReader (expandMedia : Bool) : Reader :=
  if expandMedia then .collecting .expand [] else .waiting

/-- The whole body is there.  After a count it goes upstream as the one chunk of a new channel;
nothing more comes down the old one. -/
def collected (r : Relay) (use : Use) (raw : Bytes) : Relay :=
  match use with
  | .expand => { r with reader := .whole raw }
  | .count => { r with
      ingress := [⟨raw, true⟩]
      reader := upstreamReader r.expandMedia
      upstream := { r.upstream with length := raw.length } }

/-- One chunk of `collect_request_body`. -/
def collect (r : Relay) (use : Use) (buffer : Bytes) (chunk : BodyChunk) : Relay :=
  if use.maxBytes < buffer.length + chunk.data.length then
    { r.returnCredit with reader := .tooLarge }
  else if chunk.last then r.returnCredit.collected use (buffer ++ chunk.data)
  else { r.returnCredit with reader := .collecting use (buffer ++ chunk.data) }

/-- The reader's next move. -/
def read (r : Relay) : Relay :=
  match r.reader, r.ingress with
  | .collecting use buffer, chunk :: rest => { r with ingress := rest }.collect use buffer chunk
  | .waiting, chunk :: rest => { r with ingress := rest, reader := .handing chunk }
  -- the sender is gone, and what it had queued is read
  | .collecting _ _, [] | .waiting, [] =>
    if r.body = .open then r else { r with reader := .gone }
  | .handing chunk, _ =>
    if handoffCapacity ≤ r.handoff.length then r
    else { r with handoff := r.handoff ++ [chunk], reader := .crediting chunk.last }
  | .crediting last, _ =>
    { r.returnCredit with reader := if last then .gone else .waiting }
  | .tooLarge, _ => { r with reader := .gone }
  | .whole _, _ | .gone, _ => r

end Relay

namespace Upstream

/-- The body ends. -/
def end_ (u : Upstream) (result : Except IoError Unit) : Upstream :=
  { u with result := some result }

/-- `ExactLengthBody` gets an item. -/
def item (u : Upstream) : Option (Except IoError Bytes) → Upstream
  | some (.ok chunk) =>
    let u := { u with sent := u.sent + chunk.length }
    if u.length < u.sent then u.end_ (.error .invalidData)
    else { u with yielded := u.yielded ++ chunk }
  | some (.error error) => u.end_ (.error error)
  | none => u.end_ (if u.sent ≠ u.length then .error .invalidData else .ok ())

end Upstream

namespace Relay

/-- The HTTP client polls the body. -/
def poll (r : Relay) : Relay :=
  if r.upstream.result.isSome then r
  else if r.upstream.state ≠ .open then { r with upstream := r.upstream.item none }
  else match r.handoff with
    | chunk :: rest => { r with
        handoff := rest
        upstream := { r.upstream with
          state := if chunk.last then .ended else .open }.item (some (.ok chunk.data)) }
    | [] =>
      -- the handoff is closed once the bridge thread has returned
      if r.reader = .gone then { r with
        upstream := { r.upstream with state := .truncated }.item (some (.error .brokenPipe)) }
      else r

/-! ## Runs -/

/-- What may happen next. -/
inductive Event where
  | pump
  | ack
  | deliver
  | read
  | poll
  /-- The server ends the request: `completeRelayRequest`, `cancelRelayRequest`. -/
  | complete
  | cancel
  /-- The worker reports that it is done. -/
  | finish
  /-- The reader gives up: the request is cancelled, or the other end of a channel is gone. -/
  | giveUp
  | disconnect

/-- What an event does. -/
def step (r : Relay) : Event → Relay
  | .pump => r.pump
  | .ack => r.ack
  | .deliver => r.deliver
  | .read => r.read
  | .poll => r.poll
  | .complete => { r with stream := none }
  | .cancel => { r with stream := none, cancelled := true }
  | .finish => { r with body := .retired }
  | .giveUp => { r with reader := .gone }
  | .disconnect => { r with stream := none, acks := 0, received := r.sent.length, body := .retired }

/-- Events one after the other. -/
def run (r : Relay) (events : List Event) : Relay := events.foldl step r

/-- `sendRelayRequest` for a body of declared size, at a node that counts or expands it first. -/
def start (countFirst expandMedia : Bool) (source : List Yield) (totalBytes : ℕ) : Relay where
  stream := some ⟨source, 0, 0, totalBytes, window⟩
  fault := none
  sent := []
  received := 0
  cancelled := false
  acks := 0
  body := .open
  overCredit := false
  ingress := []
  expandMedia := expandMedia
  reader := if countFirst then .collecting .count [] else upstreamReader expandMedia
  handoff := []
  upstream := ⟨.open, totalBytes, 0, [], none⟩

end Relay

end ModelProxy.BodyRelay
