import ModelProxy.BodyRelay

/-! # A request body arrives whole or not at all

Credits, frames on the socket, queued chunks, the chunk in the reader's hands and acks under way
never add up to more than the window, so no chunk is refused.  What the reader has is at every
point the start of what the source gave, and a chunk is the last one exactly where the declared
size is reached; a clean end comes only behind it.
-/
namespace ModelProxy.BodyRelay
open List

/-! ## What the parties do -/

/-- A round of the pump. -/
inductive Pumps (r : Relay) : Relay → Prop
  | idle (h : ∀ stream ∈ r.stream, stream.credits = 0) : Pumps r r
  | closed {stream : OutboundBodyStream} {fault : Option Fault} (h : r.stream = some stream)
      (hs : stream.source = [] ∨ .throws ∈ stream.source ∨
        ∃ data rest, stream.source = .chunk data :: rest ∧
          (stream.totalBytes < stream.bytesSent + data.length ∨
            binaryChunkMaxBytes < data.length)) :
      Pumps r { r with stream := none, fault := fault }
  | skipped {stream : OutboundBodyStream} {rest : List Yield} (h : r.stream = some stream)
      (hs : stream.source = .chunk [] :: rest) :
      Pumps r { r with stream := some { stream with source := rest } }
  | sent {stream : OutboundBodyStream} {data : Bytes} {rest : List Yield}
      (h : r.stream = some stream) (hc : 0 < stream.credits)
      (hs : stream.source = .chunk data :: rest) (hne : data ≠ [])
      (hle : stream.bytesSent + data.length ≤ stream.totalBytes) :
      Pumps r { r with
        sent := r.sent ++ [stream.frame data]
        stream := some ⟨rest, stream.nextChunkIndex + 1, stream.bytesSent + data.length,
          stream.totalBytes, stream.credits - 1⟩ }

/-- The node reads a message. -/
inductive Delivers (r : Relay) : Relay → Prop
  | idle (h : r.sent.length ≤ r.received) : Delivers r r
  | cancelled (h : r.cancelled = true) : Delivers r { r with body := .retired }
  | dropped (h : r.received < r.sent.length) (hb : r.body ≠ .open) :
      Delivers r { r with received := r.received + 1 }
  | unread {last : Bool} (h : r.received < r.sent.length) (hb : r.body = .open)
      (hl : r.reader.left = true) :
      Delivers r { r with received := r.received + 1, body := .after last }
  | refused (h : r.received < r.sent.length) (hb : r.body = .open) (hl : r.reader.left = false)
      (hw : window ≤ r.ingress.length) :
      Delivers r { r with received := r.received + 1, body := .retired, overCredit := true }
  | queued {f : BodyFrame} (h : r.sent[r.received]? = some f) (hb : r.body = .open)
      (hl : r.reader.left = false) :
      Delivers r { r with
        received := r.received + 1
        ingress := r.ingress ++ [f.chunk]
        body := .after f.final }

/-- The reader waits for a chunk. -/
def Reader.Awaits (reader : Reader) : Prop :=
  reader = .waiting ∨ ∃ use b, reader = .collecting use b

/-- Why the reader cannot move. -/
inductive Still (r : Relay) : Prop
  | empty (h : r.reader.Awaits) (hi : r.ingress = []) (hb : r.body = .open)
  | full {chunk : BodyChunk} (h : r.reader = .handing chunk) (hf : r.handoff ≠ [])
  | done (h : r.reader.left = true ∨ ∃ raw, r.reader = .whole raw)

/-- A move of the reader. -/
inductive Reads (r : Relay) : Relay → Prop
  | stays (h : Still r) : Reads r r
  | quits (h : r.reader.Awaits) (hi : r.ingress = []) (hb : r.body ≠ .open) :
      Reads r { r with reader := .gone }
  | takes {chunk : BodyChunk} {rest : List BodyChunk} (h : r.reader = .waiting)
      (hi : r.ingress = chunk :: rest) :
      Reads r { r with ingress := rest, reader := .handing chunk }
  | hands {chunk : BodyChunk} (h : r.reader = .handing chunk) :
      Reads r { r with handoff := r.handoff ++ [chunk], reader := .crediting chunk.last }
  | credits {last : Bool} (h : r.reader = .crediting last) :
      Reads r { r.returnCredit with reader := if last then .gone else .waiting }
  | tooLarge {use : Use} {buffer : Bytes} {chunk : BodyChunk} {rest : List BodyChunk}
      (h : r.reader = .collecting use buffer) (hi : r.ingress = chunk :: rest)
      (hm : use.maxBytes < buffer.length + chunk.data.length) :
      Reads r { r.returnCredit with ingress := rest, reader := .tooLarge }
  | returns (h : r.reader = .tooLarge) : Reads r { r with reader := .gone }
  | collects {use : Use} {buffer : Bytes} {chunk : BodyChunk} {rest : List BodyChunk}
      (h : r.reader = .collecting use buffer) (hi : r.ingress = chunk :: rest)
      (hl : chunk.last = false) :
      Reads r { r.returnCredit with
        ingress := rest
        reader := .collecting use (buffer ++ chunk.data) }
  | collected {use : Use} {buffer : Bytes} {chunk : BodyChunk} {rest : List BodyChunk}
      (h : r.reader = .collecting use buffer) (hi : r.ingress = chunk :: rest)
      (hl : chunk.last = true) :
      Reads r ({ r.returnCredit with ingress := rest }.collected use (buffer ++ chunk.data))

/-- A poll of the client. -/
inductive Polls (r : Relay) : Relay → Prop
  | finished (h : r.upstream.result ≠ none) : Polls r r
  | pending (h : r.reader ≠ .gone) (hi : r.handoff = []) : Polls r r
  | ends (h : r.upstream.result = none) (hs : r.upstream.state ≠ .open) :
      Polls r { r with upstream := r.upstream.item none }
  | takes {chunk : BodyChunk} {rest : List BodyChunk} (h : r.upstream.result = none)
      (hs : r.upstream.state = .open) (hi : r.handoff = chunk :: rest) :
      Polls r { r with
        handoff := rest
        upstream := { r.upstream with
          state := if chunk.last then .ended else .open }.item (some (.ok chunk.data)) }
  | truncated (h : r.upstream.result = none) (hs : r.upstream.state = .open) (hi : r.handoff = [])
      (hg : r.reader = .gone) :
      Polls r { r with
        upstream := { r.upstream with state := .truncated }.item (some (.error .brokenPipe)) }

namespace Relay

/-- What one turn of the server can do. -/
theorem pump_pumps (r : Relay) : Pumps r r.pump := by
  unfold pump
  split
  next h => exact .idle (by simp [h])
  next stream h =>
  split
  next hc => exact .idle (by simp [h, hc])
  next hc =>
  split
  next hs => exact .closed h (.inl hs)
  next hs => exact .closed h (.inr (.inl (by simp [hs])))
  next data rest hs =>
  split
  next hd => exact .skipped h (hd ▸ hs)
  next hd =>
  split
  next hl => exact .closed h (.inr (.inr ⟨_, _, hs, hl⟩))
  next hl => exact .sent h (Nat.pos_of_ne_zero hc) hs hd (not_lt.mp (not_or.mp hl).1)

/-- What one delivered message can do. -/
theorem deliver_delivers (r : Relay) : Delivers r r.deliver := by
  unfold deliver
  split
  next f hf =>
    have hlt : r.received < r.sent.length := by
      by_contra hn
      rw [getElem?_eq_none (not_lt.mp hn)] at hf
      cases hf
    unfold route
    split
    next hb => exact .dropped hlt (by simp_all)
    next hb => exact .dropped hlt (by simp_all)
    next hb =>
    split
    next hl => exact .unread hlt hb hl
    next hl =>
    have hl := Bool.eq_false_iff.mpr hl
    split
    next hw => exact .refused hlt hb hl hw
    next => exact .queued hf hb hl
  next hn =>
    split
    next hc => exact .cancelled hc
    next => exact .idle (getElem?_eq_none_iff.mp hn)

/-- What one read can do. -/
theorem read_reads (r : Relay) : Reads r r.read := by
  unfold read
  split
  next use buffer chunk rest h hi =>
    unfold collect
    split
    next hm => exact .tooLarge h hi hm
    next =>
    split
    next hl => exact .collected h hi hl
    next hl => exact .collects h hi (Bool.eq_false_iff.mpr hl)
  next h hi => exact .takes h hi
  next use b h hi =>
    split
    next hb => exact .stays (.empty (.inr ⟨use, b, h⟩) hi hb)
    next hb => exact .quits (.inr ⟨use, b, h⟩) hi hb
  next h hi =>
    split
    next hb => exact .stays (.empty (.inl h) hi hb)
    next hb => exact .quits (.inl h) hi hb
  next c h =>
    split
    next hf => exact .stays (.full h (ne_nil_of_length_pos hf))
    next => exact .hands h
  next l h => exact .credits h
  next h => exact .returns h
  next h => exact .stays (.done (.inr ⟨_, h⟩))
  next h => exact .stays (.done (.inl (by rw [h]; rfl)))

/-- What one poll can do. -/
theorem poll_polls (r : Relay) : Polls r r.poll := by
  unfold poll
  split
  next h => exact .finished (Option.isSome_iff_ne_none.mp h)
  next h =>
  have h : r.upstream.result = none := by simpa using h
  split
  next hs => exact .ends h hs
  next hs =>
  split
  next hi => exact .takes h (not_not.mp hs) hi
  next hi =>
  split
  next hg => exact .truncated h (not_not.mp hs) hi hg
  next hg => exact .pending hg hi

end Relay

/-! ## The window -/

/-- Chunks taken whose credit is not returned. -/
def Reader.uncredited : Reader → ℕ
  | .handing _ | .crediting _ => 1
  | _ => 0

namespace Relay

/-- The credits the stream has left. -/
def credits (r : Relay) : ℕ := (r.stream.map (·.credits)).getD 0

/-- Credits at the server, and what each spent one is at. -/
def spread (r : Relay) : ℕ :=
  r.credits + (r.sent.length - r.received) + r.ingress.length + r.reader.uncredited + r.acks

/-- The window is kept: at most `window` credits and chunks on the way, while the worker reads. -/
structure Windowed (r : Relay) : Prop where
  accepted : r.overCredit = false
  received : r.received ≤ r.sent.length
  lastEnds : r.body = .open → ∀ c ∈ r.ingress, c.last = false
  within : r.body = .open → r.reader.left = false → r.spread ≤ window

end Relay

section Spread
variable {r s : Relay}

theorem Pumps.spread (hp : Pumps r s) (hr : r.received ≤ r.sent.length) :
    s.stream = none ∨ s.spread = r.spread := by
  cases hp with
  | idle _ => exact .inr rfl
  | closed _ _ => exact .inl rfl
  | skipped h _ => right; simp only [Relay.spread, Relay.credits, h, Option.map_some]
  | sent h _ _ _ _ =>
    right
    simp only [Relay.spread, Relay.credits, h, Option.map_some, Option.getD_some, length_append,
      length_singleton]
    omega

theorem Delivers.spread (hd : Delivers r s) (ho : s.body = .open) (hl : s.reader.left = false) :
    s.spread = r.spread := by
  cases hd with
  | idle _ => rfl
  | cancelled _ | refused _ _ _ _ => cases ho
  | dropped _ hb => exact absurd ho hb
  | unread _ _ hw => cases hw.symm.trans hl
  | queued hf _ _ =>
    obtain ⟨hlt, -⟩ := List.getElem?_eq_some_iff.mp hf
    simp only [Relay.spread, Relay.credits, length_append, length_singleton]
    omega

/-- The reader returns a credit for each chunk. -/
theorem Reads.spread (hm : Reads r s) (ho : r.body = .open) (hn : ∀ c ∈ r.ingress, c.last = false)
    (hl : s.reader.left = false) : r.reader.left = false ∧ s.spread = r.spread := by
  have hcr : r.returnCredit.acks = r.acks + 1 := if_neg (by simp [ho])
  simp only [Relay.returnCredit] at hcr
  cases hm with
  | stays _ => exact ⟨hl, rfl⟩
  | quits _ _ _ | returns _ => cases hl
  | takes h hi =>
    refine ⟨by rw [h]; rfl, ?_⟩
    simp only [Relay.spread, Relay.credits, h, hi, length_cons, Reader.uncredited]
    omega
  | hands h =>
    refine ⟨by rw [h]; rfl, ?_⟩
    simp only [Relay.spread, Relay.credits, h, Reader.uncredited]
  | @credits last h =>
    refine ⟨by rw [h]; rfl, ?_⟩
    have hun : (if last then Reader.gone else .waiting).uncredited = 0 := by cases last <;> rfl
    simp only [Relay.spread, Relay.credits, hun, Relay.returnCredit, hcr]
    simp only [h, Reader.uncredited]
    omega
  | tooLarge h hi _ | collects h hi _ =>
    refine ⟨by rw [h]; rfl, ?_⟩
    simp only [Relay.spread, Relay.credits, h, hi, length_cons, Reader.uncredited,
      Relay.returnCredit, hcr]
    omega
  | collected _ hi hc =>
    have := hn _ (by rw [hi]; exact mem_cons_self)
    rw [hc] at this
    cases this

end Spread

namespace Relay
variable {r s : Relay}

/-- The body was closed when its last chunk was queued. -/
theorem Windowed.closed (h : r.Windowed) {c : BodyChunk} {rest : List BodyChunk}
    (hi : r.ingress = c :: rest) (hl : c.last = true) : r.body ≠ .open := fun ho => by
  have := h.lastEnds ho c (by rw [hi]; exact mem_cons_self)
  rw [hl] at this
  cases this

theorem Windowed.unstream (h : r.Windowed) (fault : Option Fault) (cancelled : Bool) :
    { r with stream := none, fault := fault, cancelled := cancelled }.Windowed := by
  refine { h with within := fun ho hw => le_trans ?_ (h.within ho hw) }
  simp only [spread, credits, Option.map_none, Option.getD_none]
  omega

theorem Windowed.pump (h : r.Windowed) (hp : Pumps r s) : s.Windowed := by
  have hsp := hp.spread h.received
  cases hp with
  | idle _ => exact h
  | closed _ _ => exact h.unstream _ _
  | skipped _ _ =>
    exact { h with within := fun ho hw => (hsp.resolve_left nofun).trans_le (h.within ho hw) }
  | sent _ _ _ _ _ =>
    refine { h with
      received := ?_
      within := fun ho hw => (hsp.resolve_left nofun).trans_le (h.within ho hw) }
    simpa using h.received.trans (Nat.le_succ _)

theorem Windowed.ack (h : r.Windowed) : r.ack.Windowed := by
  unfold Relay.ack
  split
  · exact h
  refine { h with within := fun ho hw => le_trans ?_ (h.within ho hw) }
  cases hst : r.stream <;>
    simp only [spread, credits, hst, Option.map_none, Option.map_some, Option.getD_none,
      Option.getD_some] <;> omega

theorem after_open {last : Bool} (h : RequestBody.after last = .open) : last = false := by
  cases last with
  | true => cases h
  | false => rfl

theorem Windowed.deliver (h : r.Windowed) (hd : Delivers r s) : s.Windowed := by
  have hsp := hd.spread
  cases hd with
  | idle _ => exact h
  | cancelled _ => exact { h with lastEnds := nofun, within := nofun }
  | dropped hlt hb => exact { h with received := hlt, within := fun ho => absurd ho hb }
  | unread hlt hb hw =>
    exact { h with
      received := hlt
      lastEnds := fun _ => h.lastEnds hb
      within := fun _ hl => by cases hw.symm.trans hl }
  | refused hlt hb hw hf =>
    -- the frame that arrives still has its credit
    have := h.within hb hw
    simp only [spread] at this
    omega
  | queued hf hb hw =>
    obtain ⟨hlt, -⟩ := List.getElem?_eq_some_iff.mp hf
    refine { h with
      received := hlt
      lastEnds := fun ho d hd => ?_
      within := fun ho _ => (hsp ho hw).trans_le (h.within hb hw) }
    rcases mem_append.mp hd with hd | hd
    · exact h.lastEnds hb d hd
    · exact mem_singleton.mp hd ▸ after_open ho

theorem Windowed.read (h : r.Windowed) (hm : Reads r s) : s.Windowed := by
  have hsp : r.body = .open → s.reader.left = false → s.spread ≤ window := fun ho hl => by
    obtain ⟨hlr, he⟩ := hm.spread ho (h.lastEnds ho) hl
    exact he.trans_le (h.within ho hlr)
  cases hm with
  | takes _ hi | tooLarge _ hi _ | collects _ hi _ =>
    exact { h with
      lastEnds := fun ho c hc => h.lastEnds ho c (by rw [hi]; exact mem_cons_of_mem _ hc)
      within := hsp }
  | @collected use _ _ _ _ hi hl =>
    have hb := h.closed hi hl
    cases use <;>
      exact { h with lastEnds := fun ho => absurd ho hb, within := fun ho => absurd ho hb }
  | _ => exact { h with within := hsp }

/-- The client takes from the handoff only. -/
theorem Windowed.poll (h : r.Windowed) (hp : Polls r s) : s.Windowed := by
  cases hp <;> exact { h with }

theorem Windowed.step (h : r.Windowed) (e : Event) : (r.step e).Windowed := by
  cases e with
  | pump => exact h.pump (pump_pumps r)
  | ack => exact h.ack
  | deliver => exact h.deliver (deliver_delivers r)
  | read => exact h.read (read_reads r)
  | poll => exact h.poll (poll_polls r)
  | complete | cancel => exact h.unstream _ _
  | finish => exact { h with lastEnds := nofun, within := nofun }
  | giveUp => exact { h with within := fun _ => nofun }
  | disconnect => exact { h with received := le_rfl, lastEnds := nofun, within := nofun }

end Relay

/-! ## The bytes -/

/-- The bytes of the chunks. -/
def bytes (chunks : List BodyChunk) : Bytes := chunks.flatMap (·.data)

@[simp] theorem bytes_nil : bytes [] = [] := rfl

@[simp] theorem bytes_cons (c : BodyChunk) (cs : List BodyChunk) :
    bytes (c :: cs) = c.data ++ bytes cs := rfl

@[simp] theorem bytes_append (a b : List BodyChunk) : bytes (a ++ b) = bytes a ++ bytes b :=
  flatMap_append

theorem bytes_singleton (c : BodyChunk) : bytes [c] = c.data := by simp

/-- The bytes of a yield. -/
def Yield.data : Yield → Bytes
  | .chunk data => data
  | .throws => []

/-- Everything the source gives. -/
def sourceBytes (source : List Yield) : Bytes := source.flatMap Yield.data

/-- The chunks are a start of `body`, and one is the last exactly where `total` is reached. -/
structure Marked (body : Bytes) (total : ℕ) (chunks : List BodyChunk) : Prop where
  start : bytes chunks <+: body
  last : ∀ p c, p ++ [c] <+: chunks → (c.last = true ↔ (bytes (p ++ [c])).length = total)

section Marked
variable {body : Bytes} {total : ℕ} {a b : List BodyChunk} {c : BodyChunk}

theorem Marked.nil : Marked body total [] where
  start := nil_prefix
  last := by simp

theorem Marked.left (h : Marked body total (a ++ b)) : Marked body total a where
  start := (prefix_append (bytes a) (bytes b)).trans (bytes_append a b ▸ h.start)
  last p c hp := h.last p c (hp.trans (prefix_append a b))

theorem Marked.snoc (h : Marked body total a) (hs : bytes (a ++ [c]) <+: body)
    (hl : c.last = true ↔ (bytes (a ++ [c])).length = total) : Marked body total (a ++ [c]) where
  start := hs
  last p d hp := by
    rcases prefix_concat_iff.mp hp with he | hp
    · obtain ⟨rfl, hd⟩ := append_inj' he rfl
      cases hd
      exact hl
    · exact h.last p d hp

/-- Where the declared size is reached there is a last chunk. -/
theorem Marked.exists_last (h : Marked body total a) (hs : (bytes a).length = total)
    (hp : 0 < total) : ∃ p c, a = p ++ [c] ∧ c.last = true := by
  rcases eq_nil_or_concat' a with rfl | ⟨p, c, rfl⟩
  · rw [bytes_nil] at hs
    exact absurd hs hp.ne
  · exact ⟨p, c, rfl, (h.last p c (prefix_refl _)).mpr hs⟩

/-- A chunk is the last one exactly if it brings the body to its size. -/
theorem Marked.mid (h : Marked body total (a ++ [c] ++ b)) (hb : body.length = total) :
    (c.last = true ↔ (bytes a).length + c.data.length = total) ∧
      (bytes a).length + c.data.length ≤ total := by
  have hl := h.left.last a c (prefix_refl _)
  have hs := h.left.start.length_le
  rw [bytes_append, bytes_singleton, length_append] at hl hs
  exact ⟨hl, hb ▸ hs⟩

end Marked

/-- What the reader has in its hands, behind the chunks in `front`. -/
def Reader.Holds (total : ℕ) (front held : List BodyChunk) : Reader → Prop
  | .collecting _ buffer => front = [] ∧ bytes held = buffer
  | .handing chunk => held = [chunk]
  | .whole raw => front = [] ∧ bytes held = raw ∧ raw.length = total
  | .waiting | .crediting _ => held = []
  | .tooLarge | .gone => True

namespace Relay

/-- The chunks sent. -/
def chunks (r : Relay) : List BodyChunk := r.sent.map BodyFrame.chunk

/-- The frames carry the source's bytes. -/
structure Sends (body : Bytes) (total : ℕ) (r : Relay) : Prop where
  marked : Marked body total r.chunks
  stream : ∀ st ∈ r.stream, st.totalBytes = total ∧ st.bytesSent = (bytes r.chunks).length ∧
    bytes r.chunks ++ sourceBytes st.source = body

/-- The chunks at the node: the client has `polled`, and the reader holds `held`. -/
structure Carries (body : Bytes) (total : ℕ) (r : Relay) (polled held : List BodyChunk) : Prop where
  line : Marked body total (polled ++ r.handoff ++ held ++ r.ingress)
  link : r.body = .open → r.reader.left = false →
    polled ++ r.handoff ++ held ++ r.ingress = r.chunks.take r.received
  holds : r.reader.Holds total (polled ++ r.handoff) held
  given : r.upstream.yielded <+: body
  fed : (∀ e, r.upstream.result ≠ some (.error e)) → r.upstream.yielded = bytes polled
  ended : r.upstream.result = none → r.upstream.state = .ended → r.upstream.yielded.length = total
  clean : r.upstream.result = some (.ok ()) → r.upstream.yielded.length = total
  -- a body cut short ends at once
  cut : r.upstream.state = .truncated → r.upstream.result ≠ none

variable {body : Bytes} {total : ℕ} {r s : Relay} {polled held : List BodyChunk}

theorem chunks_take {f : BodyFrame} (hf : r.sent[r.received]? = some f) :
    r.chunks.take (r.received + 1) = r.chunks.take r.received ++ [f.chunk] := by
  have hg : r.chunks[r.received]? = some f.chunk := by simp [chunks, hf]
  rw [take_add_one, hg]
  rfl

theorem Sends.taken (h : r.Sends body total) (n : ℕ) : Marked body total (r.chunks.take n) :=
  Marked.left ((take_append_drop n r.chunks).symm ▸ h.marked)

theorem Sends.pump (h : r.Sends body total) (hp : Pumps r s) : s.Sends body total := by
  cases hp with
  | idle _ => exact h
  | closed _ _ => exact ⟨h.marked, nofun⟩
  | skipped hst hs =>
    refine ⟨h.marked, fun st hm => ?_⟩
    cases hm
    obtain ⟨ht, hb, he⟩ := h.stream _ hst
    rw [hs] at he
    exact ⟨ht, hb, he⟩
  | @sent st data rest hst _ hs _ _ =>
    obtain ⟨ht, hb, he⟩ := h.stream _ hst
    have he : bytes r.chunks ++ data ++ sourceBytes rest = body := by
      rw [← he, hs, append_assoc]
      rfl
    refine ⟨?_, fun st' hm => ?_⟩ <;> simp only [chunks, map_append, map_cons, map_nil]
    · refine h.marked.snoc ?_ ?_
      · rw [bytes_append, bytes_singleton, ← he]
        exact prefix_append _ _
      · simp [BodyFrame.chunk, OutboundBodyStream.frame, hb, ht]
    · cases hm
      rw [bytes_append, bytes_singleton, length_append]
      exact ⟨ht, congrArg (· + data.length) hb, he⟩

/-- The node sends no frames. -/
theorem Sends.deliver (h : r.Sends body total) (hd : Delivers r s) : s.Sends body total := by
  cases hd <;> exact { h with }

theorem Sends.read (h : r.Sends body total) (hm : Reads r s) : s.Sends body total := by
  cases hm with
  | @collected use _ _ _ _ _ _ => cases use <;> exact { h with }
  | _ => exact { h with }

theorem Sends.poll (h : r.Sends body total) (hp : Polls r s) : s.Sends body total := by
  cases hp <;> exact { h with }

/-- What is sent stays the body in order. -/
theorem Sends.step (h : r.Sends body total) (e : Event) : (r.step e).Sends body total := by
  cases e with
  | pump => exact h.pump (pump_pumps r)
  | ack =>
    change r.ack.Sends body total
    unfold ack
    split
    · exact h
    · refine ⟨h.marked, fun st hm => ?_⟩
      obtain ⟨st, hst, rfl⟩ := Option.map_eq_some_iff.mp hm
      exact h.stream st hst
  | deliver => exact h.deliver (deliver_delivers r)
  | read => exact h.read (read_reads r)
  | poll => exact h.poll (poll_polls r)
  | finish | giveUp => exact { h with }
  | complete | cancel | disconnect => exact ⟨h.marked, nofun⟩

theorem Carries.pump (h : r.Carries body total polled held) (hr : r.received ≤ r.sent.length)
    (hp : Pumps r s) : s.Carries body total polled held := by
  cases hp with
  | sent _ _ _ _ _ =>
    refine { h with link := fun ho hl => (h.link ho hl).trans ?_ }
    simp only [chunks, map_append]
    exact (take_append_of_le_length (by simpa using hr)).symm
  | _ => exact { h with }

theorem Carries.deliver (h : r.Carries body total polled held) (hm : r.Sends body total)
    (hd : Delivers r s) : s.Carries body total polled held := by
  cases hd with
  | idle _ => exact h
  | cancelled _ | refused _ _ _ _ => exact { h with link := nofun }
  | dropped _ hb => exact { h with link := fun ho => absurd ho hb }
  | unread _ _ hl => exact { h with link := fun _ hl' => by cases hl.symm.trans hl' }
  | @queued f hf hb hl =>
    have hk : polled ++ r.handoff ++ held ++ (r.ingress ++ [f.chunk]) =
        r.chunks.take (r.received + 1) := by
      rw [← append_assoc, h.link hb hl, chunks_take hf]
    refine { h with line := ?_, link := fun _ _ => hk }
    change Marked _ _ (polled ++ r.handoff ++ held ++ (r.ingress ++ [f.chunk]))
    rw [hk]
    exact hm.taken _

/-- The reader moves chunks on and keeps their order. -/
theorem Carries.move (h : r.Carries body total polled held) {held' : List BodyChunk}
    (hl : polled ++ s.handoff ++ held' ++ s.ingress = polled ++ r.handoff ++ held ++ r.ingress)
    (hr : r.reader.left = false) (hh : s.reader.Holds total (polled ++ s.handoff) held')
    (hb : s.body = r.body) (hc : s.chunks.take s.received = r.chunks.take r.received)
    (hu : s.upstream = r.upstream) : s.Carries body total polled held' where
  line := hl ▸ h.line
  link ho _ := hl.trans ((h.link (hb ▸ ho) hr).trans hc.symm)
  holds := hh
  given := hu ▸ h.given
  fed := hu ▸ h.fed
  ended := hu ▸ h.ended
  clean := hu ▸ h.clean
  cut := hu ▸ h.cut

theorem Carries.giveUp (h : r.Carries body total polled held) :
    { r with reader := .gone }.Carries body total polled held :=
  { h with link := fun _ => nofun, holds := trivial }

theorem Carries.read (h : r.Carries body total polled held) (hw : r.Windowed) (hm : Reads r s) :
    ∃ polled held, s.Carries body total polled held := by
  have hho := h.holds
  cases hm with
  | stays _ => exact ⟨_, _, h⟩
  | quits _ _ _ | returns _ => exact ⟨_, _, h.giveUp⟩
  | takes hq hi =>
    rw [hq] at hho
    exact ⟨_, _, h.move (by simp [hi, show held = [] from hho]) (by rw [hq]; rfl) rfl rfl rfl rfl⟩
  | hands hq =>
    rw [hq] at hho
    exact ⟨polled, [], h.move (by simp [show held = _ from hho]) (by rw [hq]; rfl) rfl rfl rfl rfl⟩
  | @credits last hq =>
    rw [hq] at hho
    refine ⟨polled, held, h.move rfl (by rw [hq]; rfl) ?_ rfl rfl rfl⟩
    cases last
    · exact hho
    · trivial
  | @tooLarge _ _ chunk _ hq hi _ =>
    exact ⟨polled, held ++ [chunk], h.move (by simp [hi, returnCredit]) (by rw [hq]; rfl) trivial
      rfl rfl rfl⟩
  | @collects _ _ chunk _ hq hi _ =>
    rw [hq] at hho
    exact ⟨polled, held ++ [chunk], h.move (by simp [hi, returnCredit]) (by rw [hq]; rfl)
      ⟨hho.1, by simp [hho.2]⟩ rfl rfl rfl⟩
  | @collected use buffer chunk rest hq hi hl =>
    rw [hq] at hho
    obtain ⟨hfr, hbu⟩ := hho
    -- the reader has the body from its first chunk to its last
    have hraw : bytes (held ++ [chunk]) = buffer ++ chunk.data := by simp [hbu]
    have hln := h.line
    rw [hfr, hi, nil_append, append_cons] at hln
    have hsz := (hln.left.last held chunk (prefix_refl _)).mp hl
    rw [hraw] at hsz
    have hst := hln.left.start
    rw [hraw] at hst
    obtain ⟨rfl, hhd⟩ := append_eq_nil_iff.mp hfr
    cases use with
    | expand =>
      exact ⟨[], held ++ [chunk], h.move (by simp [hi, returnCredit, collected]) (by rw [hq]; rfl)
        ⟨hfr, hraw, hsz⟩ rfl rfl rfl⟩
    | count =>
      refine ⟨[], [], { h with
        line := ?_
        link := fun ho => absurd ho (hw.closed hi hl)
        holds := ?_ }⟩
      · change Marked _ _ ([] ++ r.handoff ++ [] ++ [⟨buffer ++ chunk.data, true⟩])
        rw [hhd]
        exact Marked.snoc .nil (by simpa using hst) (by simpa using hsz)
      · change (upstreamReader r.expandMedia).Holds _ ([] ++ r.handoff) []
        cases r.expandMedia
        · rfl
        · exact ⟨hfr, rfl⟩

theorem Carries.poll (h : r.Carries body total polled held) (hp : Polls r s) :
    ∃ polled, s.Carries body total polled held := by
  cases hp with
  | finished _ | pending _ _ => exact ⟨_, h⟩
  | ends hn hs =>
    refine ⟨polled, { h with
      fed := fun _ => h.fed (by simp [hn]), ended := nofun, clean := fun hr => ?_, cut := nofun }⟩
    cases hst : r.upstream.state with
    | «open» => exact absurd hst hs
    | ended => exact h.ended hn hst
    | truncated => exact absurd hn (h.cut hst)
  | @takes chunk rest hn hs hi =>
    have hfr : polled ++ [chunk] ++ rest = polled ++ r.handoff := by simp [hi]
    have hy : r.upstream.yielded ++ chunk.data = bytes (polled ++ [chunk]) := by
      simp [h.fed (by simp [hn])]
    have hmk : Marked body total (polled ++ [chunk]) := by
      have hln := h.line
      rw [← hfr] at hln
      exact hln.left.left.left
    refine ⟨polled ++ [chunk], ?_⟩
    unfold Upstream.item
    dsimp only
    split
    · exact ⟨hfr ▸ h.line, hfr ▸ h.link, hfr ▸ h.holds, h.given, fun hne => absurd rfl (hne _),
        nofun, nofun, nofun⟩
    refine ⟨hfr ▸ h.line, hfr ▸ h.link, hfr ▸ h.holds, hy ▸ hmk.start, fun _ => hy, fun _ he => ?_,
      fun hc => ?_, fun hc => ?_⟩
    · -- only the last chunk ends the stream
      have hl : chunk.last = true := by
        by_contra hl
        rw [if_neg hl] at he
        cases he
      rw [hy]
      exact (hmk.last polled chunk (prefix_refl _)).mp hl
    · rw [hn] at hc
      cases hc
    · dsimp only at hc
      split at hc <;> cases hc
  | truncated _ _ _ _ =>
    exact ⟨polled, { h with
      fed := fun hne => absurd rfl (hne _), ended := nofun, clean := nofun, cut := nofun }⟩

/-- A body in memory is the whole body, chunk by chunk. -/
theorem Carries.whole {raw : Bytes} (h : r.Carries body total polled held)
    (hq : r.reader = .whole raw) :
    bytes held = raw ∧ raw.length = total ∧ Marked body total (held ++ r.ingress) := by
  have hho := h.holds
  rw [hq] at hho
  obtain ⟨hfr, hra, hsz⟩ := hho
  have hln := h.line
  rw [hfr, nil_append] at hln
  exact ⟨hra, hsz, hln⟩

/-- The relay on its way: the window is kept, and the chunks are the source's. -/
structure Sound (body : Bytes) (total : ℕ) (r : Relay) : Prop where
  windowed : r.Windowed
  sends : r.Sends body total
  carries : ∃ polled held, r.Carries body total polled held

/-- The step lemma of `Sound`. -/
theorem Sound.step (h : r.Sound body total) (e : Event) : (r.step e).Sound body total := by
  obtain ⟨hw, hs, polled, held, hc⟩ := h
  refine ⟨hw.step e, hs.step e, ?_⟩
  cases e with
  | pump => exact ⟨_, _, hc.pump hw.received (pump_pumps r)⟩
  | ack =>
    change ∃ polled held, r.ack.Carries body total polled held
    unfold ack
    split
    · exact ⟨_, _, hc⟩
    · exact ⟨_, _, { hc with }⟩
  | deliver => exact ⟨_, _, hc.deliver hs (deliver_delivers r)⟩
  | read => exact hc.read hw (read_reads r)
  | poll =>
    obtain ⟨polled, hc⟩ := hc.poll (poll_polls r)
    exact ⟨_, _, hc⟩
  | complete | cancel => exact ⟨_, _, { hc with }⟩
  | finish | disconnect => exact ⟨_, _, { hc with link := nofun }⟩
  | giveUp => exact ⟨_, _, hc.giveUp⟩

section Start
variable (countFirst expandMedia : Bool) (source : List Yield) (totalBytes : ℕ)

/-- A relay starts sound. -/
theorem sound_start :
    (start countFirst expandMedia source totalBytes).Sound (sourceBytes source) totalBytes where
  windowed :=
    { accepted := rfl
      received := le_rfl
      lastEnds := by simp [start]
      within := by
        cases countFirst <;> cases expandMedia <;>
          simp [start, spread, credits, upstreamReader, Reader.uncredited] }
  sends := ⟨.nil, by simp [start, chunks]⟩
  carries := ⟨[], [],
    { line := .nil
      link := by simp [start]
      holds := by
        cases countFirst <;> cases expandMedia <;> simp [start, upstreamReader, Reader.Holds]
      given := nil_prefix
      fed := fun _ => rfl
      ended := fun _ => nofun
      clean := nofun
      cut := nofun }⟩

theorem sound_run (events : List Event) :
    ((start countFirst expandMedia source totalBytes).run events).Sound (sourceBytes source)
      totalBytes :=
  foldlRecOn events step (sound_start ..) fun _ h e _ => h.step e

/-- **Whole or not at all.**  What the HTTP client is given is a start of the body, and it ends
cleanly only where the declared size is reached; a body read for its media is the whole body. -/
theorem body_whole_or_error (events : List Event) :
    let r := (start countFirst expandMedia source totalBytes).run events
    r.upstream.yielded <+: sourceBytes source ∧
    (r.upstream.result = some (.ok ()) → r.upstream.yielded.length = totalBytes ∧
      r.upstream.yielded = (sourceBytes source).take totalBytes) ∧
    ∀ raw, r.reader = .whole raw → raw.length = totalBytes ∧
      raw = (sourceBytes source).take totalBytes := by
  intro r
  obtain ⟨-, -, polled, held, hc⟩ := sound_run countFirst expandMedia source totalBytes events
  refine ⟨hc.given, fun hr => ⟨hc.clean hr, ?_⟩, fun raw hw => ?_⟩
  · rw [← hc.clean hr]
    exact prefix_iff_eq_take.mp hc.given
  · obtain ⟨rfl, hsz, hmk⟩ := hc.whole hw
    exact ⟨hsz, hsz ▸ prefix_iff_eq_take.mp hmk.left.start⟩

end Start

end Relay

end ModelProxy.BodyRelay
