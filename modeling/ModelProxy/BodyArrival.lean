import ModelProxy.BodyDelivery

/-! # A request body arrives

While nobody gives up, every step of server, node and client uses up some of a finite amount of
work, and none is left to do only when the whole body is at its end.  The credits account for it:
a server without credits has chunks or acks on the way, and whoever has one of them can move it.
-/
namespace ModelProxy.BodyRelay
open List

/-- The parties go on with their work. -/
def Relay.Event.Working : Event → Prop
  | .pump | .ack | .deliver | .read | .poll => True
  | _ => False

/-! ## Work -/

namespace Relay

variable {r s : Relay}

end Relay

/-! ## Nothing gets stuck -/

theorem eq_nil_of_bytes {cs : List BodyChunk} (hf : ∀ c ∈ cs, c.data ≠ [])
    (h : (bytes cs).length = 0) : cs = [] := by
  cases cs with
  | nil => rfl
  | cons c cs =>
    simp only [bytes_cons, length_append, Nat.add_eq_zero_iff, length_eq_zero_iff] at h
    exact absurd h.1 (hf c mem_cons_self)

/-- What the source gives can be sent. -/
def Yield.Sendable : Yield → Prop
  | .chunk data => data.length ≤ binaryChunkMaxBytes
  | .throws => False

/-- What the reader has of the body. -/
def Reader.bytes : Reader → Bytes
  | .collecting _ buffer => buffer
  | .handing chunk => chunk.data
  | .whole raw => raw
  | _ => []

theorem Reader.Holds.bytes {total : ℕ} {front held : List BodyChunk} {reader : Reader}
    (h : reader.Holds total front held) (hl : reader.left = false) (ht : reader ≠ .tooLarge) :
    BodyRelay.bytes held = reader.bytes := by
  cases reader with
  | collecting _ _ => exact h.2
  | whole _ => exact h.2.1
  | handing chunk => rw [show held = _ from h]; simp [Reader.bytes]
  | waiting | crediting _ => rw [show held = _ from h]; rfl
  | tooLarge => exact absurd rfl ht
  | gone => cases hl

namespace Relay

/-- How far the body has come past the reader. -/
def passed (r : Relay) : ℕ := r.upstream.yielded.length + (bytes r.handoff).length

/-- The bytes of the body at the node. -/
def atNode (r : Relay) : ℕ := r.passed + r.reader.bytes.length + (bytes r.ingress).length

/-- How far the reader is. -/
def Reading (total : ℕ) (r : Relay) : Prop :=
  match r.reader with
  | .collecting use buffer =>
    buffer.length < total ∧ total ≤ use.maxBytes ∧ r.passed = 0 ∧
      (use = .expand → r.expandMedia = true) ∧ (r.expandMedia = true → total ≤ Use.expand.maxBytes)
  | .waiting | .handing _ => r.passed < total ∧ r.expandMedia = false
  | .crediting last => (if last then r.passed = total else r.passed < total) ∧ r.expandMedia = false
  | .whole _ => r.expandMedia = true
  | .gone => r.passed = total ∧ r.expandMedia = false
  | .tooLarge => False

/-- A relay that nobody has given up; `x` is whether its media are expanded. -/
structure Alive (x : Bool) (total : ℕ) (r : Relay) : Prop where
  planned : r.expandMedia = x
  uncancelled : r.cancelled = false
  live : r.body ≠ .retired
  readable : ∀ st ∈ r.stream, ∀ y ∈ st.source, y.Sendable
  drained : r.stream = none → (bytes r.chunks).length = total
  filled : ∀ c ∈ r.chunks, c.data ≠ []
  opened : r.body = .open → r.reader.left = false ∧ ∀ c ∈ r.chunks.take r.received, c.last = false
  spread : r.body = .open → r.stream ≠ none → r.spread = window
  complete : r.body ≠ .open →
    r.received = r.sent.length ∧ (bytes r.chunks).length = total ∧ r.atNode = total
  reading : r.Reading total
  asked : r.upstream.result = none ∧ r.upstream.sent = r.upstream.yielded.length ∧
      r.upstream.length = total ∧ (r.upstream.state = .open ↔ r.upstream.yielded.length < total) ∨
    r.upstream.result = some (.ok ())

variable {body : Bytes} {x : Bool} {total : ℕ} {r s : Relay} {polled held : List BodyChunk}

/-- The step of the server. -/
theorem Alive.pump (h : r.Alive x total) (hs : r.Sends body total) (hb : body.length = total)
    (hr : r.received ≤ r.sent.length) (hp : Pumps r s) : s.Alive x total := by
  have hsp := hp.spread hr
  cases hp with
  | idle _ => exact h
  | @closed st _ hst hso =>
    obtain ⟨ht, hn, he⟩ := hs.stream st hst
    refine { h with
      readable := by simp
      drained := fun _ => ?_
      spread := fun _ hn => absurd rfl hn }
    change (bytes r.chunks).length = total
    rcases hso with hso | hso | ⟨data, rest, hso, hlt⟩
    · rw [← hb, ← he, hso, sourceBytes, flatMap_nil, append_nil]
    · exact (h.readable st hst _ hso).elim
    · have hse : data.length ≤ binaryChunkMaxBytes :=
        h.readable st hst (.chunk data) (hso ▸ mem_cons_self)
      replace hlt := hlt.resolve_right (not_lt.mpr hse)
      -- the source gives no more than was declared
      rw [hso] at he
      have hle := congrArg length he
      simp only [sourceBytes, flatMap_cons, Yield.data, length_append] at hle
      omega
  | skipped hst hso =>
    refine { h with
      readable := fun st hm => ?_
      drained := by simp
      spread := fun ho _ => (hsp.resolve_left (by simp)).trans (h.spread ho (by simp [hst])) }
    cases hm
    exact fun y hy => h.readable _ hst y (hso ▸ mem_cons_of_mem _ hy)
  | @sent st data rest hst hc hso hne hle =>
    obtain ⟨ht, hn, he⟩ := hs.stream st hst
    have htk : ∀ f : BodyFrame, ((r.sent ++ [f]).map BodyFrame.chunk).take r.received =
        r.chunks.take r.received := fun f => by
      rw [map_append]
      exact take_append_of_le_length (by simpa using hr)
    have hop : r.body = .open := by
      by_contra hcl
      obtain ⟨-, hsz, -⟩ := h.complete hcl
      have := length_pos_of_ne_nil hne
      omega
    refine { h with
      readable := fun st' hm => ?_
      drained := by simp
      filled := ?_
      opened := fun ho => ⟨(h.opened ho).1, ?_⟩
      spread := fun ho _ => (hsp.resolve_left (by simp)).trans (h.spread ho (by simp [hst]))
      complete := fun hcl => absurd hop hcl }
    · cases hm
      exact fun y hy => h.readable _ hst y (hso ▸ mem_cons_of_mem _ hy)
    · simp only [chunks, map_append, mem_append]
      rintro c (hm | hm)
      · exact h.filled c hm
      · simp only [map_cons, map_nil, mem_singleton] at hm
        exact hm ▸ hne
    · simp only [chunks]
      rw [htk]
      exact (h.opened ho).2

theorem Alive.ack (h : r.Alive x total) : r.ack.Alive x total := by
  unfold Relay.ack
  split
  · exact h
  next ha =>
  refine { h with readable := fun st hm => ?_, drained := fun hn => ?_, spread := fun ho hn => ?_ }
  · obtain ⟨st, hst, rfl⟩ := Option.map_eq_some_iff.mp hm
    exact h.readable st hst
  · exact h.drained (Option.map_eq_none_iff.mp hn)
  · -- credits and acks are within the window, so the grant is not clamped
    cases hst : r.stream with
    | none => simp [hst] at hn
    | some st =>
      have := h.spread ho (by simp [hst])
      simp only [Relay.spread, credits, hst, Option.map_some, Option.getD_some] at this ⊢
      omega

/-- What the client has been given it was given in order. -/
theorem Alive.passed_eq (h : r.Alive x total) (hc : r.Carries body total polled held) :
    (bytes (polled ++ r.handoff)).length = r.passed := by
  have hf := hc.fed (by rcases h.asked with ⟨hn, -⟩ | hn <;> simp [hn])
  simp [passed, hf]

theorem Alive.ne_tooLarge (h : r.Alive x total) : r.reader ≠ .tooLarge := fun hq => by
  simpa only [Reading, hq] using h.reading

theorem Alive.line_length (h : r.Alive x total) (hc : r.Carries body total polled held)
    (hl : r.reader.left = false) :
    (bytes (polled ++ r.handoff ++ held ++ r.ingress)).length = r.atNode := by
  rw [bytes_append, bytes_append, length_append, length_append, h.passed_eq hc,
    hc.holds.bytes hl h.ne_tooLarge]
  rfl

/-- An open body is not all there. -/
theorem Alive.not_open (h : r.Alive x total) {cs : List BodyChunk} (hm : Marked body total cs)
    (hs : (bytes cs).length = total) (hp : 0 < total)
    (hsub : r.body = .open → cs ⊆ r.chunks.take r.received) : r.body ≠ .open := fun ho => by
  obtain ⟨p, c, rfl, hl⟩ := hm.exists_last hs hp
  rw [(h.opened ho).2 c (hsub ho (by simp))] at hl
  cases hl

/-- The step of the connection. -/
theorem Alive.deliver (h : r.Alive x total) (hw : r.Windowed) (hs : r.Sends body total)
    (hb : body.length = total) (hc : r.Carries body total polled held) (hd : Delivers r s) :
    s.Alive x total := by
  have hsp := hd.spread
  cases hd with
  | idle _ => exact h
  | cancelled hx => cases h.uncancelled.symm.trans hx
  | dropped hlt hcl => exact absurd hlt (h.complete hcl).1.not_lt
  | unread _ ho hl => cases hl.symm.trans (h.opened ho).1
  | refused hlt ho hl hf =>
    have := hw.within ho hl
    simp only [Relay.spread] at this
    omega
  | @queued f hf ho hl =>
    obtain ⟨hlt, -⟩ := List.getElem?_eq_some_iff.mp hf
    have htk := chunks_take hf
    have hmk := hs.taken (r.received + 1)
    rw [htk] at hmk
    have hlast := hmk.last _ _ (prefix_refl _)
    have hln := h.line_length hc hl
    rw [hc.link ho hl] at hln
    cases hfin : f.final with
    | false =>
      rw [hfin] at hsp
      refine { h with
        live := by simp [RequestBody.after]
        opened := fun _ => ⟨hl, ?_⟩
        spread := fun ho' hst => (hsp ho' hl).trans (h.spread ho hst)
        complete := fun hcl => absurd rfl hcl }
      change ∀ c ∈ r.chunks.take (r.received + 1), _
      rw [htk]
      simp only [mem_append, mem_singleton]
      rintro c (hm | rfl)
      · exact (h.opened ho).2 c hm
      · exact hfin
    | true =>
      -- nothing can follow the last frame
      have hsz := hlast.mp hfin
      have hdrop : r.chunks.drop (r.received + 1) = [] := by
        refine eq_nil_of_bytes (fun c hm => h.filled c (mem_of_mem_drop hm)) ?_
        have hle := hs.marked.start.length_le
        rw [← take_append_drop (r.received + 1) r.chunks, htk, bytes_append, length_append] at hle
        omega
      have hall : r.received + 1 = r.sent.length := by
        have := drop_eq_nil_iff.mp hdrop
        simp only [chunks, length_map] at this
        omega
      refine { h with
        live := by simp [RequestBody.after]
        opened := by simp [RequestBody.after]
        spread := by simp [RequestBody.after]
        complete := fun _ => ⟨hall, ?_, ?_⟩ }
      · change (bytes r.chunks).length = total
        rw [← take_append_drop (r.received + 1) r.chunks, hdrop, append_nil, htk, hsz]
      · rw [bytes_append, length_append, hln] at hsz
        rw [← hsz]
        simp [atNode, passed, Nat.add_assoc]

theorem Carries.collecting {use : Use} {buffer : Bytes} {chunk : BodyChunk} {rest : List BodyChunk}
    (h : r.Carries body total polled held) (hb : body.length = total)
    (hq : r.reader = .collecting use buffer) (hi : r.ingress = chunk :: rest) :
    (chunk.last = true ↔ buffer.length + chunk.data.length = total) ∧
      buffer.length + chunk.data.length ≤ total := by
  have hho := h.holds
  rw [hq] at hho
  obtain ⟨hfr, rfl⟩ := hho
  have hln := h.line
  rw [hfr, hi, nil_append, append_cons] at hln
  exact hln.mid hb

/-- The reader moves what is at the node. -/
theorem Alive.moved (h : r.Alive x total) {ingress handoff : List BodyChunk} {reader : Reader}
    {acks : ℕ} (hs : s = { r with
      ingress := ingress, handoff := handoff, reader := reader, acks := acks })
    (ho : r.body = .open → reader.left = false ∧ (r.stream ≠ none → s.spread = window))
    (hat : s.atNode = r.atNode) (hrd : s.Reading total) : s.Alive x total := by
  subst hs
  exact { h with
    opened := fun hb => ⟨(ho hb).1, (h.opened hb).2⟩
    spread := fun hb => (ho hb).2
    complete := fun hcl => hat ▸ h.complete hcl
    reading := hrd }

/-- The step of the reader. -/
theorem Alive.read (h : r.Alive x total) (hw : r.Windowed) (hb : body.length = total)
    (hp : 0 < total) (hc : r.Carries body total polled held) (hm : Reads r s) :
    s.Alive x total := by
  have hrd := h.reading
  have hsp : s.reader.left = false → r.body = .open →
      s.reader.left = false ∧ (r.stream ≠ none → s.spread = window) :=
    fun hl ho => ⟨hl, fun hst => (hm.spread ho (hw.lastEnds ho) hl).2.trans (h.spread ho hst)⟩
  cases hm with
  | stays _ => exact h
  | returns hq => exact absurd hq h.ne_tooLarge
  | quits hq hi hcl =>
    -- what is left of a complete body is in the channel
    obtain ⟨-, -, hsum⟩ := h.complete hcl
    rcases hq with hq | ⟨use, b, hq⟩ <;> simp only [Reading, hq] at hrd <;>
      simp only [atNode, hq, hi, Reader.bytes, bytes_nil, length_nil] at hsum <;> omega
  | takes hq hi =>
    simp only [Reading, hq] at hrd
    exact h.moved rfl (hsp rfl) (by simp [atNode, passed, hq, hi, Reader.bytes, Nat.add_assoc]) hrd
  | @hands chunk hq =>
    simp only [Reading, hq] at hrd
    have hho := hc.holds
    rw [hq] at hho
    have hln := hc.line
    rw [show held = _ from hho] at hln
    obtain ⟨hl, hle⟩ := hln.mid hb
    rw [h.passed_eq hc] at hl hle
    have hpa : ∀ rd, ({ r with handoff := r.handoff ++ [chunk], reader := rd } : Relay).passed =
        r.passed + chunk.data.length := fun _ => by simp [passed, Nat.add_assoc]
    refine h.moved rfl (hsp rfl) (by simp [atNode, hpa, hq, Reader.bytes]) ⟨?_, hrd.2⟩
    rw [hpa]
    split
    next hx => exact hl.mp hx
    next hx => exact lt_of_le_of_ne hle (mt hl.mpr hx)
  | @credits last hq =>
    simp only [Reading, hq] at hrd
    have hat : ∀ rd : Reader, rd.bytes = [] →
        ({ r.returnCredit with reader := rd } : Relay).atNode = r.atNode := fun rd hrb => by
      rw [atNode, atNode, hq, hrb]
      rfl
    cases last with
    | false => exact h.moved rfl (hsp rfl) (hat _ rfl) hrd
    | true =>
      -- behind the last chunk the body is not open
      have hcl := h.not_open hc.line.left.left ((h.passed_eq hc).trans hrd.1) hp fun ho => by
        rw [← hc.link ho (by rw [hq]; rfl), append_assoc]
        exact subset_append_left _ _
      exact h.moved rfl (fun ho => absurd ho hcl) (hat _ rfl) hrd
  | tooLarge hq hi hm =>
    have hle := (hc.collecting hb hq hi).2
    simp only [Reading, hq] at hrd
    omega
  | @collects use buffer chunk rest hq hi hl =>
    obtain ⟨hlast, hle⟩ := hc.collecting hb hq hi
    simp only [Reading, hq] at hrd
    have hlt : (buffer ++ chunk.data).length < total := by
      rw [length_append]
      exact lt_of_le_of_ne hle (mt hlast.mpr (by simp [hl]))
    refine h.moved rfl (hsp rfl) ?_ ⟨hlt, hrd.2⟩
    simp [atNode, passed, hq, hi, Reader.bytes, returnCredit, Nat.add_assoc]
  | @collected use buffer chunk rest hq hi hl =>
    have hsz := (hc.collecting hb hq hi).1.mp hl
    have hcl := hw.closed hi hl
    simp only [Reading, hq] at hrd
    cases use with
    | expand =>
      refine h.moved rfl (fun ho => absurd ho hcl) ?_ (hrd.2.2.2.1 rfl)
      simp [atNode, passed, hq, hi, Reader.bytes, returnCredit, collected, Nat.add_assoc]
    | count =>
      have hlen : (buffer ++ chunk.data).length = total := length_append.trans hsz
      obtain ⟨hre, hch, -⟩ := h.complete hcl
      refine { h with
        opened := fun ho => absurd ho hcl
        spread := fun ho => absurd ho hcl
        complete := fun _ => ⟨hre, hch, ?_⟩
        reading := ?_
        asked := h.asked.imp (fun ha => ⟨ha.1, ha.2.1, hlen, ha.2.2.2⟩) id }
      · have hrb : (upstreamReader r.expandMedia).bytes = [] := by cases r.expandMedia <;> rfl
        change r.passed + (upstreamReader r.expandMedia).bytes.length +
          (bytes [⟨buffer ++ chunk.data, true⟩]).length = total
        rw [hrd.2.2.1, hrb]
        simpa using hlen
      · change Reading total { r with reader := upstreamReader r.expandMedia }
        cases hx : r.expandMedia with
        | false => exact ⟨hrd.2.2.1 ▸ hp, rfl⟩
        | true => exact ⟨hp, hrd.2.2.2.2 hx, hrd.2.2.1, fun _ => rfl, fun _ => hrd.2.2.2.2 hx⟩

/-- The step of the upstream. -/
theorem Alive.poll (h : r.Alive x total) (hb : body.length = total)
    (hc : r.Carries body total polled held) (hp : Polls r s) : s.Alive x total := by
  have hle := hb ▸ hc.given.length_le
  have hask : r.upstream.result = none → r.upstream.sent = r.upstream.yielded.length ∧
      r.upstream.length = total ∧
      (r.upstream.state = .open ↔ r.upstream.yielded.length < total) := fun hn => by
    rcases h.asked with ⟨-, ha⟩ | hok
    · exact ha
    · rw [hn] at hok
      cases hok
  cases hp with
  | finished _ | pending _ _ => exact h
  | ends hn hs =>
    obtain ⟨hse, hlen, hst⟩ := hask hn
    have hy : r.upstream.yielded.length = total := hle.antisymm (not_lt.mp (mt hst.mpr hs))
    refine { h with asked := .inr ?_ }
    simp [Upstream.item, Upstream.end_, hse, hlen, hy]
  | @takes chunk rest hn hs hi =>
    obtain ⟨hse, hlen, hst⟩ := hask hn
    have hy := hc.fed (by simp [hn])
    have hln := hc.line
    rw [hi, append_cons, append_assoc, append_assoc] at hln
    obtain ⟨hl, hle'⟩ := hln.mid hb
    rw [← hy] at hl hle'
    have hit : Upstream.item { r.upstream with state := if chunk.last then .ended else .open }
        (some (.ok chunk.data)) = ⟨if chunk.last then .ended else .open, total,
          r.upstream.yielded.length + chunk.data.length, r.upstream.yielded ++ chunk.data,
          none⟩ := by
      simp only [Upstream.item, hse, hlen, hn]
      rw [if_neg (not_lt.mpr hle')]
    have hpa : ∀ u : Upstream, u.yielded = r.upstream.yielded ++ chunk.data →
        ({ r with handoff := rest, upstream := u } : Relay).passed = r.passed := fun u hu => by
      simp [passed, hu, hi, Nat.add_assoc]
    rw [hit]
    refine { h with
      complete := fun hcl => ?_
      reading := ?_
      asked := .inl ⟨rfl, by simp, rfl, ?_⟩ }
    · obtain ⟨hre, hch, hsum⟩ := h.complete hcl
      refine ⟨hre, hch, ?_⟩
      rw [← hsum, atNode, hpa _ rfl]
      rfl
    · have hrd := h.reading
      unfold Reading at hrd ⊢
      rw [hpa _ rfl]
      exact hrd
    · rw [length_append]
      by_cases hx : chunk.last = true
      · simp [hx, hl.mp hx]
      · simp only [hx, if_false, true_iff, Bool.false_eq_true]
        exact lt_of_le_of_ne hle' (mt hl.mpr hx)
  | truncated hn hs hi hg =>
    -- the bridge thread leaves only behind the last chunk
    have hrd := h.reading
    simp only [Reading, hg, passed, hi, bytes_nil, length_nil] at hrd
    have := (hask hn).2.2.mp hs
    omega

/-- A relay on its way that nobody has given up. -/
structure Going (body : Bytes) (x : Bool) (total : ℕ) (r : Relay) : Prop where
  sound : r.Sound body total
  alive : r.Alive x total

theorem Going.step (h : r.Going body x total) (hb : body.length = total) (hp : 0 < total)
    {e : Event} (he : e.Working) : (r.step e).Going body x total := by
  refine ⟨h.sound.step e, ?_⟩
  obtain ⟨hw, hs, polled, held, hc⟩ := h.sound
  cases e with
  | pump => exact h.alive.pump hs hb hw.received (pump_pumps r)
  | ack => exact h.alive.ack
  | deliver => exact h.alive.deliver hw hs hb hc (deliver_delivers r)
  | read => exact h.alive.read hw hb hp hc (read_reads r)
  | poll => exact h.alive.poll hb hc (poll_polls r)
  | _ => cases he

/-- While the body is open, somebody can move. -/
theorem Going.moves (h : r.Going body x total) (hp : 0 < total) (ho : r.body = .open)
    (hpu : ∀ stream ∈ r.stream, stream.credits = 0) (hac : r.acks = 0)
    (hde : r.sent.length ≤ r.received) (hre : Still r) : ∃ c, r.reader = .handing c := by
  obtain ⟨hw, hs, polled, held, hc⟩ := h.sound
  have hleft := (h.alive.opened ho).1
  cases hre with
  | full hq _ => exact ⟨_, hq⟩
  | empty hq hi _ =>
    -- no chunk is on the way, so the server has all its credits and nothing to send
    have hun : r.reader.uncredited = 0 := by
      rcases hq with hq | ⟨_, _, hq⟩ <;> rw [hq] <;> rfl
    have hno : r.stream = none := by
      by_contra hst
      obtain ⟨st, hst'⟩ := Option.ne_none_iff_exists'.mp hst
      have hsp := h.alive.spread ho hst
      have hcr := hpu st hst'
      simp only [spread, credits, hst', Option.map_some, Option.getD_some, hcr, hi, hun, hac,
        length_nil, window] at hsp
      omega
    refine absurd ho (h.alive.not_open hs.marked (h.alive.drained hno) hp fun _ => ?_)
    rw [take_of_length_le (by simpa [chunks] using hde)]
    exact Subset.refl _
  | done hq =>
    rcases hq with hq | ⟨raw, hq⟩
    · rw [hleft] at hq
      cases hq
    · obtain ⟨rfl, hsz, hmk⟩ := hc.whole hq
      refine absurd ho (h.alive.not_open hmk.left hsz hp fun _ => ?_)
      rw [← hc.link ho hleft, append_assoc]
      exact Subset.trans (subset_append_left _ _) (subset_append_right _ _)

end Relay

end ModelProxy.BodyRelay
