import ModelProxy.HostValues
import ModelProxy.SseFrames

/-! # Chunks of an SSE stream

The frames of the chunks are the frames of the stream, so the records and their offsets do
not depend on where the chunks end.  Only the guard on the buffer sees it: between chunks it
measures an event with its line ends as they came and with all of its terminator but the last
byte, while a complete event is measured without its terminator and with its line ends
normalised.
-/
namespace ModelProxy.Sse
open List Utf8 SseDecoder
open Utf8 (byteLength byteLength_append)

variable {fed later : List UInt8} {d : SseDecoder} {seen : List (SseRecord × ℕ)}
  {sofar : List (List Char)}

/-- Where the frames so far start does not change with the bytes that follow: a byte order
mark that is completed later finds no frames yet. -/
theorem readFrames_bomLength {cap : ℕ} {dec : TextDecoder} {text rest : List Char}
    {frames : List (List Char)} (hdc : TextDecoder.new.decode fed = some (dec, text))
    (hc : Cut text frames rest) :
    readFrames cap (bomLength (fed ++ later)) frames =
      readFrames cap (bomLength fed) frames := by
  by_cases hn : bomLength fed = 0
  · by_cases hl : bomLength (fed ++ later) = 0
    · rw [hn, hl]
    · obtain ⟨dec', he⟩ := decode_of_bom_later hn hl
      rw [hdc] at he
      cases he
      obtain ⟨rfl, -⟩ := hc.unique (⟨rfl, by simp, rfl⟩ : Cut [] [] [])
      rfl
  · have hf : fed.take 3 = bom := by
      by_contra hne
      exact hn (if_neg hne)
    have hlo : 3 ≤ fed.length := by
      have hle := congrArg length hf
      rw [length_take, show bom.length = 3 from rfl] at hle
      omega
    simp only [bomLength, take_append_of_le_length hlo]

/-! ## The decoder between chunks -/

/-- A decoder that has taken these bytes and handed out these records. -/
structure Tracks (maxBufferBytes : ℕ) (d : SseDecoder) (fed : List UInt8)
    (seen : List (SseRecord × ℕ)) (frames : List (List Char)) : Prop where
  limit : d.maxBufferBytes = maxBufferBytes
  unfinished : d.finished = false
  leading : d.leading = fed.take 3
  decoded : ∃ text, TextDecoder.new.decode fed = some (d.decoder, text) ∧ Cut text frames d.buffer
  consumed : d.consumedBytes = bomLength fed + byteLength frames.flatten
  read : readFrames maxBufferBytes (bomLength fed) frames = .ok seen

theorem tracks_new (cap : ℕ) : Tracks cap (.new cap) [] [] [] :=
  ⟨rfl, rfl, rfl, ⟨[], rfl, rfl, by simp, rfl⟩, rfl, rfl⟩

section Push
variable {cap : ℕ} {d d' : SseDecoder} {fed chunk : List UInt8}
  {seen records : List (SseRecord × ℕ)} {frames : List (List Char)}

/-- Three leading bytes are kept, and a byte order mark among them is counted once. -/
theorem Tracks.takeLeading (h : Tracks cap d fed seen frames) (chunk : List UInt8) :
    d.takeLeading chunk = { d with
      leading := (fed ++ chunk).take 3
      consumedBytes := bomLength (fed ++ chunk) + byteLength frames.flatten } := by
  unfold SseDecoder.takeLeading
  rw [h.leading]
  by_cases hl : fed.length < 3
  · have ha : fed.take 3 = fed := take_of_length_le (by omega)
    have hs : (fed.take 3).length < 3 := by rwa [ha]
    have hn : bomLength fed = 0 := by
      rw [bomLength, ha, if_neg]
      rintro rfl
      exact absurd hl (by decide)
    have hf : fed ++ chunk.take (3 - fed.length) = (fed ++ chunk).take 3 := by
      rw [take_append, ha]
    rw [if_pos hs, ha]
    dsimp only
    rw [hf, h.consumed, hn, bomLength]
    congr 1
    split <;> omega
  · have hf : (fed ++ chunk).take 3 = fed.take 3 := take_append_of_le_length (by omega)
    have hlo : ¬ (fed.take 3).length < 3 := by
      rw [length_take]
      omega
    have hsm : bomLength (fed ++ chunk) = bomLength fed := by simp only [bomLength, hf]
    rw [if_neg hlo, hf, hsm, ← h.leading, ← h.consumed]

/-- **A chunk is read by the frames it completes, and refused when what is left over exceeds
the buffer.** -/
theorem Tracks.push_eq (h : Tracks cap d fed seen frames) {decoder : TextDecoder}
    {text rest : List Char} {more : List (List Char)}
    (hdc : d.decoder.decode chunk = some (decoder, text))
    (hc : Cut (d.buffer ++ text) more rest) :
    d.push chunk = (do
      let records ← readFrames cap
        (bomLength (fed ++ chunk) + byteLength frames.flatten) more
      if cap < byteLength rest then .error .streamBufferExceeded
      else return ({ d with
        decoder := decoder
        buffer := rest
        leading := (fed ++ chunk).take 3
        consumedBytes := bomLength (fed ++ chunk) + byteLength (frames ++ more).flatten },
        records)) := by
  unfold push
  rw [h.unfinished, if_neg Bool.false_ne_true, h.takeLeading chunk]
  dsimp only
  rw [hdc]
  dsimp only
  rw [drain, drainLoop_eq hc (Nat.le_refl _), h.limit]
  cases readFrames cap (bomLength (fed ++ chunk) + byteLength frames.flatten) more with
  | error e => rfl
  | ok records =>
    by_cases hov : cap < byteLength rest <;>
      simp [SseDecoder.guard, bind, Except.bind, pure, Except.pure, hov, h.unfinished,
        Nat.add_assoc]

/-- A chunk that is accepted leaves a decoder that has taken it too. -/
theorem Tracks.push (h : Tracks cap d fed seen frames) (hpu : d.push chunk = .ok (d', records)) :
    ∃ more, Tracks cap d' (fed ++ chunk) (seen ++ records) (frames ++ more) ∧
      byteLength d'.buffer ≤ cap := by
  obtain ⟨pre, hb, hc⟩ := h.decoded
  cases hdc : d.decoder.decode chunk with
  | none =>
    have hi : d.push chunk = .error .invalidUtf8 := by
      unfold SseDecoder.push
      rw [h.unfinished, if_neg Bool.false_ne_true, h.takeLeading chunk]
      dsimp only
      rw [hdc]
    rw [hi] at hpu
    cases hpu
  | some decoded =>
    obtain ⟨dec, text⟩ := decoded
    obtain ⟨more, rest, hmo⟩ := exists_cut (d.buffer ++ text)
    rw [h.push_eq hdc hmo] at hpu
    obtain ⟨read, hrd, hpu⟩ := bind_eq_ok.mp hpu
    split at hpu
    · cases hpu
    next hft =>
    cases hpu
    have hst : readFrames cap (bomLength (fed ++ chunk)) frames = .ok seen := by
      rw [readFrames_bomLength hb hc, h.read]
    refine ⟨more, ⟨h.limit, h.unfinished, rfl, ⟨pre ++ text, ?_, hc.append hmo⟩, rfl,
      ?_⟩, Nat.le_of_not_lt hft⟩
    · exact decode_append.mpr ⟨_, _, _, hb, hdc, rfl⟩
    · rw [readFrames_append, hst]
      show (do let more ← readFrames _ _ more; _) = _
      rw [hrd]
      rfl

/-- An accepted chunk after the other. -/
theorem Tracks.pushAll {chunks : List (List UInt8)} (h : Tracks cap d fed seen frames)
    (hpu : d.pushAll chunks = .ok (d', records)) :
    ∃ more,
      Tracks cap d' (fed ++ chunks.flatten) (seen ++ records) (frames ++ more) := by
  induction chunks generalizing d fed seen frames records with
  | nil =>
    cases hpu
    exact ⟨[], by simpa using h⟩
  | cons chunk chunks ih =>
    obtain ⟨⟨d₁, first⟩, hf, hpu⟩ := bind_eq_ok.mp hpu
    obtain ⟨⟨d₂, later⟩, hl, hpu⟩ := bind_eq_ok.mp hpu
    cases hpu
    obtain ⟨more, ho, -⟩ := h.push hf
    obtain ⟨rest, ha⟩ := ih ho hl
    exact ⟨more ++ rest, by simpa [append_assoc] using ha⟩

/-- A stream ends on a frame and within no character. -/
theorem Tracks.finish (h : Tracks cap d fed seen frames) :
    d.finish = if d.decoder.utf8.needed ≠ 0 then .error .invalidUtf8
      else if d.buffer ≠ [] then .error .truncatedStream
      else .ok ({ d with finished := true }, []) := by
  obtain ⟨pre, -, hc⟩ := h.decoded
  have hke : Cut (d.buffer ++ []) [] d.buffer := ⟨by simp, by simp, hc.rest⟩
  unfold SseDecoder.finish TextDecoder.flush Utf8.finish
  rw [h.unfinished, if_neg Bool.false_ne_true]
  by_cases hn : d.decoder.utf8.needed = 0
  · rw [if_neg (not_not.mpr hn), if_pos hn, if_pos rfl]
    dsimp only
    rw [drain, drainLoop_eq hke (Nat.le_refl _)]
    by_cases hb : d.buffer = []
    · simp [readFrames, SseDecoder.guard, hb, bind, Except.bind, pure, Except.pure]
    · have hp : 0 < d.buffer.length := length_pos_iff.mpr hb
      simp [readFrames, hb, hp, bind, Except.bind, pure, Except.pure]
  · rw [if_pos hn, if_neg hn, if_neg (by simp)]

end Push

/-! ## Whole streams -/

/-- What makes a stream an accepted one: its bytes are the frames' and each frame is read. -/
structure Reads (maxBufferBytes : ℕ) (stream : List UInt8) (frames : List (List Char))
    (observed : List (SseRecord × ℕ)) : Prop where
  decoded : ∃ decoder, TextDecoder.new.decode stream = some (decoder, frames.flatten) ∧
    decoder.utf8.needed = 0
  framed : ∀ frame ∈ frames, IsFrame frame
  read : readFrames maxBufferBytes (bomLength stream) frames = .ok observed

/-- What a decoder that has taken these bytes keeps of an unfinished frame. -/
def Keeps (bytes : List UInt8) (rest : List Char) : Prop :=
  ∃ decoder text frames, TextDecoder.new.decode bytes = some (decoder, text) ∧ Cut text frames rest

section Streams
variable {cap : ℕ} {stream : List UInt8} {frames : List (List Char)}
  {observed : List (SseRecord × ℕ)} {out : Decoded}

theorem Reads.cut (h : Reads cap stream frames observed) :
    Cut frames.flatten frames [] := ⟨by simp, h.framed, rfl⟩

variable {chunks : List (List UInt8)}

/-- **An accepted stream reads, however it was cut.** -/
theorem reads_of_decodeChunks (h : decodeChunks cap chunks = .ok out) :
    out.records = out.observed.map Prod.fst ∧
      ∃ frames, Reads cap chunks.flatten frames out.observed := by
  obtain ⟨⟨d, seen⟩, hpu, h⟩ := bind_eq_ok.mp h
  obtain ⟨⟨d', last⟩, hf, h⟩ := bind_eq_ok.mp h
  cases h
  obtain ⟨frames, ht⟩ := (tracks_new cap).pushAll hpu
  rw [ht.finish] at hf
  split_ifs at hf with hn hb
  cases hf
  obtain ⟨text, hdc, hc⟩ := ht.decoded
  rw [not_not.mp hb] at hc
  refine ⟨append_nil _, [] ++ frames, ⟨d.decoder, ?_, not_not.mp hn⟩, hc.framed, ht.read⟩
  have htx := hc.text
  rw [append_nil] at htx
  rw [← htx]
  exact hdc

/-- A chunk of a stream that reads is accepted when what it leaves over fits the buffer. -/
theorem Tracks.push_total {chunk : List UInt8} (h : Tracks cap d fed seen sofar)
    (hr : Reads cap (fed ++ chunk ++ later) frames observed)
    (hft : ∀ rest, Keeps (fed ++ chunk) rest → byteLength rest ≤ cap) :
    ∃ d' records, d.push chunk = .ok (d', records) := by
  obtain ⟨pre, hb, hc⟩ := h.decoded
  obtain ⟨dec, hd, -⟩ := hr.decoded
  -- The stream decodes, so its parts do.
  obtain ⟨between, text₁, text₂, hup, -, hf⟩ := decode_append.mp hd
  obtain ⟨_, _, text, hb', hdc, rfl⟩ := decode_append.mp hup
  rw [hb] at hb'
  cases hb'
  obtain ⟨more, rest, hmo⟩ := exists_cut (d.buffer ++ text)
  have hbt := hc.append hmo
  -- The frames so far are the first of the stream's.
  obtain ⟨others, last, ho⟩ := exists_cut (rest ++ text₂)
  have ha := hbt.append ho
  rw [hf] at ha
  obtain ⟨rfl, -⟩ := hr.cut.unique ha
  have hrd := hr.read
  rw [readFrames_append, readFrames_bomLength hup hbt, readFrames_append] at hrd
  obtain ⟨_, hrd, -⟩ := bind_eq_ok.mp hrd
  obtain ⟨_, -, hrd⟩ := bind_eq_ok.mp hrd
  obtain ⟨records, hrd, -⟩ := bind_eq_ok.mp hrd
  have hpu := h.push_eq hdc hmo
  rw [hrd] at hpu
  have ht : ¬ cap < byteLength rest :=
    Nat.not_lt.mpr (hft rest ⟨_, _, _, hup, hbt⟩)
  exact ⟨_, records, hpu.trans (if_neg ht)⟩

/-- Pushing all the chunks decodes every frame. -/
theorem Tracks.pushAll_total (h : Tracks cap d fed seen sofar)
    (hr : Reads cap (fed ++ chunks.flatten) frames observed)
    (hft : ∀ pre post, chunks = pre ++ post → pre ≠ [] →
      ∀ rest, Keeps (fed ++ pre.flatten) rest → byteLength rest ≤ cap) :
    ∃ d' records, d.pushAll chunks = .ok (d', records) := by
  induction chunks generalizing d fed seen sofar with
  | nil => exact ⟨d, [], rfl⟩
  | cons chunk chunks ih =>
    rw [flatten_cons, ← append_assoc] at hr
    obtain ⟨d₁, first, hf⟩ := h.push_total hr
      (by simpa using hft [chunk] chunks rfl (by simp))
    obtain ⟨more, ho, -⟩ := h.push hf
    obtain ⟨d₂, later, hl⟩ := ih ho hr fun pre post hs _ => by
      simpa [append_assoc] using
        hft (chunk :: pre) post (by rw [hs, cons_append]) (by simp)
    refine ⟨d₂, first ++ later, ?_⟩
    rw [SseDecoder.pushAll, hf]
    show (d₁.pushAll chunks >>= _) = _
    rw [hl]
    rfl

/-- **A stream that reads is accepted under every cut that leaves no more over than fits.** -/
theorem Reads.decodeChunks (hr : Reads cap chunks.flatten frames observed)
    (hft : ∀ pre post, chunks = pre ++ post → pre ≠ [] →
      ∀ rest, Keeps pre.flatten rest → byteLength rest ≤ cap) :
    decodeChunks cap chunks = .ok ⟨observed.map Prod.fst, observed⟩ := by
  obtain ⟨d, seen, hpu⟩ := (tracks_new cap).pushAll_total hr hft
  obtain ⟨sofar, ht⟩ := (tracks_new cap).pushAll hpu
  simp only [nil_append] at ht
  obtain ⟨text, htx, hc⟩ := ht.decoded
  obtain ⟨dec, hd, he⟩ := hr.decoded
  rw [hd] at htx
  cases htx
  obtain ⟨rfl, hb⟩ := hr.cut.unique hc
  have hrd := ht.read
  rw [hr.read] at hrd
  cases hrd
  have hf := ht.finish
  rw [if_neg (not_not.mpr he), if_neg (not_not.mpr hb.symm)] at hf
  rw [Sse.decodeChunks, hpu]
  show (d.finish >>= _) = _
  rw [hf]
  show Except.ok (Decoded.mk (_ ++ []) _) = _
  rw [append_nil]

/-- The whole stream leaves nothing over. -/
theorem Reads.whole (hr : Reads cap stream frames observed) :
    Sse.decodeChunks cap [stream] = .ok ⟨observed.map Prod.fst, observed⟩ := by
  have ho : ([stream] : List (List UInt8)).flatten = stream := by simp
  refine Reads.decodeChunks (by rwa [ho]) fun pre post hs hne rest hk => ?_
  obtain ⟨rfl, -⟩ : pre = [stream] ∧ post = [] := by
    cases pre with
    | nil => exact absurd rfl hne
    | cons chunk pre => simpa [and_assoc] using hs.symm
  obtain ⟨dec', text, sofar, htx, hc⟩ := hk
  obtain ⟨dec, hd, -⟩ := hr.decoded
  rw [ho, hd] at htx
  cases htx
  obtain ⟨-, rfl⟩ := hr.cut.unique hc
  simp

/-- A frame read up to its last byte is kept whole but for that byte. -/
theorem Reads.keeps_dropLast (hr : Reads cap stream frames observed)
    {fr : List Char} (hfr : fr ∈ frames) :
    ∃ chunk later, stream = chunk ++ later ∧ Keeps chunk fr.dropLast := by
  obtain ⟨dec, hd, he⟩ := hr.decoded
  obtain ⟨all, rfl, ha⟩ := exists_encode hd he
  obtain ⟨before, after, rfl⟩ := append_of_mem hfr
  have hi := hr.framed fr hfr
  have hne : fr ≠ [] := by
    rintro rfl
    obtain ⟨_, _, hfd, -⟩ := hi
    cases hfd
  have hc : Cut (before.flatten ++ fr.dropLast) before fr.dropLast :=
    ⟨rfl, fun f hf => hr.framed f (by simp [hf]), hi.dropLast.2⟩
  have hl : (before ++ fr :: after).flatten =
      (before.flatten ++ fr.dropLast) ++ (fr.getLast hne :: after.flatten) := by
    conv_lhs => rw [← dropLast_append_getLast hne]
    simp
  obtain ⟨mark, hmk, -, hdr⟩ := exists_mark all
  rw [← ha] at hmk hdr
  refine ⟨encode (mark ++ (before.flatten ++ fr.dropLast)),
    encode (fr.getLast hne :: after.flatten), ?_, _, _, before, decode_encode _, ?_⟩
  · rw [hmk, hl, ← encode_append]
    simp only [append_assoc]
  · rw [hdr _ _ hl]
    exact hc

/-- The record of a frame that is read. -/
def recordOf (frame : List Char) : Option SseRecord :=
  (terminator frame).bind fun found =>
    match parseRecord (normalize (frame.take found.1)) with
    | .ok record => record
    | .error _ => none

/-- Every record is reported with the bytes of the stream up to the end of its frame. -/
theorem readFrames_located (lead : List UInt8) (pre : List (List Char))
    (h : readFrames cap (lead.length + byteLength pre.flatten) frames = .ok observed) :
    observed = (frames.zipIdx pre.length).filterMap fun placed =>
      (recordOf placed.1).map fun record => (record,
          (lead ++ encode ((pre ++ frames).take (placed.2 + 1)).flatten).length) := by
  induction frames generalizing pre observed with
  | nil =>
    cases h
    rfl
  | cons fr frames ih =>
    obtain ⟨record, hr, h⟩ := bind_eq_ok.mp h
    obtain ⟨later, hl, h⟩ := bind_eq_ok.mp h
    cases h
    have hof : recordOf fr = record := by
      unfold readFrame at hr
      unfold recordOf
      cases hfd : terminator fr with
      | none =>
        rw [hfd] at hr
        cases hr
        rfl
      | some found =>
        rw [hfd] at hr
        dsimp only at hr
        split at hr
        · cases hr
        · rw [Option.bind_some, hr]
    have hmo := ih (pre ++ [fr]) (by
      simpa [byteLength_append, Nat.add_assoc] using hl)
    have htk : (pre ++ fr :: frames).take (pre.length + 1) = pre ++ [fr] := by
      rw [take_append, take_of_length_le (Nat.le_succ _)]
      simp
    have hjn : (pre ++ [fr]) ++ frames = pre ++ fr :: frames := by simp
    rw [hjn, length_append, length_singleton] at hmo
    rw [zipIdx_cons, filterMap_cons, htk, ← hmo, hof]
    cases record with
    | none => rfl
    | some record => simp [byteLength, Nat.add_assoc]

/-- The frames of an accepted stream and what is reported of them. -/
structure Located (stream lead : List UInt8) (frames : List (List Char)) (out : Decoded) :
    Prop where
  begins : lead = if stream.take 3 = bom then bom else []
  bytes : stream = lead ++ Utf8.encode frames.flatten
  framed : ∀ frame ∈ frames, IsFrame frame
  records : out.records = out.observed.map Prod.fst
  /-- The offset is the number of bytes up to and including the frame's terminator. -/
  observed : out.observed = frames.zipIdx.filterMap fun placed =>
    (recordOf placed.1).map fun record =>
      (record, (lead ++ Utf8.encode (frames.take (placed.2 + 1)).flatten).length)

theorem Reads.located (h : Reads cap stream frames observed) :
    ∃ lead, Located stream lead frames ⟨observed.map Prod.fst, observed⟩ := by
  obtain ⟨dec, hd, he⟩ := h.decoded
  obtain ⟨all, rfl, ha⟩ := exists_encode hd he
  obtain ⟨mark, hmk, hb, -⟩ := exists_mark all
  rw [← ha] at hmk
  have hl : bomLength (encode all) = (encode mark).length := by
    rw [bomLength, hb]
    split <;> rfl
  have hrd := h.read
  rw [hl] at hrd
  have ho := readFrames_located (encode mark) [] hrd
  refine ⟨encode mark, hb, ?_, h.framed, rfl, ho⟩
  rw [← encode_append, ← hmk]

end Streams

/-- **Where the chunks end matters to the guard on the buffer alone.**  A stream accepted in
one piece gives the same records with the same offsets under every cut that is accepted, and
every cut is accepted exactly if no event, its terminator included, is longer than the buffer
by more than a byte: the last byte of a terminator always finds the rest of the event in the
buffer if it comes in a chunk of its own.  A stream refused in one piece is refused under
every cut. -/
theorem decodeChunks_chunking (maxBufferBytes : ℕ) (stream : List UInt8) :
    (∀ out, decodeChunks maxBufferBytes [stream] = .ok out →
      ∃ lead frames, Located stream lead frames out ∧
        (∀ chunks, chunks.flatten = stream → ∀ out',
          decodeChunks maxBufferBytes chunks = .ok out' → out' = out) ∧
        ((∀ chunks, chunks.flatten = stream → decodeChunks maxBufferBytes chunks = .ok out) ↔
          ∀ frame ∈ frames, byteLength frame ≤ maxBufferBytes + 1)) ∧
    (∀ error, decodeChunks maxBufferBytes [stream] = .error error →
      ∀ chunks, chunks.flatten = stream →
        ∃ error', decodeChunks maxBufferBytes chunks = .error error') := by
  have hw {chunks : List (List UInt8)} (hf : chunks.flatten = stream) {out : Decoded}
      (h : decodeChunks maxBufferBytes chunks = .ok out) :
      decodeChunks maxBufferBytes [stream] = .ok out := by
    obtain ⟨hc, frames, hr⟩ := reads_of_decodeChunks h
    rw [hf] at hr
    rw [hr.whole, ← hc]
  constructor
  · intro out ho
    obtain ⟨hc, frames, hr⟩ := reads_of_decodeChunks ho
    rw [show ([stream] : List (List UInt8)).flatten = stream by simp] at hr
    obtain ⟨records, observed⟩ := out
    obtain rfl : records = observed.map Prod.fst := hc
    obtain ⟨lead, hl⟩ := hr.located
    refine ⟨lead, frames, hl, ?_, ?_, ?_⟩
    · intro chunks hf out' ho'
      have hs := hw hf ho'
      rw [ho] at hs
      exact (Except.ok.inj hs).symm
    · intro hev frame hfr
      obtain ⟨chunk, later, rfl, hk⟩ := hr.keeps_dropLast hfr
      have hcu := hev [chunk, later] (by simp)
      obtain ⟨⟨d, seen⟩, hp, -⟩ := bind_eq_ok.mp hcu
      obtain ⟨⟨d₁, first⟩, hfi, -⟩ := bind_eq_ok.mp hp
      obtain ⟨more, htr, hft⟩ := (tracks_new maxBufferBytes).push hfi
      obtain ⟨text, ht, hta⟩ := htr.decoded
      obtain ⟨decoder', text', sofar, ht', hke⟩ := hk
      rw [nil_append, ht'] at ht
      cases ht
      obtain ⟨-, hb⟩ := hke.unique hta
      rw [← hb] at hft
      have hla := (hr.framed frame hfr).dropLast.1
      omega
    · intro hh chunks hf
      subst hf
      refine hr.decodeChunks fun pre post hsp _ rest hk => ?_
      obtain ⟨decoder', text, sofar, ht, hcu⟩ := hk
      obtain ⟨decoder, hd, -⟩ := hr.decoded
      rw [hsp, flatten_append] at hd
      obtain ⟨between, first, second, hfi, -, hw⟩ := decode_append.mp hd
      rw [ht] at hfi
      cases hfi
      have ha := hr.cut
      rw [← hw] at ha
      rcases hcu.rest_lt ha with rfl | ⟨frame, hfr, hlt⟩
      · exact Nat.zero_le _
      · have hle := hh frame hfr
        omega
  · intro error he chunks hf
    cases hch : decodeChunks maxBufferBytes chunks with
    | error error' => exact ⟨error', rfl⟩
    | ok out =>
      rw [hw hf hch] at he
      cases he

/-- An event one byte over the buffer: accepted in one piece, refused when the last byte of
its terminator comes alone. -/
theorem decodeChunks_cut_refused :
    decodeChunks 6 [Utf8.encode "data:x\n\n".toList] =
        .ok ⟨[⟨none, ['x'], none⟩], [(⟨none, ['x'], none⟩, 8)]⟩ ∧
      decodeChunks 6 [Utf8.encode "data:x\n".toList, Utf8.encode "\n".toList] =
        .error .streamBufferExceeded := by
  constructor <;> decide

end ModelProxy.Sse
