import ModelProxy.SseDecoder

/-! # The frames of an SSE stream

The text of a stream is cut into frames, each up to and including its terminator.  A
terminator once found stays the first one whatever text follows, so a text is cut in one way
and its parts are cut as the whole is.  The loop of `#drain` reads the frames of the buffer.
-/
namespace ModelProxy.Sse
open List TextDecoder Transducer SseDecoder
open Protocols (AdapterError)
open Utf8 (byteLength byteLength_nil byteLength_append byteLength_pos)

/-! ## Frames -/

variable {text rest : List Char} {frames : List (List Char)}

/-- **More text does not move the first terminator.** -/
theorem terminator_append {found : ℕ × ℕ} (h : terminator text = some found) (more : List Char) :
    terminator (text ++ more) = some found := by
  induction text generalizing found with
  | nil => exact absurd h (by simp [terminator])
  | cons a rest ih =>
    -- Where fewer than four characters are left, `\r\n\r\n` could still complete; then what
    -- follows its first character holds no terminator yet.
    rcases rest with _ | ⟨b, _ | ⟨c, _ | ⟨d, rest⟩⟩⟩
    · simp [terminator, cons_prefix_cons] at h
    · simp only [cons_append, nil_append, terminator, cons_prefix_cons] at h ⊢
      grind
    · simp only [cons_append, nil_append, terminator, cons_prefix_cons] at h ih ⊢
      grind
    · rw [terminator] at h
      rw [cons_append, terminator]
      simp only [cons_append, cons_prefix_cons, nil_prefix, and_true] at h ih ⊢
      split_ifs at h ⊢ with h4 h2 h2'
      · exact h
      · exact h
      · exact h
      · obtain ⟨found', hfd, rfl⟩ := Option.map_eq_some_iff.mp h
        rw [ih hfd]
        rfl

/-- Text up to and including its first terminator. -/
def IsFrame (frame : List Char) : Prop :=
  ∃ index length, terminator frame = some (index, length) ∧ index + length = frame.length

/-- What the first terminator of a text is. -/
theorem terminator_split {index length : ℕ} (h : terminator text = some (index, length)) :
    ∃ pre mark after, text = pre ++ mark ++ after ∧ pre.length = index ∧
      mark.length = length ∧
      (mark = ['\r', '\n', '\r', '\n'] ∨ mark = ['\n', '\n'] ∨ mark = ['\r', '\r']) ∧
      terminator (pre ++ mark) = some (index, length) := by
  induction text generalizing index length with
  | nil => exact absurd h (by simp [terminator])
  | cons c rest ih =>
    rw [terminator] at h
    split_ifs at h with h4 h2 h2'
    · obtain ⟨after, ha⟩ := h4
      cases h
      exact ⟨[], _, after, ha.symm, rfl, rfl, by simp, by decide⟩
    · obtain ⟨after, ha⟩ := h2
      cases h
      exact ⟨[], _, after, ha.symm, rfl, rfl, by simp, by decide⟩
    · obtain ⟨after, ha⟩ := h2'
      cases h
      exact ⟨[], _, after, ha.symm, rfl, rfl, by simp, by decide⟩
    · obtain ⟨⟨i, l⟩, hfd, heq⟩ := Option.map_eq_some_iff.mp h
      cases heq
      obtain ⟨pre, mark, after, rfl, hi, hl, hmk, hf⟩ := ih hfd
      refine ⟨c :: pre, mark, after, rfl, by simp [hi], hl, hmk, ?_⟩
      have hn {pattern : List Char} (hp : ¬ pattern <+: c :: (pre ++ mark ++ after)) :
          ¬ pattern <+: c :: (pre ++ mark) := fun hc =>
        hp (hc.trans ⟨after, by simp⟩)
      rw [cons_append, terminator, if_neg (hn h4), if_neg (hn h2), if_neg (hn h2'), hf]
      rfl

theorem terminator_take {i length : ℕ} (h : terminator text = some (i, length)) :
    terminator (text.take (i + length)) = some (i, length) ∧
      (text.take (i + length)).length = i + length ∧ 2 ≤ length := by
  obtain ⟨pre, mark, after, rfl, hi, hl, hmk, hf⟩ := terminator_split h
  have hn : (pre ++ mark).length = i + length := by simp [hi, hl]
  rw [take_left' hn]
  refine ⟨hf, hn, ?_⟩
  rw [← hl]
  rcases hmk with rfl | rfl | rfl <;> decide

variable {fr rest' more : List Char} {frames' : List (List Char)}

/-- A frame ends in a line feed or a carriage return, which is one byte. -/
theorem IsFrame.dropLast (h : IsFrame fr) :
    byteLength fr = byteLength fr.dropLast + 1 ∧ terminator fr.dropLast = none := by
  obtain ⟨index, length, hfd, hd⟩ := h
  have hle := (terminator_take hfd).2.2
  have hne : fr ≠ [] := by
    rintro rfl
    cases hfd
  have hs := dropLast_append_getLast hne
  constructor
  · obtain ⟨pre, mark, after, hf, hi, hl, hmk, -⟩ := terminator_split hfd
    have ha : after = [] := by
      have hn := congrArg List.length hf
      simp only [length_append] at hn
      exact length_eq_zero_iff.mp (by omega)
    rw [ha, append_nil] at hf
    subst hf
    obtain ⟨init, last, rfl, hla⟩ :
        ∃ init last, mark = init ++ [last] ∧ byteLength [last] = 1 := by
      rcases hmk with rfl | rfl | rfl
      · exact ⟨['\r', '\n', '\r'], '\n', rfl, rfl⟩
      · exact ⟨['\n'], '\n', rfl, rfl⟩
      · exact ⟨['\r'], '\r', rfl, rfl⟩
    rw [← append_assoc, dropLast_concat, byteLength_append, hla]
  · -- A terminator of the shorter text would be the frame's own, which is longer.
    by_contra hso
    obtain ⟨⟨i, l⟩, he⟩ := Option.ne_none_iff_exists'.mp hso
    have hsm := terminator_append he [fr.getLast hne]
    rw [hs, hfd] at hsm
    cases hsm
    have hn := (terminator_take he).2.1
    rw [length_take, length_dropLast] at hn
    omega

/-- A text cut at its terminators. -/
structure Cut (text : List Char) (frames : List (List Char)) (rest : List Char) : Prop where
  text : text = frames.flatten ++ rest
  framed : ∀ frame ∈ frames, IsFrame frame
  rest : terminator rest = none

/-- Every text is frames and a rest. -/
theorem exists_cut (text : List Char) : ∃ frames rest, Cut text frames rest := by
  induction hn : text.length using Nat.strong_induction_on generalizing text with
  | _ n ih =>
    cases hfd : terminator text with
    | none => exact ⟨[], text, rfl, by simp, hfd⟩
    | some found =>
      obtain ⟨i, length⟩ := found
      obtain ⟨hs, hl, hp⟩ := terminator_take hfd
      have hle : i + length ≤ text.length := by
        rw [length_take] at hl
        omega
      obtain ⟨frames, rest, hc⟩ :=
        ih (text.drop (i + length)).length (by rw [length_drop]; omega) _ rfl
      refine ⟨text.take (i + length) :: frames, rest, ?_, ?_, hc.rest⟩
      · rw [flatten_cons, append_assoc, ← hc.text, take_append_drop]
      · intro fr hf
        rcases mem_cons.mp hf with rfl | hf
        · exact ⟨i, length, hs, hl.symm⟩
        · exact hc.framed fr hf

/-- The first frame is found at the head of the text. -/
theorem IsFrame.terminator_append (h : IsFrame fr) (more : List Char) :
    ∃ i length, terminator fr = some (i, length) ∧ i + length = fr.length ∧
      terminator (fr ++ more) = some (i, length) := by
  obtain ⟨i, length, hfd, he⟩ := h
  exact ⟨i, length, hfd, he, Sse.terminator_append hfd more⟩

/-- **A text is cut in one way.** -/
theorem Cut.unique (h : Cut text frames rest) (h' : Cut text frames' rest') :
    frames = frames' ∧ rest = rest' := by
  induction frames generalizing text frames' with
  | nil =>
    obtain rfl : text = rest := h.text
    cases frames' with
    | nil => exact ⟨rfl, h'.text⟩
    | cons fr' frames' =>
      obtain ⟨_, _, -, -, hfd⟩ := (h'.framed fr' (by simp)).terminator_append
        (frames'.flatten ++ rest')
      rw [← append_assoc, ← flatten_cons, ← h'.text, h.rest] at hfd
      cases hfd
  | cons fr frames ih =>
    obtain ⟨i, length, -, he, hfd⟩ :=
      (h.framed fr (by simp)).terminator_append (frames.flatten ++ rest)
    rw [← append_assoc, ← flatten_cons, ← h.text] at hfd
    cases frames' with
    | nil =>
      obtain rfl : text = rest' := h'.text
      rw [h'.rest] at hfd
      cases hfd
    | cons fr' frames' =>
      obtain ⟨i', length', -, he', hfd'⟩ :=
        (h'.framed fr' (by simp)).terminator_append (frames'.flatten ++ rest')
      rw [← append_assoc, ← flatten_cons, ← h'.text, hfd] at hfd'
      cases hfd'
      have htx := h.text.symm.trans h'.text
      rw [flatten_cons, flatten_cons, append_assoc, append_assoc] at htx
      obtain ⟨rfl, htl⟩ := append_inj htx (by omega)
      obtain ⟨rfl, rfl⟩ := ih ⟨rfl, fun f hf => h.framed f (by simp [hf]), h.rest⟩
        ⟨htl, fun f hf => h'.framed f (by simp [hf]), h'.rest⟩
      exact ⟨rfl, rfl⟩

/-- Text that follows is cut from where the frames so far end. -/
theorem Cut.append (h : Cut text frames rest) (h' : Cut (rest ++ more) frames' rest') :
    Cut (text ++ more) (frames ++ frames') rest' := by
  refine ⟨?_, ?_, h'.rest⟩
  · rw [h.text, append_assoc, h'.text, flatten_append, append_assoc]
  · intro fr hf
    rcases mem_append.mp hf with hf | hf
    · exact h.framed fr hf
    · exact h'.framed fr hf

/-- What is left over of a text that goes on into these frames is part of one of them. -/
theorem Cut.rest_lt {all : List (List Char)} (h : Cut text frames rest)
    (ha : Cut (text ++ more) all []) :
    rest = [] ∨ ∃ frame ∈ all, byteLength rest < byteLength frame := by
  obtain ⟨later, end_, hl⟩ := exists_cut (rest ++ more)
  obtain ⟨rfl, rfl⟩ := ha.unique (h.append hl)
  cases later with
  | nil =>
    have hn : rest ++ more = [] := hl.text
    exact .inl (append_eq_nil_iff.mp hn).1
  | cons frame later =>
    right
    refine ⟨frame, by simp, ?_⟩
    have hfr := hl.framed frame (by simp)
    have htx := hl.text
    rw [flatten_cons, append_nil] at htx
    rcases append_eq_append_iff.mp htx with ⟨tail, hf, -⟩ | ⟨tail, hr, -⟩
    · have htl : tail ≠ [] := by
        rintro rfl
        rw [append_nil] at hf
        obtain ⟨_, _, hfd, -⟩ := hfr
        rw [hf, h.rest] at hfd
        cases hfd
      have hp := byteLength_pos htl
      rw [hf, byteLength_append]
      omega
    · obtain ⟨_, _, -, -, hfd⟩ := hfr.terminator_append tail
      rw [← hr, h.rest] at hfd
      cases hfd

/-! ## Reading the frames -/

/-- The record of a frame. -/
def readFrame (maxBufferBytes : ℕ) (frame : List Char) : Except AdapterError (Option SseRecord) :=
  match terminator frame with
  | none => .ok none
  | some (index, _) =>
    let raw := normalize (frame.take index)
    if maxBufferBytes < byteLength raw then .error .streamBufferExceeded else parseRecord raw

/-- The records of frames that follow `start` bytes, each with the bytes up to its end. -/
def readFrames (maxBufferBytes : ℕ) :
    ℕ → List (List Char) → Except AdapterError (List (SseRecord × ℕ))
  | _, [] => .ok []
  | start, frame :: frames => do
      let record ← readFrame maxBufferBytes frame
      let records ← readFrames maxBufferBytes (start + byteLength frame) frames
      return (record.map fun record => (record, start + byteLength frame)).toList ++ records

theorem readFrames_append (maxBufferBytes start : ℕ) (frames frames' : List (List Char)) :
    readFrames maxBufferBytes start (frames ++ frames') = (do
      let records ← readFrames maxBufferBytes start frames
      let more ← readFrames maxBufferBytes (start + byteLength frames.flatten) frames'
      return records ++ more) := by
  induction frames generalizing start with
  | nil =>
    show readFrames maxBufferBytes start frames' = _
    cases h : readFrames maxBufferBytes start frames' with
    | error e | ok records =>
      simp only [readFrames, flatten_nil, byteLength_nil, Nat.add_zero, h]
      rfl
  | cons fr frames ih =>
    simp only [cons_append, readFrames, ih, flatten_cons, byteLength_append, bind_assoc,
      pure_bind, append_assoc, Nat.add_assoc]

/-- **The loop of `#drain` reads the frames of the buffer and keeps the rest.** -/
theorem drainLoop_eq {d : SseDecoder} (hc : Cut d.buffer frames rest) {turns : ℕ}
    (ht : d.buffer.length ≤ turns) :
    drainLoop turns d = (do
      let records ← readFrames d.maxBufferBytes d.consumedBytes frames
      return ({ d with
        buffer := rest
        consumedBytes := d.consumedBytes + byteLength frames.flatten }, records)) := by
  induction frames generalizing d turns with
  | nil =>
    have hb : d.buffer = rest := hc.text
    have hno : terminator d.buffer = none := hb ▸ hc.rest
    have hke : drainLoop turns d = .ok (d, []) := by
      cases turns with
      | zero => rfl
      | succ turns => rw [drainLoop, hno]
    rw [hke, ← hb]
    rfl
  | cons frame frames ih =>
    obtain ⟨index, length, hfr, he, hfd⟩ :=
      (hc.framed frame (by simp)).terminator_append (frames.flatten ++ rest)
    have hb : d.buffer = frame ++ (frames.flatten ++ rest) := by
      rw [hc.text, flatten_cons, append_assoc]
    have htw := (terminator_take hfr).2.2
    obtain ⟨turns, rfl⟩ : ∃ n, turns = n + 1 := by
      have hl := congrArg List.length hb
      rw [length_append] at hl
      exact ⟨turns - 1, by omega⟩
    have htk : d.buffer.take (index + length) = frame := by
      rw [hb, take_left' he.symm]
    have hdr : d.buffer.drop (index + length) = frames.flatten ++ rest := by
      rw [hb, drop_left' he.symm]
    have hw : d.buffer.take index = frame.take index := by
      rw [hb, take_append_of_le_length (by omega)]
    have hr : Cut (d.buffer.drop (index + length)) frames rest :=
      ⟨hdr, fun f hf => hc.framed f (by simp [hf]), hc.rest⟩
    rw [drainLoop, hb, hfd, ← hb, readFrames, readFrame, hfr]
    dsimp only
    rw [htk, hw]
    split
    · rfl
    have hfe : (d.buffer.drop (index + length)).length ≤ turns := by
      rw [length_drop]
      omega
    rw [ih (d := { d with
      buffer := d.buffer.drop (index + length)
      consumedBytes := d.consumedBytes + byteLength frame }) hr hfe]
    simp [Nat.add_assoc]

/-! ## The text of the bytes -/

theorem serialize_append (bomSeen : Bool) (points points' : List ℕ) :
    serialize bomSeen (points ++ points') =
      serialize bomSeen points ++
        serialize (bomSeen || !points.isEmpty) points' := by
  cases points with
  | nil => simp [serialize]
  | cons point points =>
    have hse : serialize true points' = points' := by
      cases points' <;> simp [serialize]
    rw [isEmpty_cons, Bool.not_false, Bool.or_true, hse, cons_append]
    by_cases hmk : bomSeen = false ∧ point = 0xFEFF
    · simp only [serialize, if_pos hmk]
    · simp [serialize, if_neg hmk]

/-- Bytes decode one part after the other. -/
theorem decode_append {dec dec' : TextDecoder} {bs bs' : List UInt8} :
    dec.decode (bs ++ bs') = some (dec', text) ↔
      ∃ between first second, dec.decode bs = some (between, first) ∧
        between.decode bs' = some (dec', second) ∧ first ++ second = text := by
  simp only [decode, run_append]
  generalize run Utf8.step dec.utf8 bs = run
  obtain ⟨utf8, xs⟩ := run
  by_cases hf : none ∈ xs
  · simp [hf]
  generalize hs : run Utf8.step utf8 bs' = run'
  obtain ⟨utf8', xs'⟩ := run'
  by_cases hno : none ∈ xs'
  · simp [hf, hno, hs]
  · have he (points points' : List ℕ) : (!(points ++ points').isEmpty) =
        (!points.isEmpty || !points'.isEmpty) := by
      cases points <;> simp
    simp [hf, hno, hs, serialize_append, he, Bool.or_assoc]

/-- A leading byte order mark is not part of the text. -/
def dropBom : List Char → List Char
  | [] => []
  | c :: text => if c = '\uFEFF' then text else c :: text

/-- The bytes of a text decode to it, without a leading byte order mark. -/
theorem decode_encode (text : List Char) :
    TextDecoder.new.decode (Utf8.encode text) = some (⟨.idle, !text.isEmpty⟩, dropBom text) := by
  have hno : none ∉ text.map fun c => some c.toNat := by simp
  have hp : (text.map fun c => some c.toNat).filterMap id = text.map Char.toNat := by
    rw [filterMap_map]
    exact congrFun (filterMap_eq_map (f := Char.toNat)) text
  simp only [decode, TextDecoder.new, Utf8.run_encode, if_neg hno, hp]
  have hbk : (text.map Char.toNat).map Char.ofNat = text := by
    rw [map_map]
    exact map_id'' Char.ofNat_toNat text
  cases text with
  | nil => rfl
  | cons c text =>
    have hmk : c.toNat = 0xFEFF ↔ c = '\uFEFF' := by
      constructor
      · intro h
        rw [← Char.ofNat_toNat c, h]
      · rintro rfl
        rfl
    obtain ⟨hc, hr⟩ := cons.inj hbk
    simp only [map_cons, serialize, dropBom, hmk, true_and, isEmpty_cons,
      Bool.not_false, Bool.or_true]
    split
    · rw [hr]
    · rw [map_cons, hc, hr]

/-- Bytes that decode to the end of a character are the bytes of a text. -/
theorem exists_encode {bytes : List UInt8} {dec : TextDecoder}
    (h : TextDecoder.new.decode bytes = some (dec, text)) (he : dec.utf8.needed = 0) :
    ∃ all, bytes = Utf8.encode all ∧ text = dropBom all := by
  have hc : Utf8.Clean .idle bytes := by
    simp only [decode] at h
    by_cases hno : none ∈ (run Utf8.step TextDecoder.new.utf8 bytes).2
    · rw [if_pos hno] at h
      cases h
    · rw [if_neg hno] at h
      cases h
      exact ⟨hno, he⟩
  obtain ⟨all, rfl⟩ := hc.exists_text
  rw [decode_encode] at h
  cases h
  exact ⟨all, rfl, rfl⟩

/-- A text is its byte order mark, if it has one, and the rest; so is every beginning. -/
theorem exists_mark (all : List Char) :
    ∃ mark, all = mark ++ dropBom all ∧
      Utf8.encode mark = (if (Utf8.encode all).take 3 = bom then bom else []) ∧
      ∀ first later, dropBom all = first ++ later → dropBom (mark ++ first) = first := by
  cases all with
  | nil =>
    refine ⟨[], rfl, rfl, fun first later hs => ?_⟩
    obtain ⟨rfl, -⟩ := append_eq_nil_iff.mp hs.symm
    rfl
  | cons c all =>
    by_cases hc : c = '\uFEFF'
    · subst hc
      refine ⟨['\uFEFF'], rfl, ?_, fun first later _ => rfl⟩
      rfl
    · have hsm : dropBom (c :: all) = c :: all := if_neg hc
      refine ⟨[], hsm.symm, ?_, fun first later hs => ?_⟩
      · rw [if_neg]
        · rfl
        intro hb
        have hr := Utf8.run_encode (c :: all)
        rw [← take_append_drop 3 (Utf8.encode (c :: all)), hb, run_append,
          show run Utf8.step .idle bom = (.idle, [some 0xFEFF]) from rfl] at hr
        have hf := (cons.inj (congrArg Prod.snd hr)).1
        apply hc
        rw [← Char.ofNat_toNat c, ← Option.some.inj hf]
      · rw [hsm] at hs
        cases first with
        | nil => rfl
        | cons c' first =>
          obtain ⟨rfl, -⟩ := cons.inj hs
          exact if_neg hc

/-- Bytes of the byte order mark a stream begins with. -/
def bomLength (bytes : List UInt8) : ℕ := if bytes.take 3 = bom then 3 else 0

/-- As long as the byte order mark is not complete there is no text. -/
theorem decode_of_bom_later {fed chunk : List UInt8} (hn : bomLength fed = 0)
    (hl : bomLength (fed ++ chunk) ≠ 0) :
    ∃ dec, TextDecoder.new.decode fed = some (dec, []) := by
  have htk : (fed ++ chunk).take 3 = bom := by
    by_contra hne
    exact hl (if_neg hne)
  have ht : fed.take 3 ≠ bom := by
    intro heq
    rw [bomLength, if_pos heq] at hn
    cases hn
  rcases fed with _ | ⟨a, _ | ⟨b, _ | ⟨c, fed⟩⟩⟩
  · exact ⟨_, rfl⟩
  · obtain ⟨rfl, -⟩ := cons.inj htk
    exact ⟨_, rfl⟩
  · obtain ⟨rfl, htl⟩ := cons.inj htk
    obtain ⟨rfl, -⟩ := cons.inj htl
    exact ⟨_, rfl⟩
  · exact absurd htk ht

end ModelProxy.Sse
