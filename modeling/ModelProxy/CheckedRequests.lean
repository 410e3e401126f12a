import ModelProxy.AnthropicRequests

/-! # What the parsers have checked

A request that came out of one of the three parsers keeps the order of its source, gives each
role only the parts it may have, and has passed the checks on tool calls and tool choice.
-/
namespace ModelProxy.Protocols

open ModelProxy.Js List Turn

/-! ## Entries of an array -/

section

variable {α β ε : Type} {f : ℕ → α → Except ε β} {i : ℕ} {x : α} {xs : List α}

theorem mapEntries_cons_eq_ok {zs : List β} :
    mapEntries f i (x :: xs) = .ok zs ↔
      ∃ y ys, f i x = .ok y ∧ mapEntries f (i + 1) xs = .ok ys ∧ zs = y :: ys := by
  rw [mapEntries]
  constructor
  · intro h
    obtain ⟨y, hy, h⟩ := bind_eq_ok.mp h
    obtain ⟨ys, hys, h⟩ := bind_eq_ok.mp h
    exact ⟨y, ys, hy, hys, (Except.ok.inj h).symm⟩
  · rintro ⟨y, ys, hy, hys, rfl⟩
    rw [hy]
    show (mapEntries f (i + 1) xs >>= _) = _
    rw [hys]
    rfl

theorem mapEntries_append {ys : List α} {zs zs' : List β} (h : mapEntries f i xs = .ok zs)
    (h' : mapEntries f (i + xs.length) ys = .ok zs') :
    mapEntries f i (xs ++ ys) = .ok (zs ++ zs') := by
  induction xs generalizing i zs with
  | nil =>
    cases h
    exact h'
  | cons x xs ih =>
    obtain ⟨y, rest, hy, hr, rfl⟩ := mapEntries_cons_eq_ok.mp h
    rw [length_cons, ← add_assoc, add_right_comm] at h'
    exact mapEntries_cons_eq_ok.mpr ⟨y, rest ++ zs', hy, ih hr h', rfl⟩

/-- Entries written from values are read back one by one. -/
theorem mapEntries_map {γ : Type} {write : γ → α} {read : γ → β} {vs : List γ}
    (h : ∀ i, ∀ val ∈ vs, f i (write val) = .ok (read val)) (i : ℕ) :
    mapEntries f i (vs.map write) = .ok (vs.map read) := by
  induction vs generalizing i with
  | nil => rfl
  | cons val vs ih =>
    apply mapEntries_cons_eq_ok.mpr
    refine ⟨read val, vs.map read, h i val mem_cons_self, ?_, rfl⟩
    exact ih (fun j v hv => h j v (mem_cons_of_mem _ hv)) (i + 1)

/-- Every result comes from an entry. -/
theorem mapEntries_mem {ys : List β} (h : mapEntries f i xs = .ok ys) :
    ∀ y ∈ ys, ∃ i x, f i x = .ok y := by
  induction xs generalizing i ys with
  | nil =>
    cases h
    simp
  | cons x xs ih =>
    obtain ⟨y, ys, hy, hys, rfl⟩ := mapEntries_cons_eq_ok.mp h
    intro z hz
    rcases mem_cons.mp hz with rfl | hz
    · exact ⟨i, x, hy⟩
    · exact ih hys z hz

/-- Entries that keep their index stand in its order. -/
theorem mapEntries_positions {key : β → ℤ} (hk : ∀ i x y, f i x = .ok y → key y = i) :
    ∀ {i : ℕ} {xs : List α} {ys : List β}, mapEntries f i xs = .ok ys →
      (∀ y ∈ ys, (i : ℤ) ≤ key y) ∧ ys.Pairwise fun a b => key a ≤ key b := by
  intro i xs
  induction xs generalizing i with
  | nil =>
    intro ys h
    cases h
    exact ⟨by simp, .nil⟩
  | cons x xs ih =>
    intro zs h
    obtain ⟨y, ys, hy, hys, rfl⟩ := mapEntries_cons_eq_ok.mp h
    obtain ⟨hw, hsorted⟩ := ih hys
    have hf := hk i x y hy
    have hl : ∀ b ∈ ys, key y ≤ key b := by
      intro b hb
      have := hw b hb
      omega
    refine ⟨?_, pairwise_cons.mpr ⟨hl, hsorted⟩⟩
    intro b hb
    rcases mem_cons.mp hb with rfl | hb
    · omega
    · exact hf ▸ hl b hb

end

/-! ## Turns -/

variable {t : Turn} {ts : List Turn} {msg : CanonicalMessage} {val : Option Json} {param : JsString}
  {role : MessageRole} {p : Part} {ps : List Part} {i : ℕ} {e : Json}

namespace Turn

theorem sourceIndex_of_instruction {i : CanonicalInstruction} (h : t.instruction? = some i) :
    i.sourceIndex = t.sourceIndex := by
  cases t with
  | instruction j =>
    cases h
    rfl
  | message m => cases h

theorem sourceIndex_of_message {m : CanonicalMessage} (h : t.message? = some m) :
    m.sourceIndex = t.sourceIndex := by
  cases t with
  | instruction j => cases h
  | message n =>
    cases h
    rfl

section Turns

variable {ts : List Turn} (hsorted : ts.Pairwise fun a b => a.sourceIndex ≤ b.sourceIndex)
include hsorted

theorem instructions_sorted : (ts.filterMap instruction?).Pairwise
    fun a b => a.sourceIndex ≤ b.sourceIndex := by
  apply hsorted.filterMap
  intro a b hab i hi j hj
  rw [sourceIndex_of_instruction hi, sourceIndex_of_instruction hj]
  exact hab

theorem messages_sorted : (ts.filterMap message?).Pairwise
    fun a b => a.sourceIndex ≤ b.sourceIndex := by
  apply hsorted.filterMap
  intro a b hab m hm n hn
  rw [sourceIndex_of_message hm, sourceIndex_of_message hn]
  exact hab

end Turns

theorem messages_positions {low : ℤ} (hl : ∀ t ∈ ts, low ≤ t.sourceIndex) :
    ∀ m ∈ ts.filterMap message?, low ≤ m.sourceIndex := by
  intro m hm
  obtain ⟨t, ht, hmt⟩ := mem_filterMap.mp hm
  rw [sourceIndex_of_message hmt]
  exact hl t ht

end Turn

/-- Which parts a role may have. -/
def Part.fits (role : MessageRole) : Part → Bool
  | .text _ => true
  | .image _ => decide (role = .user)
  | .toolCall .. => decide (role = .assistant)
  | .toolResult .. => decide (role = .user)

/-- A message of fitting parts. -/
def CanonicalMessage.Fits (message : CanonicalMessage) : Prop :=
  ∀ part ∈ message.content, part.fits message.role = true

/-- A turn of a message of fitting parts. -/
def Turn.Fits (t : Turn) : Prop := ∀ message, t.message? = some message → message.Fits

theorem Turn.fits_messages (h : ∀ t ∈ ts, t.Fits) :
    ∀ message ∈ ts.filterMap message?, message.Fits := by
  intro message hm
  obtain ⟨t, ht, hso⟩ := mem_filterMap.mp hm
  exact h t ht message hso

theorem Turn.fits_message (h : msg.Fits) : (Turn.message msg).Fits := by
  intro m hm
  cases hm
  exact h

theorem Turn.fits_single {part : Part} (hcn : msg.content = [part])
    (h : part.fits msg.role = true) :
    (Turn.message msg).Fits := by
  apply fits_message
  intro p hp
  rw [hcn] at hp
  rw [mem_singleton.mp hp]
  exact h

theorem Turn.fits_instruction (i : CanonicalInstruction) : (instruction i).Fits := by
  intro m hm
  cases hm

/-- **What every parser has checked of a request it returns.** -/
structure Checked (request : CanonicalRequest) : Prop where
  /-- Instructions stand in the order of their source. -/
  instructions : request.instructions.Pairwise fun a b => a.sourceIndex ≤ b.sourceIndex
  /-- And so do messages. -/
  messages : request.messages.Pairwise fun a b => a.sourceIndex ≤ b.sourceIndex
  positions : ∀ message ∈ request.messages, 0 ≤ message.sourceIndex
  fits : ∀ message ∈ request.messages, message.Fits
  toolIds : ∃ errors, validateMessageToolIds errors request.messages = .ok ()
  toolChoice : validateToolChoice request.toolChoice request.tools = .ok ()
  toolNames : ∃ parameter, uniqueNames parameter 0 [] request.tools = .ok ()

theorem uniqueNames_of_parseTools {shape : ToolShape} {ts : List CanonicalTool}
    (h : parseTools val param shape = .ok ts) : uniqueNames param 0 [] ts = .ok () := by
  unfold parseTools at h
  split at h
  · cases h
    rfl
  · obtain ⟨parsed, -, h⟩ := bind_eq_ok.mp h
    obtain ⟨u, hu, h⟩ := bind_eq_ok.mp h
    cases h
    exact hu
  · cases h

/-- A text or an image. -/
def Part.isContent : Part → Bool
  | .text _ | .image _ => true
  | _ => false

/-- Content fits a user, and an assistant where it holds no image. -/
theorem Part.fits_of_content (h : p.isContent = true) (hi : role = .assistant → p.isImage = false) :
    p.fits role = true := by
  cases p with
  | text text => rfl
  | image src =>
    cases role with
    | user => rfl
    | assistant => cases hi rfl
  | toolCall id name args => cases h
  | toolResult id txt isError => cases h

/-- The check of the OpenAI parsers that no image comes from an assistant. -/
theorem fits_content (hcn : ∀ p ∈ ps, p.isContent = true)
    (hi : (decide (role = .assistant) && ps.any Part.isImage) = false) :
    ∀ p ∈ ps, p.fits role = true := by
  intro p hpt
  apply Part.fits_of_content (hcn p hpt)
  intro hro
  simp only [hro, decide_true, Bool.true_and, any_eq_false] at hi
  exact Bool.eq_false_iff.mpr (hi p hpt)

/-! ## Chat -/

namespace Chat

variable {path : JsString} {val : Option Json} {ps : List Part}

theorem contentBlock_content (h : contentBlock path e = .ok p) : p.isContent = true := by
  obtain ⟨block, -, h⟩ := bind_eq_ok.mp h
  split at h
  · obtain ⟨-, -, h⟩ := bind_eq_ok.mp h
    obtain ⟨text, -, h⟩ := bind_eq_ok.mp h
    cases h
    rfl
  · split at h
    · simp only [bind_eq_ok] at h
      obtain ⟨-, -, image, -, -, -, source, -, h⟩ := h
      cases h
      rfl
    · cases h

theorem content_content (h : content val param = .ok ps) : ∀ p ∈ ps, p.isContent = true := by
  unfold content at h
  split at h
  · cases h
    intro p hpt
    rw [mem_singleton.mp hpt]
    rfl
  · intro p hpt
    obtain ⟨i, entry, he⟩ := mapEntries_mem h p hpt
    exact contentBlock_content he
  · cases h

theorem optionalContent_content (h : optionalContent val param = .ok ps) :
    ∀ p ∈ ps, p.isContent = true := by
  unfold optionalContent at h
  split at h
  · cases h
    simp
  · exact content_content h

theorem toolCall_fits {rawCall : Json} (h : toolCall path rawCall = .ok p) :
    p.fits .assistant = true := by
  simp only [toolCall, bind_eq_ok] at h
  obtain ⟨call, -, -, -, -, -, fn, -, -, -, id, -, name, -, arguments, -, h⟩ := h
  cases h
  rfl

theorem toolCalls_fits (h : toolCalls role path val = .ok ps) : ∀ p ∈ ps, p.fits role = true := by
  unfold toolCalls at h
  split at h
  · cases h
    simp
  · split at h
    next hro =>
      intro p hpt
      obtain ⟨i, call, hcl⟩ := mapEntries_mem h p hpt
      rw [hro]
      exact toolCall_fits hcl
    next => cases h
  · cases h

/-- An entry keeps its position, and its parts fit its role. -/
theorem byRole_checked {msg : Members} (h : byRole path i msg = .ok t) :
    t.sourceIndex = i ∧ t.Fits := by
  unfold byRole at h
  split at h
  · obtain ⟨-, -, h⟩ := bind_eq_ok.mp h
    obtain ⟨content, -, h⟩ := bind_eq_ok.mp h
    cases h
    exact ⟨rfl, Turn.fits_instruction _⟩
  · split at h
    · simp only [toolResult, bind_eq_ok] at h
      obtain ⟨-, -, id, -, content, -, h⟩ := h
      cases h
      exact ⟨rfl, Turn.fits_single rfl rfl⟩
    · split at h
      · simp only [turn, bind_eq_ok] at h
        obtain ⟨ps, hp, u, hi, -, -, calls, hcl, h⟩ := h
        cases h
        refine ⟨rfl, Turn.fits_message ?_⟩
        intro p hpt
        rcases mem_append.mp hpt with hpt | hpt
        · exact fits_content (optionalContent_content hp) (refuseIf_eq_ok.mp hi) p hpt
        · exact toolCalls_fits hcl p hpt
      · cases h

theorem parseEntry_checked (h : parseEntry i e = .ok t) : t.sourceIndex = i ∧ t.Fits := by
  simp only [parseEntry, bind_eq_ok] at h
  obtain ⟨msg, -, -, -, -, -, h⟩ := h
  exact byRole_checked h

end Chat

/-- Turns in the order of their source, of fitting parts. -/
structure TurnsChecked (turns : List Turn) : Prop where
  positions : ∀ t ∈ turns, 0 ≤ t.sourceIndex
  sorted : turns.Pairwise fun a b => a.sourceIndex ≤ b.sourceIndex
  fits : ∀ t ∈ turns, t.Fits

theorem TurnsChecked.of_mapEntries {parseEntry : ℕ → Json → Adapted Turn}
    (he : ∀ i entry t, parseEntry i entry = .ok t → t.sourceIndex = i ∧ t.Fits) {es : List Json}
    (h : mapEntries parseEntry 0 es = .ok ts) : TurnsChecked ts := by
  obtain ⟨hl, hsorted⟩ := mapEntries_positions (fun i x y hy => (he i x y hy).1) h
  refine ⟨fun t ht => by simpa using hl t ht, hsorted, ?_⟩
  intro t ht
  obtain ⟨i, entry, hp⟩ := mapEntries_mem h t ht
  exact (he i entry t hp).2

theorem Chat.parseEntries_checked (h : Chat.parseEntries val = .ok ts) : TurnsChecked ts := by
  unfold Chat.parseEntries at h
  split at h
  · exact TurnsChecked.of_mapEntries (fun _ _ _ => Chat.parseEntry_checked) h
  · cases h

variable {body : Json} {req : CanonicalRequest}

/-- A parsed chat request is checked. -/
theorem checked_chat (h : parseOpenAiChatRequest body = .ok req) : Checked req := by
  simp only [parseOpenAiChatRequest, bind_eq_ok] at h
  obtain ⟨mems, -, -, -, -, -, tools, ht, -, -, -, -, ts, hr, sampled, -, choice, -,
    u, hcho, v, hids, model, -, stream, -, h⟩ := h
  cases h
  have hc := Chat.parseEntries_checked hr
  exact {
    instructions := instructions_sorted hc.sorted
    messages := messages_sorted hc.sorted
    positions := messages_positions hc.positions
    fits := fits_messages hc.fits
    toolIds := ⟨_, hids⟩
    toolChoice := hcho
    toolNames := ⟨_, uniqueNames_of_parseTools ht⟩ }

/-! ## Responses -/

namespace Responses

variable {path : JsString} {val : Option Json} {item : Members} {t : Turn}

theorem contentBlock_content (h : contentBlock path e = .ok p) : p.isContent = true := by
  obtain ⟨block, -, h⟩ := bind_eq_ok.mp h
  split at h
  · obtain ⟨-, -, h⟩ := bind_eq_ok.mp h
    obtain ⟨text, -, h⟩ := bind_eq_ok.mp h
    cases h
    rfl
  · split at h
    · obtain ⟨-, -, h⟩ := bind_eq_ok.mp h
      obtain ⟨src, -, h⟩ := bind_eq_ok.mp h
      cases h
      rfl
    · cases h

theorem responseText_content (h : responseText val param = .ok ps) :
    ∀ p ∈ ps, p.isContent = true := by
  unfold responseText at h
  split at h
  · cases h
    intro p hpt
    rw [mem_singleton.mp hpt]
    rfl
  · intro p hpt
    obtain ⟨i, entry, he⟩ := mapEntries_mem h p hpt
    exact contentBlock_content he
  · cases h

theorem messageItem_checked (h : messageItem path i item = .ok t) : t.sourceIndex = i ∧ t.Fits := by
  obtain ⟨-, -, h⟩ := bind_eq_ok.mp h
  obtain ⟨-, -, h⟩ := bind_eq_ok.mp h
  split at h
  · obtain ⟨txt, -, h⟩ := bind_eq_ok.mp h
    cases h
    exact ⟨rfl, Turn.fits_instruction _⟩
  · split at h
    · obtain ⟨txt, hcn, h⟩ := bind_eq_ok.mp h
      obtain ⟨u, hi, h⟩ := bind_eq_ok.mp h
      cases h
      exact ⟨rfl, Turn.fits_message
        (fits_content (responseText_content hcn) (refuseIf_eq_ok.mp hi))⟩
    · cases h

theorem functionCall_checked (h : functionCall path i item = .ok t) :
    t.sourceIndex = i ∧ t.Fits := by
  simp only [functionCall, bind_eq_ok] at h
  obtain ⟨-, -, id, -, name, -, arguments, -, h⟩ := h
  cases h
  exact ⟨rfl, Turn.fits_single rfl rfl⟩

theorem functionCallOutput_checked (h : functionCallOutput path i item = .ok t) :
    t.sourceIndex = i ∧ t.Fits := by
  simp only [functionCallOutput, bind_eq_ok] at h
  obtain ⟨-, -, id, -, content, -, h⟩ := h
  cases h
  exact ⟨rfl, Turn.fits_single rfl rfl⟩

theorem parseEntry_checked (h : parseEntry i e = .ok t) : t.sourceIndex = i ∧ t.Fits := by
  obtain ⟨item, -, h⟩ := bind_eq_ok.mp h
  unfold parseItem at h
  split at h
  · exact messageItem_checked h
  · split at h
    · exact functionCall_checked h
    · split at h
      · exact functionCallOutput_checked h
      · cases h

theorem parseInput_checked (h : parseInput val = .ok ts) : TurnsChecked ts := by
  unfold parseInput at h
  split at h
  next text =>
    cases h
    refine ⟨?_, pairwise_singleton _ _, ?_⟩
    · intro t ht
      rw [mem_singleton.mp ht]
      exact le_refl 0
    · intro t ht
      rw [mem_singleton.mp ht]
      exact Turn.fits_single rfl rfl
  next => exact TurnsChecked.of_mapEntries (fun _ _ _ => parseEntry_checked) h
  next => cases h

/-- The leading instructions stand before every entry. -/
theorem leadingInstructions_sorted {leading : List CanonicalInstruction}
    (h : leadingInstructions val = .ok leading) :
    leading.Pairwise (fun a b => a.sourceIndex ≤ b.sourceIndex) ∧
      ∀ i ∈ leading, i.sourceIndex = -1 := by
  unfold leadingInstructions at h
  split at h
  · cases h
    exact ⟨.nil, by simp⟩
  · obtain ⟨txt, -, h⟩ := bind_eq_ok.mp h
    cases h
    refine ⟨pairwise_singleton _ _, ?_⟩
    intro i hi
    rw [mem_singleton.mp hi]

end Responses

/-- A parsed responses request is checked. -/
theorem checked_responses (h : parseOpenAiResponsesRequest body = .ok req) :
    Checked req := by
  simp only [parseOpenAiResponsesRequest, bind_eq_ok] at h
  obtain ⟨mems, -, -, -, -, -, tools, hto, -, -, leading, hl, ts, hr, choice,
    -, u, hcho, v, hids, model, -, stream, -, sampled, -, h⟩ := h
  cases h
  have hc := Responses.parseInput_checked hr
  obtain ⟨hS, hf⟩ := Responses.leadingInstructions_sorted hl
  have hi : (leading ++ ts.filterMap instruction?).Pairwise
      fun a b => a.sourceIndex ≤ b.sourceIndex := by
    apply pairwise_append.mpr
    refine ⟨hS, instructions_sorted hc.sorted, ?_⟩
    intro a ha b hb
    obtain ⟨t, ht, hit⟩ := mem_filterMap.mp hb
    have hb := sourceIndex_of_instruction hit ▸ hc.positions t ht
    have ha := hf a ha
    omega
  exact {
    instructions := hi
    messages := messages_sorted hc.sorted
    positions := messages_positions hc.positions
    fits := fits_messages hc.fits
    toolIds := ⟨_, hids⟩
    toolChoice := hcho
    toolNames := ⟨_, uniqueNames_of_parseTools hto⟩ }

/-! ## Anthropic -/

namespace Anthropic

theorem turn_checked {path : JsString} {mems : Members} (h : turn path i role mems = .ok msg) :
    msg.sourceIndex = i ∧ msg.Fits := by
  simp only [turn, bind_eq_ok] at h
  obtain ⟨txt, -, u, hc, v, hr, h⟩ := h
  cases h
  refine ⟨rfl, ?_⟩
  rw [refuseIf_eq_ok] at hc hr
  intro p hpt
  cases role with
  | user =>
    simp only [decide_true, Bool.true_and, any_eq_false] at hc
    have hcl := hc p hpt
    cases p <;> first | rfl | exact absurd rfl hcl
  | assistant =>
    simp only [decide_true, Bool.true_and, any_eq_false] at hr
    have hs := hr p hpt
    cases p <;> first | rfl | exact absurd rfl hs

theorem parseEntry_checked (h : parseEntry i e = .ok msg) : msg.sourceIndex = i ∧ msg.Fits := by
  obtain ⟨mems, -, h⟩ := bind_eq_ok.mp h
  obtain ⟨-, -, h⟩ := bind_eq_ok.mp h
  split at h
  · exact turn_checked h
  · cases h

theorem parseMessages_eq_ok {maxTokens : Option Json} {messages : List CanonicalMessage}
    (h : parseMessages val maxTokens = .ok messages) :
    ∃ es, mapEntries parseEntry 0 es = .ok messages := by
  unfold parseMessages at h
  split at h
  · obtain ⟨-, -, h⟩ := bind_eq_ok.mp h
    exact ⟨_, h⟩
  · cases h

theorem systemInstructions_sorted {system : List CanonicalInstruction}
    (h : systemInstructions val = .ok system) :
    system.Pairwise fun a b => a.sourceIndex ≤ b.sourceIndex := by
  unfold systemInstructions at h
  split at h
  · cases h
    exact .nil
  · obtain ⟨txt, -, h⟩ := bind_eq_ok.mp h
    cases h
    exact pairwise_singleton _ _

end Anthropic

/-- A parsed messages request is checked. -/
theorem checked_anthropic (h : parseAnthropicMessagesRequest body = .ok req) :
    Checked req := by
  simp only [parseAnthropicMessagesRequest, bind_eq_ok] at h
  obtain ⟨mems, -, -, -, messages, hs, tools, ht, -, -, choice, -, u, hc, v,
    hids, topK, -, thinking, -, model, -, system, hsys, stream, -, sampled, -, h⟩ := h
  cases h
  obtain ⟨es, hes⟩ := Anthropic.parseMessages_eq_ok hs
  obtain ⟨hl, hsorted⟩ :=
    mapEntries_positions (fun _ _ _ hp => (Anthropic.parseEntry_checked hp).1) hes
  have hft : ∀ msg ∈ messages, msg.Fits := by
    intro msg hm
    obtain ⟨i, entry, hp⟩ := mapEntries_mem hes msg hm
    exact (Anthropic.parseEntry_checked hp).2
  exact {
    instructions := Anthropic.systemInstructions_sorted hsys
    messages := hsorted
    positions := fun msg hm => by simpa using hl msg hm
    fits := hft
    toolIds := ⟨_, hids⟩
    toolChoice := hc
    toolNames := ⟨_, uniqueNames_of_parseTools ht⟩ }

/-- **Whatever surface a request came from, it has been checked.** -/
theorem checked_of_parse {surface : ProtocolSurface}
    (h : parseCanonicalRequest surface body = .ok req) : Checked req := by
  cases surface with
  | openaiChat => exact checked_chat h
  | openaiResponses => exact checked_responses h
  | anthropicMessages => exact checked_anthropic h

end ModelProxy.Protocols
