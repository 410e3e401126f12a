import ModelProxy.CheckedRequests

/-! # The order of a conversation

A request keeps its instructions and its messages apart, each with the position it had in the
source.  The renderers put every instruction before every message, so the order survives where
no instruction stood behind a message that is rendered; the Anthropic renderer refuses the
others.
-/
namespace ModelProxy.Protocols

open ModelProxy.Js Anthropic List
open ModelProxy.Js.Json (obj str)

/-! ## Positions -/

section

variable {α : Type} {key : α → ℤ} {render : α → List Json}

/-- The entries of several turns, with the position of each turn. -/
def positionedAll (key : α → ℤ) (render : α → List Json) (turns : List α) : List (ℤ × Json) :=
  turns.flatMap fun turn => positioned (key turn) (render turn)

theorem positioned_fst (position : ℤ) (es : List Json) :
    (positioned position es).map Prod.fst = replicate es.length position := by
  rw [positioned, map_map]
  exact map_const'

theorem mem_positionedAll {n : List α} {position : ℤ} :
    position ∈ (positionedAll key render n).map Prod.fst ↔
      ∃ turn ∈ n, render turn ≠ [] ∧ key turn = position := by
  rw [positionedAll, map_flatMap, mem_flatMap]
  constructor
  · rintro ⟨turn, htu, hp⟩
    rw [positioned_fst, mem_replicate] at hp
    refine ⟨turn, htu, ?_, hp.2.symm⟩
    intro hn
    exact hp.1 (by rw [hn]; rfl)
  · rintro ⟨turn, htu, hr, hk⟩
    refine ⟨turn, htu, ?_⟩
    rw [positioned_fst, mem_replicate]
    exact ⟨fun hl => hr (length_eq_zero_iff.mp hl), hk.symm⟩

/-- What is rendered keeps the order of the request. -/
theorem positionedAll_sorted {n : List α} (h : n.Pairwise fun a b => key a ≤ key b) :
    ((positionedAll key render n).map Prod.fst).Pairwise (· ≤ ·) := by
  induction n with
  | nil => exact .nil
  | cons turn n ih =>
    obtain ⟨hf, hr⟩ := pairwise_cons.mp h
    show ((positioned (key turn) (render turn) ++ positionedAll key render n).map
      Prod.fst).Pairwise (· ≤ ·)
    rw [map_append]
    apply pairwise_append.mpr
    refine ⟨?_, ih hr, ?_⟩
    · rw [positioned_fst]
      exact pairwise_replicate.mpr (.inr (le_refl _))
    · intro a ha b hb
      rw [positioned_fst, mem_replicate] at ha
      obtain ⟨later, hl, -, rfl⟩ := mem_positionedAll.mp hb
      rw [ha.2]
      exact hf later hl

end

/-- What a message renders to, where it can be rendered. -/
def renderedOf (render : CanonicalMessage → Adapted (List Json)) (message : CanonicalMessage) :
    List Json :=
  match render message with
  | .ok entries => entries
  | .error _ => []

variable {render : CanonicalMessage → Adapted (List Json)} {msg : CanonicalMessage}
  {request : CanonicalRequest} {reasoning : Option ReasoningRenderControl}

theorem renderedOf_eq {entries : List Json} (h : render msg = .ok entries) :
    renderedOf render msg = entries := by
  rw [renderedOf, h]

/-- Messages that are rendered are rendered one by one. -/
theorem positionedMessages_eq {messages : List CanonicalMessage} {es : List (ℤ × Json)}
    (h : positionedMessages render messages = .ok es) :
    (∀ msg ∈ messages, ∃ out, render msg = .ok out) ∧
      es = positionedAll CanonicalMessage.sourceIndex (renderedOf render) messages := by
  induction messages generalizing es with
  | nil =>
    cases h
    exact ⟨by simp, rfl⟩
  | cons msg messages ih =>
    obtain ⟨out, hn, h⟩ := bind_eq_ok.mp h
    obtain ⟨rest, hr, h⟩ := bind_eq_ok.mp h
    cases h
    obtain ⟨ha, rfl⟩ := ih hr
    refine ⟨?_, ?_⟩
    · intro m hm
      rcases mem_cons.mp hm with rfl | hm
      · exact ⟨out, hn⟩
      · exact ha m hm
    · rw [positionedAll, positionedAll, flatMap_cons, renderedOf_eq hn]

/-- **Instructions before messages are in order where no instruction that is rendered stood
behind a message that is rendered.** -/
theorem sorted_iff (hc : Checked request) (instrEntries : CanonicalInstruction → List Json)
    (messageEntries : CanonicalMessage → List Json) :
    ((positionedAll CanonicalInstruction.sourceIndex instrEntries request.instructions ++
        positionedAll CanonicalMessage.sourceIndex messageEntries request.messages).map
          Prod.fst).Pairwise (· ≤ ·) ↔
      ∀ i ∈ request.instructions, instrEntries i ≠ [] →
        ∀ m ∈ request.messages, messageEntries m ≠ [] → i.sourceIndex ≤ m.sourceIndex := by
  rw [map_append, pairwise_append]
  constructor
  · rintro ⟨-, -, ht⟩ i hi hes m hm hn
    exact ht _ (mem_positionedAll.mpr ⟨i, hi, hes, rfl⟩) _
      (mem_positionedAll.mpr ⟨m, hm, hn, rfl⟩)
  · intro ht
    refine ⟨positionedAll_sorted hc.instructions, positionedAll_sorted hc.messages, ?_⟩
    intro a ha b hb
    obtain ⟨i, hi, hes, rfl⟩ := mem_positionedAll.mp ha
    obtain ⟨m, hm, hn, rfl⟩ := mem_positionedAll.mp hb
    exact ht i hi hes m hm hn

/-! ## Which messages are rendered -/

theorem Chat.messageJson_nil {es : List Json} (h : Chat.messageJson msg = .ok es) :
    es = [] ↔ msg.content = [] := by
  obtain ⟨-, -, h⟩ := bind_eq_ok.mp h
  cases h
  cases hcn : msg.content with
  | nil => simp [turnJson]
  | cons p ps =>
    cases p <;>
      simp [toolResultJson, contentJson, toolCallJson, turnJson, filterMap_cons]

theorem Responses.items_nil {role : MessageRole} {content : List Json} {parts : List Part} :
    items role content parts = [] ↔ content = [] ∧ parts = [] := by
  induction parts generalizing content with
  | nil => cases content <;> simp [items, flushContent]
  | cons part parts ih => cases part <;> simp [items, ih]

/-- Where every instruction renders to something and a message does by its content, the order
is a matter of where the messages with content stood. -/
theorem sorted_iff_content (hc : Checked request)
    {instrEntries : CanonicalInstruction → List Json} (hs : ∀ i, instrEntries i ≠ [])
    (hrn : ∀ msg es, render msg = .ok es →
      (es = [] ↔ msg.content = [])) (ha : ∀ msg ∈ request.messages, ∃ out, render msg = .ok out) :
    ((positionedAll CanonicalInstruction.sourceIndex instrEntries request.instructions ++
        positionedAll CanonicalMessage.sourceIndex (renderedOf render) request.messages).map
          Prod.fst).Pairwise (· ≤ ·) ↔
      ∀ i ∈ request.instructions, ∀ m ∈ request.messages, m.content ≠ [] →
        i.sourceIndex ≤ m.sourceIndex := by
  have hn : ∀ m ∈ request.messages, renderedOf render m ≠ [] ↔ m.content ≠ [] := by
    intro m hm
    obtain ⟨out, hr⟩ := ha m hm
    rw [renderedOf_eq hr, Ne, hrn m out hr]
  rw [sorted_iff hc]
  constructor
  · intro h i hi m hm hcn
    exact h i hi (hs i) m hm ((hn m hm).mpr hcn)
  · intro h i hi _ m hm hr
    exact h i hi m hm ((hn m hm).mp hr)

/-! ## The conversation of a rendered body -/

/-- The entries of an array. -/
def entriesOf : Option Json → List Json
  | some (.array entries) => entries
  | _ => []

/-- The instructions and messages of a rendered body, as the target reads them: Anthropic's
`system` stands before its `messages`. -/
def conversation (target : ProtocolSurface) (fields : List (String × Json)) : List Json :=
  match target with
  | .openaiChat => entriesOf (fields.lookup "messages")
  | .openaiResponses => entriesOf (fields.lookup "input")
  | .anthropicMessages => entriesOf (fields.lookup "system") ++ entriesOf (fields.lookup "messages")

/-- The entries of the conversation with the positions their turns had in the source. -/
def renderedTurns (target : ProtocolSurface) (request : CanonicalRequest) :
    Adapted (List (ℤ × Json)) :=
  match target with
  | .openaiChat => Chat.entries request
  | .openaiResponses => Responses.entries request
  | .anthropicMessages => do
      let messages ← positionedMessages Anthropic.messageJson request.messages
      return Anthropic.systemEntries request ++ messages

theorem lookup_optionalField (key key' : String) (value : Option Json) :
    (optionalField key value).lookup key' = if key' = key then value else none := by
  cases value with
  | none => simp [optionalField]
  | some v => simp [optionalField, lookup_field]

/-- Reasoning controls are written under their own keys. -/
theorem lookup_reasoning {surface : ProtocolSurface} {fields : List (String × Json)}
    (h : reasoningWireFieldsForRequest request surface reasoning = .ok fields) {key : String}
    (hk : key ∉ reasoningWireFields) : fields.lookup key = none := by
  have hp : ∀ encoded, (pickReasoningWireFields encoded).lookup key = none := by
    intro encoded
    rw [lookup_eq_none_iff]
    intro f hf
    obtain ⟨name, hnm, hso⟩ := mem_filterMap.mp hf
    obtain ⟨v, -, rfl⟩ := Option.map_eq_some_iff.mp hso
    rw [bne_iff_ne]
    rintro rfl
    exact hk hnm
  unfold reasoningWireFieldsForRequest at h
  split at h
  · cases h
    rfl
  split at h
  · obtain ⟨selection, -, h⟩ := bind_eq_ok.mp h
    split at h
    · cases h
      exact hp _
    · cases h
  · split at h
    · cases h
      rfl
    · cases h

section Rendered

variable {request : CanonicalRequest} {model : JsString} {fields : List (String × Json)}

theorem conversation_chat {opts : ChatRenderOptions}
    (h : renderOpenAiChatRequest request model opts = .ok fields) :
    ∃ entries, Chat.entries request = .ok entries ∧
      conversation .openaiChat fields = entries.map Prod.snd := by
  simp only [renderOpenAiChatRequest, bind_eq_ok] at h
  obtain ⟨-, -, reasoningFields, -, entries, hes, h⟩ := h
  cases h
  exact ⟨entries, hes, rfl⟩

theorem conversation_responses
    (h : renderOpenAiResponsesRequest request model reasoning = .ok fields) :
    ∃ entries, Responses.entries request = .ok entries ∧
      conversation .openaiResponses fields = entries.map Prod.snd := by
  simp only [renderOpenAiResponsesRequest, bind_eq_ok] at h
  obtain ⟨-, -, reasoningFields, -, -, -, entries, hes, h⟩ := h
  cases h
  exact ⟨entries, hes, rfl⟩

theorem conversation_anthropic {opts : AnthropicRenderOptions}
    (h : renderAnthropicMessagesRequest request model opts = .ok fields) :
    instructionBehind request = false ∧
      ∃ messages, positionedMessages messageJson request.messages = .ok messages ∧
        conversation .anthropicMessages fields =
          (systemEntries request ++ messages).map Prod.snd := by
  simp only [renderAnthropicMessagesRequest, bind_eq_ok] at h
  obtain ⟨u, hb, -, -, reasoningFields, hr, messages, hm, h⟩ := h
  cases h
  refine ⟨refuseIf_eq_ok.mp hb, messages, hm, ?_⟩
  have hs : reasoningFields.lookup "system" = none := lookup_reasoning hr (by decide)
  show entriesOf _ ++ messages.map Prod.snd = _
  rw [map_append]
  congr 1
  -- no other field of the body is named `system`
  cases he : (systemEntries request).isEmpty with
  | true =>
    rw [isEmpty_iff.mp he]
    simp [lookup_append, lookup_field, lookup_ite, lookup_optionalField, hs, entriesOf]
  | false => simp [lookup_field, entriesOf]

end Rendered

/-! ## Anthropic's instructions stand first -/

namespace Anthropic

/-- The least index met so far is at most every index met so far. -/
theorem fold_first {msgs : List CanonicalMessage} {first : Option ℤ} {index : ℤ}
    (h : (∃ f, first = some f ∧ f ≤ index) ∨
      ∃ m ∈ msgs, 0 ≤ m.sourceIndex ∧ m.sourceIndex ≤ index) :
    ∃ f, msgs.foldl (fun first msg =>
      if 0 ≤ msg.sourceIndex then some (lesser first msg.sourceIndex) else first) first =
        some f ∧ f ≤ index := by
  induction msgs generalizing first with
  | nil =>
    rcases h with h | ⟨m, hm, -⟩
    · exact h
    · cases hm
  | cons msg msgs ih =>
    rw [foldl_cons]
    apply ih
    rcases h with ⟨f, rfl, hf⟩ | ⟨m, hm, hp, hi⟩
    · left
      split
      · exact ⟨_, rfl, le_trans (min_le_left _ _) hf⟩
      · exact ⟨f, rfl, hf⟩
    · rcases mem_cons.mp hm with rfl | hm
      · left
        rw [if_pos hp]
        refine ⟨_, rfl, le_trans ?_ hi⟩
        cases first with
        | none => exact le_refl _
        | some f => exact min_le_right _ _
      · exact .inr ⟨m, hm, hp, hi⟩

/-- No instruction stands behind a message. -/
theorem instruction_before (hc : Checked request) (hb : instructionBehind request = false)
    {i : CanonicalInstruction} (hi : i ∈ request.instructions) {m : CanonicalMessage}
    (hm : m ∈ request.messages) : i.sourceIndex ≤ m.sourceIndex := by
  have hp := hc.positions m hm
  by_cases hg : i.sourceIndex < 0
  · omega
  have ht : ∃ f, firstMessageIndex request.messages = some f ∧ f ≤ m.sourceIndex :=
    fold_first (.inr ⟨m, hm, hp, le_refl m.sourceIndex⟩)
  obtain ⟨f, hs, hf⟩ := ht
  have hn := any_eq_false.mp hb i hi
  rw [hs] at hn
  simp only [Option.any_some, Bool.and_eq_true, decide_eq_true_eq] at hn
  omega

end Anthropic

/-- **The order of a conversation is kept exactly where the target is Anthropic's, or no
instruction stood behind a message with content.**  The rendered conversation is given entry by
entry with the position of the turn the entry belongs to. -/
theorem conversation_order_iff {source target : ProtocolSurface} {body : Json}
    {request : CanonicalRequest} {model : JsString} {options : RenderOptions}
    {fields : List (String × Json)} (hparse : parseCanonicalRequest source body = .ok request)
    (hrender : renderCanonicalRequest request target model options = .ok fields) :
    ∃ entries, renderedTurns target request = .ok entries ∧
      conversation target fields = entries.map Prod.snd ∧
      ((entries.map Prod.fst).Pairwise (· ≤ ·) ↔
        target = .anthropicMessages ∨
          ∀ i ∈ request.instructions, ∀ m ∈ request.messages, m.content ≠ [] →
            i.sourceIndex ≤ m.sourceIndex) := by
  have hh := checked_of_parse hparse
  cases target with
  | openaiChat =>
    obtain ⟨entries, he, hc⟩ := conversation_chat hrender
    refine ⟨entries, he, hc, ?_⟩
    obtain ⟨messages, hs, he⟩ := bind_eq_ok.mp he
    cases he
    obtain ⟨ha, rfl⟩ := positionedMessages_eq hs
    simp only [reduceCtorEq, false_or]
    exact sorted_iff_content hh (fun _ => cons_ne_nil _ _)
      (fun _ _ => Chat.messageJson_nil) ha
  | openaiResponses =>
    obtain ⟨entries, he, hc⟩ := conversation_responses hrender
    refine ⟨entries, he, hc, ?_⟩
    obtain ⟨messages, hs, he⟩ := bind_eq_ok.mp he
    cases he
    obtain ⟨ha, rfl⟩ := positionedMessages_eq hs
    have hie : ∀ msg entries, Responses.messageJson msg = .ok entries →
        (entries = [] ↔ msg.content = []) := by
      intro msg entries h
      cases h
      rw [Responses.items_nil]
      exact and_iff_right rfl
    simp only [reduceCtorEq, false_or]
    exact sorted_iff_content hh (fun _ => cons_ne_nil _ _) hie ha
  | anthropicMessages =>
    obtain ⟨hb, messages, hs, hc⟩ := conversation_anthropic hrender
    refine ⟨systemEntries request ++ messages, ?_, hc, ?_⟩
    · show (positionedMessages messageJson request.messages >>= _) = _
      rw [hs]
      rfl
    · obtain ⟨-, rfl⟩ := positionedMessages_eq hs
      refine Iff.trans (sorted_iff hh _ _) ?_
      simp only [true_or, iff_true]
      intro i hi _ m hm _
      exact instruction_before hh hb hi hm

/-- A Chat request of two turns. -/
def twoTurns (first second : String) : Json :=
  obj [("model", str "m"),
    ("messages", .array [obj [("role", str first), ("content", str "a")],
      obj [("role", str second), ("content", str "b")]])]

/-- The options that change nothing. -/
def plainRender : RenderOptions := ⟨false, false, true, none⟩

/-- A system instruction before the user's message stays there. -/
theorem conversation_order_instruction_first :
    ∃ request fields, parseCanonicalRequest .openaiChat (twoTurns "system" "user") = .ok request ∧
      renderCanonicalRequest request .openaiResponses (js "m") plainRender = .ok fields ∧
      ∃ entries, renderedTurns .openaiResponses request = .ok entries ∧
        conversation .openaiResponses fields = entries.map Prod.snd ∧
        (entries.map Prod.fst).Pairwise (· ≤ ·) := by
  have hp : ∃ request, parseCanonicalRequest .openaiChat (twoTurns "system" "user") =
      .ok request ∧ ∀ i ∈ request.instructions, ∀ m ∈ request.messages, m.content ≠ [] →
        i.sourceIndex ≤ m.sourceIndex := ⟨_, rfl, by decide⟩
  obtain ⟨request, hr, ho⟩ := hp
  have hn : ∃ fields, renderCanonicalRequest request .openaiResponses (js "m") plainRender =
      .ok fields := by
    cases hr
    exact ⟨_, rfl⟩
  obtain ⟨fields, hf⟩ := hn
  obtain ⟨entries, he, hc, hs⟩ := conversation_order_iff hr hf
  exact ⟨request, fields, hr, hf, entries, he, hc, hs.mpr (.inr ho)⟩

/-- A system instruction that follows the user's message is moved before it. -/
theorem instruction_moved_first :
    ∃ request fields entries,
      parseCanonicalRequest .openaiChat (twoTurns "user" "system") = .ok request ∧
        renderCanonicalRequest request .openaiResponses (js "m") plainRender = .ok fields ∧
        renderedTurns .openaiResponses request = .ok entries ∧
        conversation .openaiResponses fields = entries.map Prod.snd ∧
        entries.map Prod.fst = [1, 0] ∧ ¬(entries.map Prod.fst).Pairwise (· ≤ ·) :=
  ⟨_, _, _, rfl, rfl, rfl, rfl, rfl, by decide⟩

end ModelProxy.Protocols
