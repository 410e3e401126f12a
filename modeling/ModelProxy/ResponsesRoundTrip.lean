import ModelProxy.RequestOrder
import ModelProxy.ResponsesItems

/-! # Responses requests round-trip

What the Responses renderer writes, the Responses parser accepts and reads back, except for a
named tool choice, which the parser refuses, and for three things the rendered body has no place
for: the error flag of a tool result, a tool's empty description, an empty model name.
-/
namespace ModelProxy.Protocols

open ModelProxy.Js CanonicalMessage CanonicalTool Responses
open ModelProxy.Js.Json (isStr obj str)

/-! ## Checks that do not depend on where they stand -/

theorem uniqueNames_anywhere {param param' : JsString} {i i' : ℕ} {names : List NonEmpty}
    {ts ts' : List CanonicalTool}
    (hn : ts'.map name = ts.map name)
    (h : uniqueNames param i names ts = .ok ()) :
    uniqueNames param' i' names ts' = .ok () := by
  induction ts generalizing i i' names ts' with
  | nil =>
    rw [List.map_eq_nil_iff.mp hn]
    rfl
  | cons tool ts ih =>
    obtain ⟨tool', rest', rfl, hnm, hr⟩ := List.map_eq_cons_iff.mp hn
    obtain ⟨u, hfr, h⟩ := bind_eq_ok.mp h
    rw [refuseIf_eq_ok] at hfr
    rw [uniqueNames, hnm, refuseIf_ok hfr, ok_bind]
    exact ih hr h

theorem validateToolIds_anywhere {errors errors' : ToolIdErrors} {calls results : List NonEmpty}
    {ps : List Part} (h : validateToolIds errors calls results ps = .ok ()) :
    validateToolIds errors' calls results (ps.map unflagged) = .ok () := by
  induction ps generalizing calls results with
  | nil => rfl
  | cons p ps ih =>
    rw [List.map_cons]
    cases p with
    | text text => exact ih h
    | image src => exact ih h
    | toolCall id name args =>
      obtain ⟨u, hfr, h⟩ := bind_eq_ok.mp h
      rw [refuseIf_eq_ok] at hfr
      show (refuseIf (calls.contains id) errors'.call >>= _) = _
      rw [refuseIf_ok hfr, ok_bind]
      exact ih h
    | toolResult id txt isError =>
      obtain ⟨u, hfr, h⟩ := bind_eq_ok.mp h
      obtain ⟨v, hk, h⟩ := bind_eq_ok.mp h
      rw [refuseIf_eq_ok] at hfr hk
      rw [unflagged, validateToolIds, refuseIf_ok hfr, ok_bind, refuseIf_ok hk, ok_bind]
      exact ih h

/-! ## Tools -/

/-- A tool without an empty description. -/
def CanonicalTool.described (tool : CanonicalTool) : CanonicalTool :=
  { tool with description := tool.description.filter fun description => !description.isEmpty }

theorem descriptionFields_eq (tool : CanonicalTool) :
    descriptionFields tool =
      optionalField "description" (tool.described.description.map Json.string) := by
  unfold descriptionFields described
  rcases tool.description with _ | (_ | ⟨u, description⟩) <;> rfl

theorem optionalField_keys {key : String} {v : Option Json} :
    ∀ f ∈ optionalField key v, f.1 = key := by
  cases v <;> simp [optionalField]

/-- A tool reads back. -/
theorem parseTool_toolJson (tool : CanonicalTool) (path : JsString) :
    parseTool .openaiResponses path (toolJson tool) = .ok tool.described := by
  rw [toolJson, descriptionFields_eq]
  generalize hbo : [("type", str "function"), ("name", Json.string tool.name.1)] ++
    optionalField "description" (tool.described.description.map Json.string) ++
      [("parameters", .object tool.inputSchema)] = fields
  have hg : ∀ key, get (fields.map fun f => (js f.1, f.2)) key =
      if key = "type" then some (str "function")
      else if key = "name" then some (.string tool.name.1)
      else if key = "description" then tool.described.description.map Json.string
      else if key = "parameters" then some (.object tool.inputSchema) else none := by
    intro key
    rw [get_map, ← hbo]
    simp only [List.lookup_append, lookup_field, lookup_optionalField, List.lookup_nil]
    split_ifs <;> simp_all
  have hky : ∀ f ∈ fields, f.1 ∈ ["type", "name", "description", "parameters"] := by
    intro f hf
    rw [← hbo] at hf
    rcases List.mem_append.mp hf with hf | hf
    · rcases List.mem_append.mp hf with hf | hf
      · simp only [List.mem_cons, List.not_mem_nil, or_false] at hf
        rcases hf with rfl | rfl <;> simp
      · simp [optionalField_keys f hf]
    · rw [List.mem_singleton.mp hf]
      simp
  have hs : ∀ f ∈ fields,
      f.1 ∈ ["type", "name", "description", "parameters", "strict"] := by
    intro f hf
    exact List.mem_append_left ["strict"] (hky f hf)
  have hn : ∀ f ∈ fields, f.1 ∈ toolKeys .openaiResponses := by
    intro f hf
    have hk := hky f hf
    simp only [List.mem_cons, List.not_mem_nil, or_false] at hk
    rcases hk with hk | hk | hk | hk <;> rw [hk] <;> decide
  have htx : notText (tool.described.description.map Json.string) = false ∧
      asText (tool.described.description.map Json.string) = tool.described.description := by
    cases tool.described.description <;> exact ⟨rfl, rfl⟩
  have hl : toolFields .openaiResponses path (fields.map fun f => (js f.1, f.2)) =
      .ok (fields.map fun f => (js f.1, f.2)) := by
    rw [toolFields, rejectUnknown_map hs, ok_bind, functionType, hg "type"]
    rfl
  rw [parseTool, object_obj, ok_bind, hl, ok_bind, rejectUnknown_map hn, ok_bind,
    hg "strict", hg "description", hg "parameters", hg "input_schema", hg "name"]
  simp only [reduceIte, String.reduceEq]
  show (refuseIf (notText _) _ >>= _) = _
  rw [refuseIf_ok htx.1, ok_bind]
  show (string (some (.string tool.name.1)) _ >>= _) = _
  rw [string_ok tool.name.2, ok_bind, htx.2]
  rfl

/-- Tools are read back without empty descriptions. -/
theorem parseTools_rendered {ts : List CanonicalTool} {param : JsString}
    (h : uniqueNames param 0 [] ts = .ok ()) :
    parseTools (if ts.isEmpty then none else some (.array (ts.map toolJson)))
      "tools" .openaiResponses = .ok (ts.map described) := by
  cases ht : ts with
  | nil => rfl
  | cons tool rest =>
    rw [← ht, if_neg (by rw [ht]; exact Bool.false_ne_true), parseTools]
    have hrd : mapEntries (fun i => parseTool .openaiResponses (entryPath "tools" i)) 0
        (ts.map toolJson) = .ok (ts.map described) := by
      apply mapEntries_map
      intro i tool _
      exact parseTool_toolJson tool _
    have hn : (ts.map described).map name =
        ts.map name := by
      rw [List.map_map]
      rfl
    rw [hrd, ok_bind, uniqueNames_anywhere hn h]
    rfl

/-! ## The rendered body -/

namespace Responses

/-- The body of a request without reasoning controls. -/
def body (request : CanonicalRequest) (model : JsString) (input : List (ℤ × Json)) :
    List (String × Json) :=
  [("model", .string model), ("input", .array (input.map Prod.snd))] ++
    (if request.tools.isEmpty then [] else [("tools", .array (request.tools.map toolJson))]) ++
    (if request.tools.isEmpty then [] else [("parallel_tool_calls", .bool false)]) ++
    optionalField "tool_choice" (request.toolChoice.map toolChoiceJson) ++
    [("stream", .bool request.stream), ("store", .bool false)] ++
    optionalField "temperature" (request.sampling.temperature.map fractionJson) ++
    optionalField "top_p" (request.sampling.topP.map fractionJson) ++
    optionalField "max_output_tokens" (request.sampling.maxOutputTokens.map integerJson)

/-- What the body holds under each key. -/
def field (request : CanonicalRequest) (model : JsString) (input : List (ℤ × Json))
    (key : String) : Option Json :=
  if key = "model" then some (.string model)
  else if key = "input" then some (.array (input.map Prod.snd))
  else if key = "tools" then
    if request.tools.isEmpty then none else some (.array (request.tools.map toolJson))
  else if key = "parallel_tool_calls" then
    if request.tools.isEmpty then none else some (.bool false)
  else if key = "tool_choice" then request.toolChoice.map toolChoiceJson
  else if key = "stream" then some (.bool request.stream)
  else if key = "store" then some (.bool false)
  else if key = "temperature" then request.sampling.temperature.map fractionJson
  else if key = "top_p" then request.sampling.topP.map fractionJson
  else if key = "max_output_tokens" then request.sampling.maxOutputTokens.map integerJson
  else none

variable {request : CanonicalRequest} {model : JsString} {input : List (ℤ × Json)}

theorem get_body (key : String) :
    get ((body request model input).map fun field => (js field.1, field.2)) key =
      field request model input key := by
  rw [get_map, body, field]
  simp only [List.lookup_append, lookup_field, lookup_ite, lookup_optionalField, List.lookup_nil]
  obtain rfl | hm := eq_or_ne key "model"
  · simp
  obtain rfl | hi := eq_or_ne key "input"
  · simp
  obtain rfl | ht := eq_or_ne key "tools"
  · simp
  obtain rfl | hp := eq_or_ne key "parallel_tool_calls"
  · simp
  obtain rfl | hc := eq_or_ne key "tool_choice"
  · simp
  obtain rfl | hs := eq_or_ne key "stream"
  · simp
  obtain rfl | hst := eq_or_ne key "store"
  · simp
  obtain rfl | hte := eq_or_ne key "temperature"
  · simp
  obtain rfl | htP := eq_or_ne key "top_p"
  · simp
  simp [*]

theorem body_keys : ∀ field ∈ body request model input, field.1 ∈ rootKeys := by
  intro field hf
  by_contra hk
  -- a field of the body is found under its key
  have hl : (body request model input).lookup field.1 ≠ none := by
    rw [Ne, List.lookup_eq_none_iff]
    intro ha
    exact absurd (ha field hf) (by simp)
  rw [← get_map, get_body] at hl
  apply hl
  simp only [rootKeys, List.mem_cons, List.not_mem_nil, or_false, not_or] at hk
  simp [Responses.field, hk]

/-- An accepted request has no controls the format lacks. -/
theorem render_eq_ok {reasoning : Option ReasoningRenderControl} {fs : List (String × Json)}
    (hr : renderOpenAiResponsesRequest request model reasoning = .ok fs)
    (hs : reasoningWireFieldsForRequest request .openaiResponses reasoning = .ok []) :
    request.sampling.topK = none ∧ request.sampling.stop = none ∧
      ∃ input, entries request = .ok input ∧ fs = body request model input := by
  obtain ⟨u, htp, h⟩ := bind_eq_ok.mp hr
  rw [hs, ok_bind] at h
  obtain ⟨v, hst, h⟩ := bind_eq_ok.mp h
  obtain ⟨input, hi, h⟩ := bind_eq_ok.mp h
  cases h
  rw [refuseIf_eq_ok] at htp hst
  refine ⟨Option.isSome_eq_false_iff.mp htp |> Option.isNone_iff_eq_none.mp, ?_, input, hi,
    List.append_nil _⟩
  cases hvl : request.sampling.stop with
  | none => rfl
  | some stop =>
    rw [hvl, Option.any_some, Bool.not_eq_false'] at hst
    have hl := stop.2.1
    rw [List.isEmpty_iff.mp hst] at hl
    cases hl

theorem refusedControls_body :
    refusedControls ((body request model input).map fun field => (js field.1, field.2)) =
      .ok () := by
  simp only [refusedControls, refusedKeys, nativeKeys, get_body, field, reduceIte, String.reduceEq]
  rfl

theorem singleToolCalls_body (tools : List CanonicalTool)
    (ht : tools.isEmpty = request.tools.isEmpty) :
    singleToolCalls ((body request model input).map fun field => (js field.1, field.2)) tools =
      .ok () := by
  simp only [singleToolCalls, get_body, field, reduceIte, String.reduceEq, ht]
  cases request.tools.isEmpty <;> rfl

theorem parseOpenAiToolChoice_rendered {choice : Option CanonicalToolChoice}
    (h : ∀ name, choice ≠ some (.tool name)) :
    parseOpenAiToolChoice (choice.map toolChoiceJson) = .ok choice := by
  rcases choice with _ | (_ | _ | _ | name)
  · rfl
  · simp [parseOpenAiToolChoice, toolChoiceJson]
  · simp [parseOpenAiToolChoice, toolChoiceJson]
  · simp [parseOpenAiToolChoice, toolChoiceJson]
  · exact absurd rfl (h name)

/-- A named choice is written with the name beside the type, and read inside `function`. -/
theorem parseOpenAiToolChoice_named (name : NonEmpty) :
    parseOpenAiToolChoice (some (toolChoiceJson (.tool name))) =
      .error (unsupported (js "tool_choice" ++ js "." ++ js "name")
        "has unknown semantics and is not safely adaptable") := by
  rw [toolChoiceJson, parseOpenAiToolChoice, if_neg (by simp), if_neg (by simp),
    if_neg (by simp), if_neg (by simp), object_obj, ok_bind]
  have hu : rejectUnknown ([("type", str "function"), ("name", Json.string name.1)].map
      fun f => (js f.1, f.2)) ["type", "function"] "tool_choice" =
        .error (unsupported (js "tool_choice" ++ js "." ++ js "name")
          "has unknown semantics and is not safely adaptable") := by
    simp only [List.map_cons, List.map_nil]
    rfl
  rw [hu, error_bind]

theorem fraction_rendered {value : Option Fraction} {mems : Members} {key : String}
    (h : get mems key = value.map fractionJson) : fraction mems key = .ok value := by
  rw [fraction, h]
  cases value with
  | none => rfl
  | some x => exact dif_pos x.2

theorem positiveInteger_rendered (value : Option PositiveInteger) (key : String) :
    positiveInteger (value.map integerJson) key = .ok value := by
  cases value with
  | none => rfl
  | some x => exact dif_pos x.2

/-- The sampling reads back. -/
theorem sampling_body (htp : request.sampling.topK = none) (hst : request.sampling.stop = none) :
    sampling ((body request model input).map fun field => (js field.1, field.2))
      "max_output_tokens" (field request model input "max_output_tokens") =
        .ok request.sampling := by
  have ht : fraction ((body request model input).map fun field => (js field.1, field.2))
      "temperature" = .ok request.sampling.temperature := fraction_rendered (get_body _)
  have htP : fraction ((body request model input).map fun field => (js field.1, field.2))
      "top_p" = .ok request.sampling.topP := fraction_rendered (get_body _)
  have hm : positiveInteger (field request model input "max_output_tokens")
      "max_output_tokens" = .ok request.sampling.maxOutputTokens := positiveInteger_rendered _ _
  rw [sampling, ht, ok_bind, htP, ok_bind, hm, ok_bind, get_body, get_body]
  show Except.ok (Sampling.mk _ _ _ _ _) = _
  rw [← htp, ← hst]

end Responses

/-! ## The round trip -/

/-- Every text part is there, and every tool result holds one text. -/
structure Carriable (request : CanonicalRequest) : Prop where
  instructions : ∀ i ∈ request.instructions, ∀ text ∈ i.content, text ≠ []
  parts : ∀ message ∈ request.messages, ∀ part ∈ message.content, Responses.Carried part

/-- The parts of a request in order, each with the role of its message. -/
def CanonicalRequest.pairs (request : CanonicalRequest) : List (MessageRole × Part) :=
  request.messages.flatMap CanonicalMessage.pairs

/-- What a request is read back as: the same instructions, parts, tools and controls. -/
structure SameRequest (request request' : CanonicalRequest) : Prop where
  instructions : request'.instructions.map Responses.roleTexts =
    request.instructions.map Responses.roleTexts
  pairs : request'.pairs = request.pairs
  tools : request'.tools = request.tools
  toolChoice : request'.toolChoice = request.toolChoice
  stream : request'.stream = request.stream
  sampling : request'.sampling = request.sampling

section RoundTrip

variable {request : CanonicalRequest} {model : JsString} {input : List (ℤ × Json)}

theorem unflagged_pairs (msgs : List CanonicalMessage) :
    (msgs.flatMap fun msg =>
      (msg.content.map unflagged).map fun p => (msg.role, p)) =
      (msgs.flatMap pairs).map fun pair => (pair.1, unflagged pair.2) := by
  rw [List.map_flatMap]
  congr 1
  funext msg
  rw [pairs, List.map_map, List.map_map]
  rfl

theorem content_of_pairs (msgs : List CanonicalMessage) :
    msgs.flatMap content =
      (msgs.flatMap pairs).map Prod.snd := by
  rw [List.map_flatMap]
  congr 1
  funext msg
  rw [pairs, List.map_map]
  exact (List.map_id _).symm

/-- **What the parser makes of a rendered body** that names a model and no tool. -/
theorem parse_body (hc : Checked request) (hr : Carriable request)
    (hin : entries request = .ok input) (htp : request.sampling.topK = none)
    (hst : request.sampling.stop = none) (hm : model ≠ [])
    (hh : ∀ name, request.toolChoice ≠ some (.tool name)) :
    ∃ request', parseOpenAiResponsesRequest (obj (body request model input)) = .ok request' ∧
      request'.instructions.map roleTexts = request.instructions.map roleTexts ∧
      request'.pairs = request.pairs.map (fun pair => (pair.1, unflagged pair.2)) ∧
      request'.tools = request.tools.map described ∧
      request'.toolChoice = request.toolChoice ∧ request'.stream = request.stream ∧
      request'.sampling = request.sampling := by
  obtain ⟨param, hn⟩ := hc.toolNames
  obtain ⟨errors, hi⟩ := hc.toolIds
  have ht := parseTools_rendered hn
  have hrd := reads_entries hin hc hr.instructions hr.parts
  obtain ⟨turns, htu, hs, hp⟩ := hrd 0
  rw [unflagged_pairs] at hp
  have hvd : validateMessageToolIds toolIdErrors (turns.filterMap Turn.message?) =
      .ok () := by
    rw [validateMessageToolIds, content_of_pairs, hp, List.map_map]
    rw [validateMessageToolIds, content_of_pairs] at hi
    have hl : validateToolIds toolIdErrors [] []
        (((request.messages.flatMap pairs).map Prod.snd).map
          unflagged) = .ok () := validateToolIds_anywhere hi
    rw [List.map_map] at hl
    exact hl
  have he : (request.tools.map described).isEmpty = request.tools.isEmpty := by
    rw [List.isEmpty_map]
  have hch : validateToolChoice request.toolChoice
      (request.tools.map described) = .ok () := by
    have hv := validateToolChoice_eq_ok.mp hc.toolChoice
    apply validateToolChoice_eq_ok.mpr
    rw [List.map_eq_nil_iff, List.map_map]
    exact hv
  refine ⟨{
    source := .openaiResponses
    model := ⟨model, hm⟩
    instructions := turns.filterMap Turn.instruction?
    messages := turns.filterMap Turn.message?
    tools := request.tools.map described
    toolChoice := request.toolChoice
    stream := request.stream
    sampling := request.sampling
    thinking := none
    limitations := instructionLimitations (turns.filterMap Turn.instruction?)
    }, ?_, hs, hp, rfl, rfl, rfl, rfl⟩
  have hcR : parseOpenAiToolChoice
      (field request model input "tool_choice") = .ok request.toolChoice :=
    parseOpenAiToolChoice_rendered hh
  have hR : parseTools (field request model input "tools") "tools"
      .openaiResponses = .ok (request.tools.map described) := ht
  have hiR : parseInput (field request model input "input") = .ok turns := htu
  have hmo : string (field request model input "model") "model" =
      .ok ⟨model, hm⟩ := string_ok hm _
  rw [parseOpenAiResponsesRequest, object_obj, ok_bind, rejectUnknown_map body_keys,
    ok_bind, refusedControls_body, ok_bind, get_body, hR, ok_bind,
    singleToolCalls_body _ he, ok_bind, get_body]
  show (parseInput (get _ "input") >>= _) = _
  rw [get_body, hiR, ok_bind, get_body, hcR, ok_bind, hch,
    ok_bind, hvd, ok_bind, get_body, hmo, ok_bind, get_body]
  show (sampling _ _ (get _ "max_output_tokens") >>= _) = _
  rw [get_body, sampling_body htp hst]
  rfl

/-- A body that is accepted names a model and no tool. -/
theorem accepted_body {request' : CanonicalRequest}
    (h : parseOpenAiResponsesRequest (obj (body request model input)) = .ok request') :
    model ≠ [] ∧ ∀ name, request.toolChoice ≠ some (.tool name) := by
  rw [parseOpenAiResponsesRequest, object_obj, ok_bind] at h
  simp only [bind_eq_ok] at h
  obtain ⟨-, -, -, -, tools, -, -, -, leading, -, turns, -, choice, hc, -, -, -, -, named,
    hm, h⟩ := h
  constructor
  · rintro rfl
    cases hm
  · intro name hnm
    rw [get_body] at hc
    change parseOpenAiToolChoice (request.toolChoice.map toolChoiceJson) = _ at hc
    rw [hnm, Option.map_some, parseOpenAiToolChoice_named] at hc
    cases hc

theorem described_eq_self {tool : CanonicalTool} :
    tool.described = tool ↔ tool.description ≠ some [] := by
  rcases tool with ⟨name, _ | (_ | ⟨u, description⟩), schema⟩ <;>
    simp [described, Option.filter]

theorem unflagged_eq_self {p : Part} :
    unflagged p = p ↔ ∀ id txt, p ≠ .toolResult id txt true := by
  cases p with
  | toolResult id txt isError => cases isError <;> simp [unflagged]
  | _ => simp [unflagged]

theorem mem_pairs {part : Part} :
    (∃ role, (role, part) ∈ request.pairs) ↔ ∃ message ∈ request.messages,
      part ∈ message.content := by
  simp only [CanonicalRequest.pairs, List.mem_flatMap, pairs, List.mem_map, Prod.mk.injEq]
  constructor
  · rintro ⟨role, message, hm, part', hpt, -, rfl⟩
    exact ⟨message, hm, hpt⟩
  · rintro ⟨message, hm, hpt⟩
    exact ⟨message.role, message, hm, part, hpt, rfl, rfl⟩

/-- The parts of a request are read back exactly where no tool result is flagged. -/
theorem pairs_unflagged_iff :
    request.pairs.map (fun pair => (pair.1, unflagged pair.2)) = request.pairs ↔
      ∀ msg ∈ request.messages, ∀ id txt,
        Part.toolResult id txt true ∉ msg.content := by
  have hsl : request.pairs.map (fun pair => (pair.1, unflagged pair.2)) =
      request.pairs ↔ ∀ pair ∈ request.pairs, (pair.1, unflagged pair.2) = pair := by
    conv_lhs => rw [← List.map_id request.pairs, List.map_map, List.map_inj_left]
    rfl
  rw [hsl]
  constructor
  · intro h msg hm id txt hf
    obtain ⟨role, hpr⟩ := mem_pairs.mpr ⟨msg, hm, hf⟩
    have hsm := congrArg Prod.snd (h _ hpr)
    exact unflagged_eq_self.mp hsm id txt rfl
  · rintro h ⟨role, part⟩ hpr
    obtain ⟨msg, hm, hpt⟩ := mem_pairs.mp ⟨role, hpr⟩
    have hsm : unflagged part = part := by
      apply unflagged_eq_self.mpr
      rintro id txt rfl
      exact h msg hm id txt hpt
    rw [hsm]

end RoundTrip

/-- **A Responses request round-trips exactly where it names a model, chooses no tool by name,
describes no tool by an empty text and flags no tool result as an error.** -/
theorem responses_round_trip_iff {surface : ProtocolSurface} {source : Json}
    {request : CanonicalRequest} (hparse : parseCanonicalRequest surface source = .ok request)
    (hcarriable : Carriable request) {model : JsString}
    {reasoning : Option ReasoningRenderControl} {fields : List (String × Json)}
    (hrender : renderOpenAiResponsesRequest request model reasoning = .ok fields)
    (hreasoning : reasoningWireFieldsForRequest request .openaiResponses reasoning = .ok []) :
    (∃ request', parseOpenAiResponsesRequest (obj fields) = .ok request' ∧
        SameRequest request request') ↔
      model ≠ [] ∧ (∀ name, request.toolChoice ≠ some (.tool name)) ∧
        (∀ tool ∈ request.tools, tool.description ≠ some []) ∧
        ∀ message ∈ request.messages, ∀ id content,
          Part.toolResult id content true ∉ message.content := by
  obtain ⟨ht, hs, input, hi, rfl⟩ := render_eq_ok hrender hreasoning
  have hh := checked_of_parse hparse
  have hl : request.tools.map described = request.tools ↔
      ∀ tool ∈ request.tools, tool.description ≠ some [] := by
    conv_lhs => rw [← List.map_id request.tools, List.map_map, List.map_inj_left]
    exact forall₂_congr fun tool _ => described_eq_self
  constructor
  · rintro ⟨request', hr', hsm⟩
    obtain ⟨hm, hc⟩ := accepted_body hr'
    obtain ⟨read, hr, -, hp, hread_tools, -⟩ :=
      parse_body hh hcarriable hi ht hs hm hc
    rw [hr'] at hr
    cases hr
    refine ⟨hm, hc, ?_, ?_⟩
    · rw [← hl, ← hread_tools]
      exact hsm.tools
    · rw [← pairs_unflagged_iff, ← hp]
      exact hsm.pairs
  · rintro ⟨hm, hc, hd, hf⟩
    obtain ⟨read, hr, hin, hp, hread_tools, hto, hst, hsa⟩ :=
      parse_body hh hcarriable hi ht hs hm hc
    refine ⟨read, hr, ⟨hin, ?_, ?_, hto, hst, hsa⟩⟩
    · rw [hp]
      exact pairs_unflagged_iff.mpr hf
    · rw [hread_tools]
      exact hl.mpr hd

/-- A Chat request with a tool and a choice of tool. -/
def toolRequest (choice : Json) : Json :=
  obj [("model", str "m"),
    ("messages", .array [obj [("role", str "user"), ("content", str "a")]]),
    ("tools", .array [obj [("type", str "function"),
      ("function", obj [("name", str "f"), ("parameters", obj [])])]]),
    ("tool_choice", choice), ("parallel_tool_calls", .bool false)]

/-- A request that requires a tool call round-trips. -/
theorem responses_round_trip_required :
    ∃ request fields,
      parseCanonicalRequest .openaiChat (toolRequest (str "required")) = .ok request ∧
        renderOpenAiResponsesRequest request (js "m") none = .ok fields ∧
        ∃ request', parseOpenAiResponsesRequest (obj fields) = .ok request' ∧
          SameRequest request request' := by
  have hp : ∃ request, parseCanonicalRequest .openaiChat (toolRequest (str "required")) =
      .ok request ∧ Carriable request ∧ request.toolChoice = some .required ∧
        (∀ tool ∈ request.tools, tool.description ≠ some []) ∧
        ∀ msg ∈ request.messages, msg.content = [.text (js "a")] :=
    ⟨_, rfl, ⟨by decide, by decide⟩, rfl, by decide, by decide⟩
  obtain ⟨request, hr, hc, hh, ht, hco⟩ := hp
  have hre : ∃ fields, renderOpenAiResponsesRequest request (js "m") none = .ok fields ∧
      reasoningWireFieldsForRequest request .openaiResponses none = .ok [] := by
    cases hr
    exact ⟨_, rfl, rfl⟩
  obtain ⟨fields, hf, hra⟩ := hre
  refine ⟨request, fields, hr, hf, ?_⟩
  apply (responses_round_trip_iff hr hc hf hra).mpr
  refine ⟨by decide, ?_, ht, ?_⟩
  · intro name hn
    rw [hh] at hn
    cases hn
  · intro msg hm id txt hl
    rw [hco msg hm] at hl
    cases List.mem_singleton.mp hl

/-- A tool chosen by its name is refused by the parser of the format it was rendered to. -/
theorem named_choice_refused :
    ∃ request fields,
      parseCanonicalRequest .openaiChat (toolRequest (obj [("type", str "function"),
          ("function", obj [("name", str "f")])])) = .ok request ∧
        Carriable request ∧ renderOpenAiResponsesRequest request (js "m") none = .ok fields ∧
        reasoningWireFieldsForRequest request .openaiResponses none = .ok [] ∧
        ∀ request', parseOpenAiResponsesRequest (obj fields) ≠ .ok request' := by
  refine ⟨_, _, rfl, ⟨by decide, by decide⟩, rfl, rfl, ?_⟩
  intro request' h
  cases h

end ModelProxy.Protocols
