import ModelProxy.ResponsesRequests

/-! # Anthropic Messages requests

`parseAnthropicMessagesRequest` and `renderAnthropicMessagesRequest`, and the choice of a
parser and a renderer by surface.
-/
namespace ModelProxy.Protocols

open ModelProxy.Js
open ModelProxy.Js.Json (isStr isBool obj orElse str)

namespace Anthropic

/-- The fields of a messages request that are adapted. -/
def rootKeys : List String :=
  ["model", "messages", "system", "tools", "tool_choice", "stream", "temperature", "top_p",
    "top_k", "stop_sequences", "max_tokens", "metadata", "thinking"]

/-! ## Parsing -/

/-- An object without its cache mark. -/
def withoutCacheControl : Json → Json
  | .object members => .object (members.filter fun member => member.1 != js "cache_control")
  | value => value

/-- Entries without their cache marks. -/
def withoutCacheControlEntries : Option Json → Option Json
  | some (.array entries) => some (.array (entries.map withoutCacheControl))
  | value => value

/-- What `JSON.stringify` writes is not empty. -/
theorem stringify_object_ne_nil (mems : Members) : stringify (.object mems) ≠ [] := by
  exact List.cons_ne_nil _ _

/-- An image by its address or its data. -/
def imageBlock (path : JsString) (block : Members) : Adapted Part := do
  rejectUnknown block ["type", "source"] path
  let source ← object (get block "source") (path ++ ".source")
  rejectUnknown source ["type", "media_type", "data"] (path ++ ".source")
  match isStr (get source "type") "base64", (asText (get source "media_type")).bind mediaType with
  | true, some type => do
      let data ← validateBase64 (get source "data") (path ++ ".source.data")
      return .image (.base64 type data)
  | _, _ => .error (notAdaptable (path ++ ".source"))

/-- A tool call. -/
def toolUseBlock (path : JsString) (block : Members) : Adapted Part := do
  rejectUnknown block ["type", "id", "name", "input"] path
  let id ← string (get block "id") (path ++ ".id")
  let name ← string (get block "name") (path ++ ".name")
  let input ← object (get block "input") (path ++ ".input")
  return .toolCall id name ⟨stringify (.object input), stringify_object_ne_nil input⟩

/-- A tool's result, with its texts. -/
def toolResultBlock (path : JsString) (block : Members) : Adapted Part := do
  rejectUnknown block ["type", "tool_use_id", "content", "is_error"] path
  refuseIf (notBoolean (get block "is_error")) (invalid (path ++ ".is_error") "must be a boolean")
  let id ← string (get block "tool_use_id") (path ++ ".tool_use_id")
  let content ← texts (withoutCacheControlEntries (orElse (get block "content") (some (str ""))))
    (path ++ ".content")
  return .toolResult id content (isBool (get block "is_error") true)

/-- A block of any kind. -/
def contentBlock (path : JsString) (entry : Json) : Adapted Part := do
  let block ← object (some (withoutCacheControl entry)) path
  if isStr (get block "type") "text" then do
    rejectUnknown block ["type", "text"] path
    let text ← string (get block "text") (path ++ ".text")
    return .text text.1
  else if isStr (get block "type") "image" then imageBlock path block
  else if isStr (get block "type") "tool_use" then toolUseBlock path block
  else if isStr (get block "type") "tool_result" then toolResultBlock path block
  else .error (notAdaptable (path ++ ".type"))

/-- A text, or a list of blocks. -/
def blocks (value : Option Json) (parameter : JsString) : Adapted (List Part) :=
  match value with
  | some (.string s) => .ok [.text s]
  | some (.array entries) => mapEntries (fun i => contentBlock (entryPath parameter i)) 0 entries
  | _ => .error (invalid parameter "must be text or an array")

/-- A message with its blocks. -/
def turn (path : JsString) (sourceIndex : ℕ) (role : MessageRole) (message : Members) :
    Adapted CanonicalMessage := do
  let content ← blocks (get message "content") (path ++ ".content")
  refuseIf (decide (role = .user) && content.any Part.isToolCall)
    (unsupported (path ++ ".content") "tool_use blocks must have the assistant role")
  refuseIf (decide (role = .assistant) &&
      content.any fun part => part.isToolResult || part.isImage)
    (unsupported (path ++ ".content") "tool results and input images must have the user role")
  return ⟨role, content, sourceIndex⟩

/-- An entry of `messages`. -/
def parseEntry (sourceIndex : ℕ) (entry : Json) : Adapted CanonicalMessage := do
  let message ← object (some entry) (entryPath "messages" sourceIndex)
  rejectUnknown message ["role", "content"] (entryPath "messages" sourceIndex)
  match messageRole (get message "role") with
  | some role => turn (entryPath "messages" sourceIndex) sourceIndex role message
  | none => .error (invalid (entryPath "messages" sourceIndex ++ ".role") "is unsupported")

/-- A whole number that is not negative. -/
def parseTopK (value : Option Json) : Adapted (Option ℕ) :=
  match value with
  | none => .ok none
  | some (.number x) =>
    match safeNatural x with
    | some (n + 1) => .ok (some (n + 1))
    | _ => .error (invalid "top_k" "must be a positive integer")
  | some _ => .error (invalid "top_k" "must be a positive integer")

/-- The tokens a model may think for. -/
def budgetTokens (value : Option Json) : Adapted ℕ :=
  match value with
  | some (.number x) =>
    match safeNatural x with
    | some (n + 1) => .ok (n + 1)
    | _ => .error (invalid "thinking.budget_tokens" "must be a positive integer")
  | _ => .error (invalid "thinking.budget_tokens" "must be a positive integer")

/-- Thinking switched off, or on with a budget. -/
def thinkingOf (thinking : Members) : Adapted CanonicalThinking :=
  if isStr (get thinking "type") "disabled" then do
    rejectUnknown thinking ["type"] "thinking"
    return .disabled
  else if isStr (get thinking "type") "enabled" then do
    rejectUnknown thinking ["type", "budget_tokens"] "thinking"
    let budget ← budgetTokens (get thinking "budget_tokens")
    return .enabled budget
  else if isStr (get thinking "type") "adaptive" then do
    rejectUnknown thinking ["type"] "thinking"
    return .adaptive
  else .error (notAdaptable "thinking.type")

/-- The `thinking` field. -/
def parseThinking (value : Option Json) : Adapted (Option CanonicalThinking) :=
  match value with
  | none => .ok none
  | some value => do
      let thinking ← object (some value) "thinking"
      let parsed ← thinkingOf thinking
      return some parsed

/-- The `messages` field; a limit of tokens is required beside it. -/
def parseMessages (value : Option Json) (maxTokens : Option Json) :
    Adapted (List CanonicalMessage) :=
  match value with
  | some (.array entries) => do
      refuseIf maxTokens.isNone (invalid "max_tokens" "is required for Anthropic Messages")
      mapEntries parseEntry 0 entries
  | _ => .error (invalid "messages" "must be an array")

/-- The `system` of the request stands before its messages. -/
def systemInstructions (value : Option Json) : Adapted (List CanonicalInstruction) :=
  match value with
  | none => .ok []
  | some value => do
      let content ← texts (withoutCacheControlEntries (some value)) "system"
      return [⟨.system, content, -1⟩]

/-- How the protocol names a repeated tool id. -/
def toolIdErrors : ToolIdErrors where
  call := invalid "messages.tool_use.id" "must be unique"
  result := invalid "messages.tool_result.tool_use_id" "must be unique"
  unknown := invalid "messages.tool_result.tool_use_id" "references an unknown tool use"

end Anthropic

open Anthropic in
/-- A messages request as a canonical one. -/
def parseAnthropicMessagesRequest (input : Json) : Adapted CanonicalRequest := do
  let body ← object (some input) "body"
  rejectUnknown body rootKeys "body"
  let messages ← parseMessages (get body "messages") (get body "max_tokens")
  let tools ← parseTools (withoutCacheControlEntries (get body "tools")) "tools" .anthropic
  refuseIf (!tools.isEmpty && (get body "tool_choice").isNone)
    (invalid "tool_choice" "must explicitly disable parallel tool use when tools are adapted")
  let toolChoice ← parseAnthropicToolChoice (get body "tool_choice")
  validateToolChoice toolChoice tools
  validateMessageToolIds toolIdErrors messages
  let topK ← parseTopK (get body "top_k")
  let thinking ← parseThinking (get body "thinking")
  let model ← string (get body "model") "model"
  let instructions ← systemInstructions (get body "system")
  let stream ← boolean (get body "stream") "stream"
  let sampled ← sampling body "max_tokens" (get body "max_tokens")
  return {
    source := .anthropicMessages
    model := model
    instructions := instructions
    messages := messages
    tools := tools
    toolChoice := toolChoice
    stream := stream
    sampling := { sampled with topK := topK }
    thinking := thinking
    limitations := []
  }

/-! ## Rendering -/

namespace Anthropic

/-- The arguments of a tool call, read from their text. -/
def parseArguments (value : NonEmpty) (id : NonEmpty) : Adapted Members := do
  let parsed ← parseEmbeddedJson value.1 (js "tool_call[" ++ id.1 ++ js "].arguments")
  object (some parsed) (js "tool_call[" ++ id.1 ++ js "].arguments")

/-- A part as a block. -/
def partJson : Part → Adapted Json
  | .text text => .ok (textJson text)
  | .image (.base64 type data) =>
    .ok (obj [("type", str "image"),
      ("source", obj [("type", str "base64"), ("media_type", str type.name),
        ("data", .string data.1)])])
  | .image (.url _ _) =>
    .error (unsupported "messages.image" "remote images are not safely representable by Anthropic")
  | .toolCall id name arguments => do
      let input ← parseArguments arguments id
      return obj [("type", str "tool_use"), ("id", .string id.1), ("name", .string name.1),
        ("input", .object input)]
  | .toolResult id content isError =>
    .ok (obj ([("type", str "tool_result"), ("tool_use_id", .string id.1),
      ("content", .array (content.map textJson))] ++
      if isError then [("is_error", .bool true)] else []))

/-- A turn as a message. -/
def messageJson (message : CanonicalMessage) : Adapted (List Json) := do
  let content ← mapEntries (fun _ => partJson) 0 message.content
  return [obj [("role", str message.role.name), ("content", .array content)]]

/-- The lesser of two indexes, where `none` is infinity. -/
def lesser (first : Option ℤ) (index : ℤ) : ℤ :=
  match first with
  | some first => min first index
  | none => index

/-- `firstMessageIndex`, where `none` is infinity. -/
def firstMessageIndex (messages : List CanonicalMessage) : Option ℤ :=
  messages.foldl (fun first message =>
    if 0 ≤ message.sourceIndex then some (lesser first message.sourceIndex) else first) none

/-- Whether an instruction stands behind a message. -/
def instructionBehind (request : CanonicalRequest) : Bool :=
  request.instructions.any fun instruction =>
    decide (0 ≤ instruction.sourceIndex) &&
      (firstMessageIndex request.messages).any fun first => decide (first < instruction.sourceIndex)

/-- System and developer instructions in one request. -/
def mixedRoles (instructions : List CanonicalInstruction) : Bool :=
  (instructions.any fun item => item.role = .system) &&
    instructions.any fun item => item.role = .developer

/-- A tool's definition. -/
def toolJson (tool : CanonicalTool) : Json :=
  obj ([("name", .string tool.name.1)] ++ descriptionFields tool ++
    [("input_schema", .object tool.inputSchema)])

/-- Which tool is to be called. -/
def toolChoiceJson : Option CanonicalToolChoice → Json
  | some (.tool name) =>
    obj [("type", str "tool"), ("name", .string name.1),
      ("disable_parallel_tool_use", .bool true)]
  | some .required => obj [("type", str "any"), ("disable_parallel_tool_use", .bool true)]
  | some .none => obj [("type", str "none"), ("disable_parallel_tool_use", .bool true)]
  | some .auto | none => obj [("type", str "auto"), ("disable_parallel_tool_use", .bool true)]

/-- The blocks of `system`. -/
def systemEntries (request : CanonicalRequest) : List (ℤ × Json) :=
  request.instructions.flatMap fun instruction =>
    positioned instruction.sourceIndex (instruction.content.map textJson)

end Anthropic

/-- What may be lost, and how reasoning is asked for. -/
structure AnthropicRenderOptions where
  allowLossyInstructionRoleCollapse : Bool
  reasoning : Option ReasoningRenderControl

open Anthropic in
/-- A canonical request as a messages request. -/
def renderAnthropicMessagesRequest (request : CanonicalRequest) (model : JsString)
    (options : AnthropicRenderOptions) : Adapted (List (String × Json)) := do
  refuseIf (instructionBehind request)
    (unsupported "instructions"
      "system and developer instructions must form a prefix before user or assistant messages")
  refuseIf (mixedRoles request.instructions && !options.allowLossyInstructionRoleCollapse)
    (unsupported "instructions"
      "mix system and developer roles; enable lossy instruction-role collapse explicitly")
  let reasoningFields ← reasoningWireFieldsForRequest request .anthropicMessages options.reasoning
  let messages ← positionedMessages messageJson request.messages
  let system := systemEntries request
  return [("model", .string model), ("messages", .array (messages.map Prod.snd))] ++
    (if system.isEmpty then [] else [("system", .array (system.map Prod.snd))]) ++
    (if request.tools.isEmpty then [] else [("tools", .array (request.tools.map toolJson))]) ++
    (if request.tools.isEmpty && request.toolChoice.isNone then []
      else [("tool_choice", toolChoiceJson request.toolChoice)]) ++
    [("stream", .bool request.stream)] ++
    optionalField "temperature" (request.sampling.temperature.map fractionJson) ++
    optionalField "top_p" (request.sampling.topP.map fractionJson) ++
    optionalField "top_k" (request.sampling.topK.map Json.nat) ++
    optionalField "stop_sequences" (request.sampling.stop.map stopJson) ++
    [("max_tokens", (request.sampling.maxOutputTokens.map integerJson).getD (Json.nat 1024))] ++
    reasoningFields

/-! ## Surfaces -/

/-- A request of any surface as a canonical one. -/
def parseCanonicalRequest (surface : ProtocolSurface) (body : Json) : Adapted CanonicalRequest :=
  match surface with
  | .openaiChat => parseOpenAiChatRequest body
  | .openaiResponses => parseOpenAiResponsesRequest body
  | .anthropicMessages => parseAnthropicMessagesRequest body

/-- What the target of a request takes. -/
structure RenderOptions where
  allowLossyDeveloperRoleCollapse : Bool
  acceptsTopK : Bool
  streamUsage : Bool
  reasoning : Option ReasoningRenderControl

/-- A canonical request for any surface. -/
def renderCanonicalRequest (request : CanonicalRequest) (target : ProtocolSurface)
    (model : JsString) (options : RenderOptions) : Adapted (List (String × Json)) :=
  match target with
  | .openaiChat =>
    renderOpenAiChatRequest request model
      ⟨options.acceptsTopK, options.streamUsage, options.reasoning⟩
  | .openaiResponses => renderOpenAiResponsesRequest request model options.reasoning
  | .anthropicMessages =>
    renderAnthropicMessagesRequest request model
      ⟨options.allowLossyDeveloperRoleCollapse, options.reasoning⟩

end ModelProxy.Protocols
