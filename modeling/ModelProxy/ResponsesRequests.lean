import ModelProxy.ChatRequests

/-! # OpenAI Responses requests

`parseOpenAiResponsesRequest` and `renderOpenAiResponsesRequest`.
-/
namespace ModelProxy.Protocols

open ModelProxy.Js
open ModelProxy.Js.Json (isStr isBool obj str)

namespace Responses

/-- The fields of a responses request that are adapted. -/
def rootKeys : List String :=
  ["model", "input", "instructions", "tools", "tool_choice", "stream", "temperature", "top_p",
    "max_output_tokens", "store", "previous_response_id", "include", "reasoning", "truncation",
    "background", "service_tier", "parallel_tool_calls", "text", "metadata"]

/-! ## Parsing -/

/-- The first of some keys that is there is refused. -/
def refusedKeys (body : Members) : List String → Adapted Unit
  | [] => .ok ()
  | key :: keys => do
      refuseIf (get body key).isSome (notAdaptable key)
      refusedKeys body keys

/-- Fields only a model that stores responses can take. -/
def nativeKeys : List String :=
  ["previous_response_id", "include", "reasoning", "background", "service_tier", "metadata",
    "text"]

/-- Why a response is not stored. -/
def storeReason : String :=
  "true needs a model that stores responses natively; a request reached by translation cannot " ++
    "be stored. Send \"store\": false (the response is then not stored and cannot be retrieved " ++
    "later)"

/-- Settings that no other protocol can carry. -/
def refusedControls (body : Members) : Adapted Unit := do
  refusedKeys body nativeKeys
  refuseIf (notBoolean (get body "store")) (invalid "store" "must be a boolean")
  refuseIf (isBool (get body "store") true) (unsupported "store" storeReason)
  refuseIf ((get body "truncation").isSome && !isStr (get body "truncation") "disabled")
    (notAdaptable "truncation")

/-- The texts of an instruction. -/
def responseInstructionText : Option Json → JsString → Adapted (List JsString) :=
  textsOf ["input_text", "output_text"] "must be text or an array"

/-- A text or an image. -/
def contentBlock (path : JsString) (entry : Json) : Adapted Part := do
  let block ← object (some entry) path
  if isStr (get block "type") "input_text" || isStr (get block "type") "output_text" then do
    rejectUnknown block ["type", "text"] path
    let text ← string (get block "text") (path ++ ".text")
    return .text text.1
  else if isStr (get block "type") "input_image" then do
    rejectUnknown block ["type", "image_url", "detail"] path
    let source ← parseImageUrl (get block "image_url") (path ++ ".image_url") (get block "detail")
    return .image source
  else .error (notAdaptable (path ++ ".type"))

/-- A text, or a list of blocks. -/
def responseText (value : Option Json) (parameter : JsString) : Adapted (List Part) :=
  match value with
  | some (.string s) => .ok [.text s]
  | some (.array entries) => mapEntries (fun i => contentBlock (entryPath parameter i)) 0 entries
  | _ => .error (invalid parameter "must be text or an array")

/-- A system or developer item. -/
def instruction (path : JsString) (sourceIndex : ℕ) (role : InstructionRole) (item : Members) :
    Adapted Turn := do
  let content ← responseInstructionText (get item "content") (path ++ ".content")
  return .instruction ⟨role, content, sourceIndex⟩

/-- A user or assistant item. -/
def turn (path : JsString) (sourceIndex : ℕ) (role : MessageRole) (item : Members) :
    Adapted Turn := do
  let content ← responseText (get item "content") (path ++ ".content")
  refuseIf (decide (role = .assistant) && content.any Part.isImage)
    (unsupported (path ++ ".content") "assistant images are not in the common subset")
  return .message ⟨role, content, sourceIndex⟩

/-- A message item, by its role. -/
def messageItem (path : JsString) (sourceIndex : ℕ) (item : Members) : Adapted Turn := do
  rejectUnknown item ["type", "id", "role", "content", "status"] path
  refuseIf ((get item "id").isSome || (get item "status").isSome)
    (unsupported path "persisted item references are native-only")
  match instructionRole (get item "role") with
  | some role => instruction path sourceIndex role item
  | none =>
    match messageRole (get item "role") with
    | some role => turn path sourceIndex role item
    | none => .error (invalid (path ++ ".role") "is unsupported")

/-- A tool call's item. -/
def functionCall (path : JsString) (sourceIndex : ℕ) (item : Members) : Adapted Turn := do
  rejectUnknown item ["type", "call_id", "name", "arguments"] path
  let id ← string (get item "call_id") (path ++ ".call_id")
  let name ← string (get item "name") (path ++ ".name")
  let arguments ← string (get item "arguments") (path ++ ".arguments")
  return .message ⟨.assistant, [.toolCall id name arguments], sourceIndex⟩

/-- A tool result's item. -/
def functionCallOutput (path : JsString) (sourceIndex : ℕ) (item : Members) : Adapted Turn := do
  rejectUnknown item ["type", "call_id", "output"] path
  let id ← string (get item "call_id") (path ++ ".call_id")
  let content ← texts (get item "output") (path ++ ".output")
  return .message ⟨.user, [.toolResult id content false], sourceIndex⟩

/-- An item with a role, and no other type. -/
def isMessageItem (item : Members) : Bool :=
  ((get item "type").isNone || isStr (get item "type") "message") && (get item "role").isSome

/-- An item by its type. -/
def parseItem (path : JsString) (sourceIndex : ℕ) (item : Members) : Adapted Turn :=
  if isMessageItem item then messageItem path sourceIndex item
  else if isStr (get item "type") "function_call" then functionCall path sourceIndex item
  else if isStr (get item "type") "function_call_output" then
    functionCallOutput path sourceIndex item
  else .error (notAdaptable (path ++ ".type"))

/-- An entry of `input`. -/
def parseEntry (sourceIndex : ℕ) (entry : Json) : Adapted Turn := do
  let item ← object (some entry) (entryPath "input" sourceIndex)
  parseItem (entryPath "input" sourceIndex) sourceIndex item

/-- A text, or a list of items. -/
def parseInput (value : Option Json) : Adapted (List Turn) :=
  match value with
  | some (.string s) => .ok [.message ⟨.user, [.text s], 0⟩]
  | some (.array entries) => mapEntries parseEntry 0 entries
  | _ => .error (invalid "input" "must be text or an item array")

/-- The `instructions` of the request stand before its input. -/
def leadingInstructions (value : Option Json) : Adapted (List CanonicalInstruction) :=
  match value with
  | none => .ok []
  | some value => do
      let content ← texts (some value) "instructions"
      return [⟨.developer, content, -1⟩]

/-- How the protocol names a repeated tool id. -/
def toolIdErrors : ToolIdErrors where
  call := invalid "input.call_id" "must be unique"
  result := invalid "input.call_id" "tool result must be unique"
  unknown := invalid "input.call_id" "references an unknown tool call"

end Responses

open Responses in
/-- A responses request as a canonical one. -/
def parseOpenAiResponsesRequest (input : Json) : Adapted CanonicalRequest := do
  let body ← object (some input) "body"
  rejectUnknown body rootKeys "body"
  refusedControls body
  let tools ← parseTools (get body "tools") "tools" .openaiResponses
  singleToolCalls body tools
  let leading ← leadingInstructions (get body "instructions")
  let turns ← parseInput (get body "input")
  let toolChoice ← parseOpenAiToolChoice (get body "tool_choice")
  validateToolChoice toolChoice tools
  validateMessageToolIds toolIdErrors (turns.filterMap Turn.message?)
  let model ← string (get body "model") "model"
  let stream ← boolean (get body "stream") "stream"
  let sampled ← sampling body "max_output_tokens" (get body "max_output_tokens")
  return {
    source := .openaiResponses
    model := model
    instructions := leading ++ turns.filterMap Turn.instruction?
    messages := turns.filterMap Turn.message?
    tools := tools
    toolChoice := toolChoice
    stream := stream
    sampling := sampled
    thinking := none
    limitations := instructionLimitations (leading ++ turns.filterMap Turn.instruction?)
  }

/-! ## Rendering -/

namespace Responses

/-- An instruction as an item. -/
def instructionJson (instruction : CanonicalInstruction) : Json :=
  obj [("type", str "message"), ("role", str instruction.role.name),
    ("content", .array (instruction.content.map fun text =>
      obj [("type", str "input_text"), ("text", .string text)]))]

/-- The type of a role's texts. -/
def textType : MessageRole → String
  | .assistant => "output_text"
  | .user => "input_text"

/-- A text as a block. -/
def textItem (role : MessageRole) (text : JsString) : Json :=
  obj [("type", str (textType role)), ("text", .string text)]

/-- An image as a block. -/
def imageItem (source : ImageSource) : Json :=
  obj ([("type", str "input_image"), ("image_url", .string source.address)] ++
    source.detailFields)

/-- A tool call as an item. -/
def callItem (id name arguments : NonEmpty) : Json :=
  obj [("type", str "function_call"), ("call_id", .string id.1), ("name", .string name.1),
    ("arguments", .string arguments.1)]

/-- A tool result as an item. -/
def outputItem (id : NonEmpty) (content : List JsString) : Json :=
  obj [("type", str "function_call_output"), ("call_id", .string id.1),
    ("output", .string (joinLines content))]

/-- The message of the content collected so far. -/
def flushContent (role : MessageRole) (content : List Json) : List Json :=
  if content.isEmpty then []
  else [obj [("type", str "message"), ("role", str role.name), ("content", .array content)]]

/-- The items of a message's parts, where `content` is collected and not yet flushed. -/
def items (role : MessageRole) : List Json → List Part → List Json
  | content, [] => flushContent role content
  | content, .text text :: parts => items role (content ++ [textItem role text]) parts
  | content, .image source :: parts => items role (content ++ [imageItem source]) parts
  | content, .toolCall id name arguments :: parts =>
    flushContent role content ++ callItem id name arguments :: items role [] parts
  | content, .toolResult id texts _ :: parts =>
    flushContent role content ++ outputItem id texts :: items role [] parts

/-- A tool's definition. -/
def toolJson (tool : CanonicalTool) : Json :=
  obj ([("type", str "function"), ("name", .string tool.name.1)] ++ descriptionFields tool ++
    [("parameters", .object tool.inputSchema)])

/-- Which tool is to be called. -/
def toolChoiceJson : CanonicalToolChoice → Json
  | .auto => str "auto"
  | .none => str "none"
  | .required => str "required"
  | .tool name => obj [("type", str "function"), ("name", .string name.1)]

/-- The items of a turn. -/
def messageJson (message : CanonicalMessage) : Adapted (List Json) :=
  .ok (items message.role [] message.content)

/-- The entries of `input`: every instruction, and then every message. -/
def entries (request : CanonicalRequest) : Adapted (List (ℤ × Json)) := do
  let rest ← positionedMessages messageJson request.messages
  return request.instructions.flatMap (fun instruction =>
    positioned instruction.sourceIndex [instructionJson instruction]) ++ rest

end Responses

open Responses in
/-- A canonical request as a responses request. -/
def renderOpenAiResponsesRequest (request : CanonicalRequest) (model : JsString)
    (reasoning : Option ReasoningRenderControl) : Adapted (List (String × Json)) := do
  refuseIf request.sampling.topK.isSome (notAdaptable "top_k")
  let reasoningFields ← reasoningWireFieldsForRequest request .openaiResponses reasoning
  refuseIf (request.sampling.stop.any fun stop => !stop.1.isEmpty)
    (unsupported "stop" "OpenAI Responses has no lossless stop-sequence control")
  let input ← entries request
  return [("model", .string model), ("input", .array (input.map Prod.snd))] ++
    (if request.tools.isEmpty then [] else [("tools", .array (request.tools.map toolJson))]) ++
    (if request.tools.isEmpty then [] else [("parallel_tool_calls", .bool false)]) ++
    optionalField "tool_choice" (request.toolChoice.map toolChoiceJson) ++
    [("stream", .bool request.stream), ("store", .bool false)] ++
    optionalField "temperature" (request.sampling.temperature.map fractionJson) ++
    optionalField "top_p" (request.sampling.topP.map fractionJson) ++
    optionalField "max_output_tokens" (request.sampling.maxOutputTokens.map integerJson) ++
    reasoningFields

end ModelProxy.Protocols
