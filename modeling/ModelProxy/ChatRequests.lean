import ModelProxy.ReasoningFields

/-! # OpenAI Chat requests

`parseOpenAiChatRequest` and `renderOpenAiChatRequest`.
-/
namespace ModelProxy.Protocols

open ModelProxy.Js
open ModelProxy.Js.Json (isStr isBool nullish obj orElse str)

/-- The role as chat writes it. -/
def InstructionRole.name : InstructionRole → String
  | system => "system"
  | developer => "developer"

/-- The role as chat writes it. -/
def MessageRole.name : MessageRole → String
  | user => "user"
  | assistant => "assistant"

/-- The roles of one format's entries, by their text. -/
def instructionRole (role : Option Json) : Option InstructionRole :=
  [InstructionRole.system, .developer].find? fun named => isStr role named.name

/-- The role a message names. -/
def messageRole (role : Option Json) : Option MessageRole :=
  [MessageRole.user, .assistant].find? fun named => isStr role named.name

/-- Developer instructions lose their authority in Anthropic's one channel. -/
def instructionLimitations (instructions : List CanonicalInstruction) : List String :=
  if instructions.any fun item => item.role = .developer then
    ["anthropic_instruction_authority_collapse"]
  else []

/-- The single-call rule of the two OpenAI formats. -/
def singleToolCalls (body : Members) (tools : List CanonicalTool) : Adapted Unit := do
  refuseIf (!tools.isEmpty && !isBool (get body "parallel_tool_calls") false)
    (invalid "parallel_tool_calls" "must explicitly be false when tools are adapted")
  refuseIf (isBool (get body "parallel_tool_calls") true)
    (unsupported "parallel_tool_calls" "parallel calls are not safely adaptable")
  refuseIf (notBoolean (get body "parallel_tool_calls"))
    (invalid "parallel_tool_calls" "must be a boolean")

namespace Chat

/-- The fields of a chat request that are adapted. -/
def rootKeys : List String :=
  ["model", "messages", "tools", "tool_choice", "stream", "temperature", "top_p", "stop",
    "max_tokens", "max_completion_tokens", "n", "user", "seed", "stream_options",
    "parallel_tool_calls"]

/-! ## Parsing -/

/-- A text or an image. -/
def contentBlock (path : JsString) (entry : Json) : Adapted Part := do
  let block ← object (some entry) path
  if isStr (get block "type") "text" then do
    rejectUnknown block ["type", "text"] path
    let text ← string (get block "text") (path ++ ".text")
    return .text text.1
  else if isStr (get block "type") "image_url" then do
    rejectUnknown block ["type", "image_url"] path
    let image ← object (get block "image_url") (path ++ ".image_url")
    rejectUnknown image ["url", "detail"] (path ++ ".image_url")
    let source ← parseImageUrl (get image "url") (path ++ ".image_url.url") (get image "detail")
    return .image source
  else .error (notAdaptable (path ++ ".type"))

/-- A text, or a list of blocks. -/
def content (value : Option Json) (parameter : JsString) : Adapted (List Part) :=
  match value with
  | some (.string s) => .ok [.text s]
  | some (.array entries) => mapEntries (fun i => contentBlock (entryPath parameter i)) 0 entries
  | _ => .error (invalid parameter "must be text or an array")

/-- A call of a function tool. -/
def toolCall (path : JsString) (rawCall : Json) : Adapted Part := do
  let call ← object (some rawCall) path
  rejectUnknown call ["id", "type", "function"] path
  refuseIf (!isStr (get call "type") "function") (notAdaptable (path ++ ".type"))
  let fn ← object (get call "function") (path ++ ".function")
  rejectUnknown fn ["name", "arguments"] (path ++ ".function")
  let id ← string (get call "id") "tool_call.id"
  let name ← string (get fn "name") "tool_call.function.name"
  let arguments ← string (get fn "arguments") "tool_call.function.arguments"
  return .toolCall id name arguments

/-- The calls of an assistant message. -/
def toolCalls (role : MessageRole) (path : JsString) (value : Option Json) :
    Adapted (List Part) :=
  match value with
  | none => .ok []
  | some (.array calls) =>
    if role = .assistant then
      mapEntries (fun i => toolCall (entryPath (path ++ ".tool_calls") i)) 0 calls
    else .error (invalid (path ++ ".tool_calls") "is invalid")
  | some _ => .error (invalid (path ++ ".tool_calls") "is invalid")

/-- Content that may be missing. -/
def optionalContent (value : Option Json) (parameter : JsString) : Adapted (List Part) :=
  if nullish value then .ok [] else content value parameter

/-- A system or developer message. -/
def instruction (path : JsString) (sourceIndex : ℕ) (role : InstructionRole) (message : Members) :
    Adapted Turn := do
  refuseIf ((get message "tool_calls").isSome || (get message "tool_call_id").isSome)
    (notAdaptable path)
  let content ← texts (get message "content") (path ++ ".content")
  return .instruction ⟨role, content, sourceIndex⟩

/-- A tool message. -/
def toolResult (path : JsString) (sourceIndex : ℕ) (message : Members) : Adapted Turn := do
  rejectUnknown message ["role", "content", "tool_call_id"] path
  let id ← string (get message "tool_call_id") (path ++ ".tool_call_id")
  let content ← texts (get message "content") (path ++ ".content")
  return .message ⟨.user, [.toolResult id content false], sourceIndex⟩

/-- A user or assistant message. -/
def turn (path : JsString) (sourceIndex : ℕ) (role : MessageRole) (message : Members) :
    Adapted Turn := do
  let parts ← optionalContent (get message "content") (path ++ ".content")
  refuseIf (decide (role = .assistant) && parts.any Part.isImage)
    (unsupported (path ++ ".content") "assistant images are not in the common subset")
  refuseIf (get message "tool_call_id").isSome (notAdaptable (path ++ ".tool_call_id"))
  let calls ← toolCalls role path (get message "tool_calls")
  return .message ⟨role, parts ++ calls, sourceIndex⟩

/-- An entry of `messages`, by its role. -/
def byRole (path : JsString) (sourceIndex : ℕ) (message : Members) : Adapted Turn :=
  match instructionRole (get message "role") with
  | some role => instruction path sourceIndex role message
  | none =>
    if isStr (get message "role") "tool" then toolResult path sourceIndex message
    else
      match messageRole (get message "role") with
      | some role => turn path sourceIndex role message
      | none => .error (invalid (path ++ ".role") "is unsupported")

/-- An entry of `messages`. -/
def parseEntry (sourceIndex : ℕ) (entry : Json) : Adapted Turn := do
  let path := entryPath "messages" sourceIndex
  let message ← object (some entry) path
  rejectUnknown message ["role", "content", "name", "tool_calls", "tool_call_id", "refusal"] path
  refuseIf ((get message "name").isSome || (get message "refusal").isSome) (notAdaptable path)
  byRole path sourceIndex message

/-- The entries of `messages`. -/
def parseEntries (value : Option Json) : Adapted (List Turn) :=
  match value with
  | some (.array entries) => mapEntries parseEntry 0 entries
  | _ => .error (invalid "messages" "must be an array")

/-- How chat names a repeated tool id. -/
def toolIdErrors : ToolIdErrors where
  call := invalid "messages.tool_calls.id" "must be unique"
  result := invalid "messages.tool_call_id" "must be unique"
  unknown := invalid "messages.tool_call_id" "references an unknown tool call"

/-- `body.n !== undefined && body.n !== 1`. -/
def severalCandidates : Option Json → Bool
  | none => false
  | some (.number x) => safeNatural x != some 1
  | some _ => true

/-- Settings that no other protocol can carry. -/
def refusedControls (body : Members) : Adapted Unit := do
  refuseIf (severalCandidates (get body "n"))
    (unsupported "n" "multiple candidates are not safely adaptable")
  refuseIf (get body "seed").isSome (notAdaptable "seed")
  refuseIf (get body "user").isSome
    (unsupported "user" "provider-side persisted identifiers are not adaptable")
  refuseIf (get body "stream_options").isSome (notAdaptable "stream_options")

end Chat

open Chat in
/-- A chat request as a canonical one. -/
def parseOpenAiChatRequest (input : Json) : Adapted CanonicalRequest := do
  let body ← object (some input) "body"
  rejectUnknown body rootKeys "body"
  refusedControls body
  let tools ← parseTools (get body "tools") "tools" .openaiChat
  singleToolCalls body tools
  refuseIf ((get body "max_tokens").isSome && (get body "max_completion_tokens").isSome)
    (invalid "max_tokens" "conflicts with max_completion_tokens")
  let turns ← parseEntries (get body "messages")
  let sampled ← sampling body "max_tokens"
    (orElse (get body "max_completion_tokens") (get body "max_tokens"))
  let toolChoice ← parseOpenAiToolChoice (get body "tool_choice")
  validateToolChoice toolChoice tools
  validateMessageToolIds toolIdErrors (turns.filterMap Turn.message?)
  let model ← string (get body "model") "model"
  let stream ← boolean (get body "stream") "stream"
  return {
    source := .openaiChat
    model := model
    instructions := turns.filterMap Turn.instruction?
    messages := turns.filterMap Turn.message?
    tools := tools
    toolChoice := toolChoice
    stream := stream
    sampling := sampled
    thinking := none
    limitations := instructionLimitations (turns.filterMap Turn.instruction?)
  }

/-! ## Rendering -/

/-- A text as a block of text. -/
def textJson (text : JsString) : Json := obj [("type", str "text"), ("text", .string text)]

/-- The address an image is given by in the OpenAI formats. -/
def ImageSource.address : ImageSource → JsString
  | url address _ => address.1
  | base64 type data => js "data:" ++ js type.name ++ js ";base64," ++ data.1

/-- The detail of an image, where it has one. -/
def ImageSource.detailFields : ImageSource → List (String × Json)
  | url _ (some detail) => [("detail", str detail.name)]
  | _ => []

/-- Texts joined to one. -/
def joinLines (texts : List JsString) : JsString := (js "\n").intercalate texts

/-- A description that is there and not empty. -/
def descriptionFields (tool : CanonicalTool) : List (String × Json) :=
  match tool.description with
  | some (u :: description) => [("description", .string (u :: description))]
  | _ => []

/-- The fields that are there where a value is. -/
def optionalField (key : String) (value : Option Json) : List (String × Json) :=
  match value with
  | some v => [(key, v)]
  | none => []

/-- A fraction as JSON. -/
def fractionJson (x : Fraction) : Json := .number (.finite x.1)

/-- A positive integer as JSON. -/
def integerJson (x : PositiveInteger) : Json := .number (.finite x.1)

/-- The stop sequences as JSON. -/
def stopJson (stop : StopSequences) : Json := .array (stop.1.map .string)

namespace Chat

/-- An instruction as a message. -/
def instructionJson (instruction : CanonicalInstruction) : Json :=
  obj [("role", str instruction.role.name),
    ("content",
      match instruction.content with
      | [text] => .string text
      | texts => .array (texts.map textJson))]

/-- A text or an image as a block. -/
def contentJson : Part → Option Json
  | .text text => some (textJson text)
  | .image source =>
    some (obj [("type", str "image_url"),
      ("image_url", obj (("url", .string source.address) :: source.detailFields))])
  | _ => none

/-- A tool call as an entry of `tool_calls`. -/
def toolCallJson : Part → Option Json
  | .toolCall id name arguments =>
    some (obj [("id", .string id.1), ("type", str "function"),
      ("function", obj [("name", .string name.1), ("arguments", .string arguments.1)])])
  | _ => none

/-- A tool result as a message. -/
def toolResultJson : Part → Option Json
  | .toolResult id content _ =>
    some (obj [("role", str "tool"), ("tool_call_id", .string id.1),
      ("content", .string (joinLines content))])
  | _ => none

/-- The message of a turn's content and calls, if it has any. -/
def turnJson (role : MessageRole) (contentParts toolCalls : List Json) : List Json :=
  if contentParts.isEmpty && toolCalls.isEmpty then []
  else
    [obj ([("role", str role.name),
      ("content", if contentParts.isEmpty then .null else .array contentParts)] ++
      if toolCalls.isEmpty then [] else [("tool_calls", .array toolCalls)])]

/-- The messages of a turn. -/
def messageJson (message : CanonicalMessage) : Adapted (List Json) := do
  refuseIf (message.content.any Part.isToolResult &&
      message.content.any fun part => !part.isToolResult)
    (unsupported "messages.content"
      "mixed tool results and other content cannot preserve ordering in Chat")
  return message.content.filterMap toolResultJson ++
    turnJson message.role (message.content.filterMap contentJson)
      (message.content.filterMap toolCallJson)

/-- A tool's definition. -/
def toolJson (tool : CanonicalTool) : Json :=
  obj [("type", str "function"),
    ("function", obj ([("name", .string tool.name.1)] ++ descriptionFields tool ++
      [("parameters", .object tool.inputSchema)]))]

/-- Which tool is to be called. -/
def toolChoiceJson : CanonicalToolChoice → Json
  | .auto => str "auto"
  | .none => str "none"
  | .required => str "required"
  | .tool name => obj [("type", str "function"), ("function", obj [("name", .string name.1)])]

end Chat

/-- What each turn renders to, with the position the turn had in its source. -/
def positioned (sourceIndex : ℤ) (entries : List Json) : List (ℤ × Json) :=
  entries.map fun entry => (sourceIndex, entry)

/-- The entries of messages in order, up to the first that cannot be rendered. -/
def positionedMessages (render : CanonicalMessage → Adapted (List Json)) :
    List CanonicalMessage → Adapted (List (ℤ × Json))
  | [] => .ok []
  | message :: messages => do
      let entries ← render message
      let rest ← positionedMessages render messages
      return positioned message.sourceIndex entries ++ rest

/-- The entries of `messages`: every instruction, and then every message. -/
def Chat.entries (request : CanonicalRequest) : Adapted (List (ℤ × Json)) := do
  let rest ← positionedMessages Chat.messageJson request.messages
  return request.instructions.flatMap (fun instruction =>
    positioned instruction.sourceIndex [Chat.instructionJson instruction]) ++ rest

/-- What the target of a chat request takes. -/
structure ChatRenderOptions where
  acceptsTopK : Bool
  streamUsage : Bool
  reasoning : Option ReasoningRenderControl

open Chat in
/-- A canonical request as a chat request. -/
def renderOpenAiChatRequest (request : CanonicalRequest) (model : JsString)
    (options : ChatRenderOptions) : Adapted (List (String × Json)) := do
  refuseIf (request.sampling.topK.isSome && !options.acceptsTopK) (notAdaptable "top_k")
  let reasoningFields ← reasoningWireFieldsForRequest request .openaiChat options.reasoning
  let messages ← entries request
  return [("model", .string model), ("messages", .array (messages.map Prod.snd))] ++
    (if request.tools.isEmpty then [] else [("tools", .array (request.tools.map toolJson))]) ++
    optionalField "tool_choice" (request.toolChoice.map toolChoiceJson) ++
    (if request.tools.isEmpty then [] else [("parallel_tool_calls", .bool false)]) ++
    [("stream", .bool request.stream)] ++
    (if request.stream && options.streamUsage then
      [("stream_options", obj [("include_usage", .bool true)])] else []) ++
    optionalField "temperature" (request.sampling.temperature.map fractionJson) ++
    optionalField "top_p" (request.sampling.topP.map fractionJson) ++
    optionalField "top_k" (request.sampling.topK.map Json.nat) ++
    optionalField "stop" (request.sampling.stop.map stopJson) ++
    optionalField "max_completion_tokens" (request.sampling.maxOutputTokens.map integerJson) ++
    reasoningFields ++ [("n", Json.nat 1)]

end ModelProxy.Protocols
