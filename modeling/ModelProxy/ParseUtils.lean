import ModelProxy.CanonicalRequests

/-! # Checks the request parsers share

Each function throws what the source throws, with the path of the field it looked at.
-/
namespace ModelProxy.Protocols

open ModelProxy.Js List
open ModelProxy.Js.Json (isStr isBool nullish orElse)

/-- The members of an object. -/
def object (value : Option Json) (parameter : JsString) : Adapted Members :=
  match value with
  | some (.object members) => .ok members
  | _ => .error (invalid parameter "must be an object")

/-- A text that is not empty. -/
def string (value : Option Json) (parameter : JsString) : Adapted NonEmpty :=
  match value with
  | some (.string s) =>
    if h : s ≠ [] then .ok ⟨s, h⟩
    else .error (invalid parameter "must be a non-empty string")
  | _ => .error (invalid parameter "must be a non-empty string")

/-- Only the first unknown key is looked at, and an empty key is no key. -/
def rejectUnknown (value : Members) (allowed : List String) (path : JsString) : Adapted Unit :=
  match value.find? fun member => !allowed.any fun key => member.1 == js key with
  | some (key, _) =>
    refuseIf (!key.isEmpty)
      (unsupported (path ++ "." ++ key) "has unknown semantics and is not safely adaptable")
  | none => .ok ()

theorem object_obj (fs : List (String × Json)) (param : JsString) :
    object (some (Json.obj fs)) param =
      .ok (fs.map fun f => (js f.1, f.2)) := rfl

theorem string_ok {s : JsString} (h : s ≠ []) (param : JsString) :
    string (some (.string s)) param = .ok ⟨s, h⟩ := dif_pos h

/-- An object literal of allowed keys has no unknown one. -/
theorem rejectUnknown_map {fs : List (String × Json)} {allowed : List String}
    (h : ∀ f ∈ fs, f.1 ∈ allowed) (path : JsString) :
    rejectUnknown (fs.map fun f => (js f.1, f.2)) allowed path = .ok () := by
  have hno : (fs.map fun f => (js f.1, f.2)).find?
      (fun member => !allowed.any fun key => member.1 == js key) = none := by
    rw [find?_eq_none]
    intro member hmb
    obtain ⟨f, hf, rfl⟩ := mem_map.mp hmb
    simpa using h f hf
  rw [rejectUnknown, hno]

/-! ## Texts -/

/-- A block of text under one of the given types. -/
def textBlock (types : List String) (path : JsString) (entry : Json) : Adapted JsString := do
  let block ← object (some entry) path
  rejectUnknown block ["type", "text"] path
  refuseIf (!types.any fun type => isStr (get block "type") type) (notAdaptable (path ++ ".type"))
  let text ← string (get block "text") (path ++ ".text")
  return text.1

/-- A text, or an array of blocks of text. -/
def textsOf (types : List String) (reason : String) (value : Option Json) (parameter : JsString) :
    Adapted (List JsString) :=
  match value with
  | some (.string s) => .ok [s]
  | some (.array entries) =>
    mapEntries (fun i => textBlock types (entryPath parameter i)) 0 entries
  | _ => .error (invalid parameter reason)

/-- A text, or a list of text blocks. -/
def texts : Option Json → JsString → Adapted (List JsString) :=
  textsOf ["text"] "must be text or an array of text blocks"

/-! ## Tools -/

/-- The shapes of tool definitions. -/
inductive ToolShape
  | openaiChat
  | openaiResponses
  | anthropic
deriving DecidableEq, Repr

/-- Only tools the client defines are adapted. -/
def functionType (path : JsString) (tool : Members) : Adapted Unit :=
  refuseIf (!isStr (get tool "type") "function")
    (unsupported (path ++ ".type") "must be a client-defined function")

/-- The object that holds a tool's own fields. -/
def toolFields (shape : ToolShape) (path : JsString) (tool : Members) : Adapted Members :=
  match shape with
  | .openaiChat => do
      rejectUnknown tool ["type", "function"] path
      functionType path tool
      object (get tool "function") (path ++ ".function")
  | .openaiResponses => do
      rejectUnknown tool ["type", "name", "description", "parameters", "strict"] path
      functionType path tool
      return tool
  | .anthropic => .ok tool

/-- The fields of a tool definition. -/
def toolKeys (shape : ToolShape) : List String :=
  (if shape = .openaiResponses then ["type"] else []) ++
    ["name", "description", "parameters", "input_schema", "strict"]

/-- `value !== undefined && typeof value !== "boolean"`. -/
def notBoolean : Option Json → Bool
  | none | some (.bool _) => false
  | _ => true

/-- `value !== undefined && typeof value !== "string"`. -/
def notText : Option Json → Bool
  | none | some (.string _) => false
  | _ => true

/-- The string, if it is one. -/
def asText : Option Json → Option JsString
  | some (.string s) => some s
  | _ => none

/-- A tool's definition. -/
def parseTool (shape : ToolShape) (path : JsString) (entry : Json) : Adapted CanonicalTool := do
  let entry ← object (some entry) path
  let tool ← toolFields shape path entry
  rejectUnknown tool (toolKeys shape) path
  refuseIf (notBoolean (get tool "strict")) (invalid (path ++ ".strict") "must be a boolean")
  refuseIf (isBool (get tool "strict") true)
    (unsupported (path ++ ".strict") "structured output is not safely adaptable")
  refuseIf (notText (get tool "description")) (invalid (path ++ ".description") "must be text")
  let schema ← object (orElse (get tool "parameters") (get tool "input_schema"))
    (path ++ ".input_schema")
  let name ← string (get tool "name") (path ++ ".name")
  return ⟨name, asText (get tool "description"), schema⟩

/-- No two tools have one name. -/
def uniqueNames (parameter : JsString) : ℕ → List NonEmpty → List CanonicalTool → Adapted Unit
  | _, _, [] => .ok ()
  | i, names, tool :: tools => do
      refuseIf (names.contains tool.name)
        (invalid (entryPath parameter i ++ ".name") "must be unique")
      uniqueNames parameter (i + 1) (tool.name :: names) tools

/-- The tools of a request. -/
def parseTools (value : Option Json) (parameter : JsString) (shape : ToolShape) :
    Adapted (List CanonicalTool) :=
  match value with
  | none => .ok []
  | some (.array entries) => do
      let tools ← mapEntries (fun i => parseTool shape (entryPath parameter i)) 0 entries
      uniqueNames parameter 0 [] tools
      return tools
  | some _ => .error (invalid parameter "must be an array")

/-- The tool that is to be called is one of the tools. -/
def validateToolChoice (choice : Option CanonicalToolChoice) (tools : List CanonicalTool) :
    Adapted Unit :=
  match choice with
  | none => .ok ()
  | some choice => do
      refuseIf (tools.isEmpty && decide (choice ≠ .none))
        (invalid "tool_choice" "requires at least one declared tool")
      match choice with
      | .tool name =>
        refuseIf (!tools.any fun tool => tool.name = name)
          (invalid "tool_choice" (js "references undeclared tool " ++ name.1))
      | _ => .ok ()

/-- A choice is valid where it can be made: without tools only `none`, and by the name of a
tool. -/
theorem validateToolChoice_eq_ok {choice : Option CanonicalToolChoice} {ts : List CanonicalTool} :
    validateToolChoice choice ts = .ok () ↔
      (ts = [] → choice = none ∨ choice = some .none) ∧
        ∀ name, choice = some (.tool name) → name ∈ ts.map CanonicalTool.name := by
  rcases choice with _ | (_ | _ | _ | name)
  · simp [validateToolChoice]
  · cases ts <;> simp [validateToolChoice, refuseIf]
  · cases ts <;> simp [validateToolChoice, refuseIf]
  · cases ts <;> simp [validateToolChoice, refuseIf]
  · cases ts with
    | nil => simp [validateToolChoice, refuseIf]
    | cons tool ts =>
      have hn : validateToolChoice (some (.tool name)) (tool :: ts) =
          refuseIf (!(tool :: ts).any fun tool => tool.name = name)
            (invalid "tool_choice" (js "references undeclared tool " ++ name.1)) := rfl
      rw [hn, refuseIf_eq_ok, Bool.not_eq_false', any_eq_true]
      simp [eq_comm]

/-- The choice as chat and responses write it. -/
def parseOpenAiToolChoice (value : Option Json) : Adapted (Option CanonicalToolChoice) :=
  if value.isNone then .ok none
  else if isStr value "auto" then .ok (some .auto)
  else if isStr value "none" then .ok (some .none)
  else if isStr value "required" then .ok (some .required)
  else do
    let choice ← object value "tool_choice"
    rejectUnknown choice ["type", "function"] "tool_choice"
    refuseIf (!isStr (get choice "type") "function") (notAdaptable "tool_choice.type")
    let fn ← object (get choice "function") "tool_choice.function"
    rejectUnknown fn ["name"] "tool_choice.function"
    let name ← string (get fn "name") "tool_choice.function.name"
    return some (.tool name)

/-- The choice an Anthropic `type` names. -/
def anthropicChoice (choice : Members) : Adapted CanonicalToolChoice :=
  if isStr (get choice "type") "auto" then .ok .auto
  else if isStr (get choice "type") "none" then .ok .none
  else if isStr (get choice "type") "any" then .ok .required
  else if isStr (get choice "type") "tool" then
    (string (get choice "name") "tool_choice.name").map .tool
  else .error (invalid "tool_choice.type" "is invalid")

/-- The choice as messages write it. -/
def parseAnthropicToolChoice (value : Option Json) : Adapted (Option CanonicalToolChoice) :=
  if value.isNone then .ok none
  else do
    let choice ← object value "tool_choice"
    rejectUnknown choice ["type", "name", "disable_parallel_tool_use"] "tool_choice"
    refuseIf (!isBool (get choice "disable_parallel_tool_use") true)
      (unsupported "tool_choice.disable_parallel_tool_use"
        "must be true to opt into safe single-call adaptation")
    refuseIf (!isStr (get choice "type") "tool" && (get choice "name").isSome)
      (invalid "tool_choice.name" "is only valid for a named tool choice")
    let named ← anthropicChoice choice
    return some named

/-- The error paths and texts of one format's `validateMessageToolIds`. -/
structure ToolIdErrors where
  call : AdapterError
  result : AdapterError
  unknown : AdapterError

/-- Calls have their own ids; a result names an earlier call, and no two name one. -/
def validateToolIds (errors : ToolIdErrors) :
    List NonEmpty → List NonEmpty → List Part → Adapted Unit
  | _, _, [] => .ok ()
  | calls, results, .toolCall id _ _ :: parts => do
      refuseIf (calls.contains id) errors.call
      validateToolIds errors (id :: calls) results parts
  | calls, results, .toolResult id _ _ :: parts => do
      refuseIf (results.contains id) errors.result
      refuseIf (!calls.contains id) errors.unknown
      validateToolIds errors calls (id :: results) parts
  | calls, results, _ :: parts => validateToolIds errors calls results parts

/-- Every tool result follows its call. -/
def validateMessageToolIds (errors : ToolIdErrors) (messages : List CanonicalMessage) :
    Adapted Unit :=
  validateToolIds errors [] [] (messages.flatMap CanonicalMessage.content)

/-! ## Controls -/

/-- `boolean`, whose default is `false` in every call. -/
def boolean (value : Option Json) (parameter : JsString) : Adapted Bool :=
  match value with
  | none => .ok false
  | some (.bool b) => .ok b
  | some _ => .error (invalid parameter "must be a boolean")

/-- A number from 0 to 1. -/
def fraction (body : Members) (key : String) : Adapted (Option Fraction) :=
  match get body key with
  | none => .ok none
  | some (.number (.finite x)) =>
    if h : 0 ≤ signed x ∧ signed x ≤ 1 then .ok (some ⟨x, h⟩)
    else .error (invalid key "must be within the cross-protocol range 0 through 1")
  | some _ => .error (invalid key "must be finite")

/-- A whole number above 0. -/
def positiveInteger (value : Option Json) (key : String) : Adapted (Option PositiveInteger) :=
  match value with
  | none => .ok none
  | some (.number (.finite x)) =>
    if h : x.isInteger = true ∧ 0 < signed x then .ok (some ⟨x, h⟩)
    else .error (invalid key "must be a positive integer")
  | some _ => .error (invalid key "must be a positive integer")

/-- The strings of `stop`, a string alone standing for itself. -/
def stopValues (rawStop : Json) : Adapted (List JsString) :=
  match rawStop with
  | .string s => .ok [s]
  | .array entries =>
    mapEntries (fun _ entry =>
      match entry with
      | .string s => .ok s
      | _ => .error (invalid "stop" "must contain strings")) 0 entries
  | _ => .error (invalid "stop" "must contain strings")

/-- A stop sequence, or several. -/
def parseStop (rawStop : Option Json) : Adapted (Option StopSequences) :=
  match rawStop with
  | none => .ok none
  | some rawStop => do
      let values ← stopValues rawStop
      if h : 1 ≤ values.length ∧ values.length ≤ 4 then
        if values.any fun value => value.isEmpty || decide (256 < byteLength value) then
          .error (invalid "stop" "must contain non-empty strings no larger than 256 bytes")
        else .ok (some ⟨values, h⟩)
      else .error (invalid "stop" "must contain between 1 and 4 strings")

/-- `sampling(body, maxKey)`, where `max` is what `body[maxKey]` holds. -/
def sampling (body : Members) (maxKey : String) (max : Option Json) : Adapted Sampling := do
  let temperature ← fraction body "temperature"
  let topP ← fraction body "top_p"
  let maxOutputTokens ← positiveInteger max maxKey
  let stop ← parseStop (orElse (get body "stop") (get body "stop_sequences"))
  return ⟨temperature, topP, none, stop, maxOutputTokens⟩

/-! ## Images -/

/-- The type as a header writes it. -/
def MediaType.name : MediaType → String
  | jpeg => "image/jpeg"
  | png => "image/png"
  | gif => "image/gif"
  | webp => "image/webp"

/-- The type of a name. -/
def mediaType (name : JsString) : Option MediaType :=
  [MediaType.jpeg, .png, .gif, .webp].find? fun type => name == js type.name

/-- The detail as a request writes it. -/
def ImageDetail.name : ImageDetail → String
  | auto => "auto"
  | low => "low"
  | high => "high"

/-- The detail of a name. -/
def imageDetail (value : Json) : Option ImageDetail :=
  [ImageDetail.auto, .low, .high].find? fun detail => isStr (some value) detail.name

/-- `^data:([^;,]+);base64,(…)$`: the media type and what follows. -/
def dataUrl (url : JsString) : Option (JsString × JsString) :=
  let separator := fun u => u == unit ';' || u == unit ','
  if (js "data:").isPrefixOf url then
    let type := (url.drop 5).takeWhile fun u => !separator u
    let rest := (url.drop 5).dropWhile fun u => !separator u
    if !type.isEmpty && (js ";base64,").isPrefixOf rest && paddedBase64 (rest.drop 8) then
      some (type, rest.drop 8)
    else none
  else none

/-- An image given by its own data. -/
def parseDataUrl (url : JsString) (parameter : JsString) : Adapted ImageSource :=
  match (dataUrl url).bind fun (type, data) => (mediaType type).map fun type => (type, data) with
  | none => .error (unsupported parameter "must be HTTPS or base64 JPEG, PNG, GIF, or WebP")
  | some (type, data) =>
    if h : data ≠ [] ∧ paddedBase64 data = true ∧ data.length % 4 = 0 then
      .ok (.base64 type ⟨data, h⟩)
    else .error (invalid parameter "contains invalid base64")

/-- A detail that may be missing. -/
def parseDetail (parameter : JsString) (detail : Option Json) : Adapted (Option ImageDetail) :=
  match detail with
  | none => .ok none
  | some value =>
    match imageDetail value with
    | some detail => .ok (some detail)
    | none => .error (invalid (parameter ++ ".detail") "is invalid")

/-- An address, or data written into one. -/
def parseImageUrl (value : Option Json) (parameter : JsString) (detail : Option Json) :
    Adapted ImageSource := do
  let url ← string value parameter
  let detail ← parseDetail parameter detail
  if h : (js "https://").isPrefixOf url.1 = true then .ok (.url ⟨url.1, h⟩ detail)
  else if detail.isSome then
    .error (unsupported (parameter ++ ".detail") "cannot be preserved for base64 images")
  else parseDataUrl url.1 parameter

/-- `^(?:[A-Za-z0-9+/]{4})*(?:[A-Za-z0-9+/]{2}==|[A-Za-z0-9+/]{3}=)?$`. -/
def groupedBase64 (data : JsString) : Bool :=
  let groups := (data.takeWhile isBase64Unit).length
  let padding := data.dropWhile isBase64Unit
  (padding == [] && groups % 4 == 0) || (padding == [unit '=', unit '='] && groups % 4 == 2) ||
    (padding == [unit '='] && groups % 4 == 3)

/-- Whole groups are padded as the address of an image is, to a length of fours. -/
theorem padded_of_grouped {data : JsString} (h : groupedBase64 data = true) :
    paddedBase64 data = true ∧ data.length % 4 = 0 := by
  have hl : data.length = (data.takeWhile isBase64Unit).length +
      (data.dropWhile isBase64Unit).length := by
    rw [← length_append, takeWhile_append_dropWhile]
  simp only [groupedBase64, Bool.or_eq_true, Bool.and_eq_true, beq_iff_eq] at h
  rcases h with (⟨hp, hm⟩ | ⟨hp, hm⟩) | ⟨hp, hm⟩ <;>
    · rw [hp] at hl
      simp only [length_cons, length_nil] at hl
      exact ⟨by simp [paddedBase64, hp], by omega⟩

/-- Data in groups of four digits. -/
def validateBase64 (value : Option Json) (parameter : JsString) : Adapted ImageData := do
  let data ← string value parameter
  if h : groupedBase64 data.1 = true then .ok ⟨data.1, data.2, padded_of_grouped h⟩
  else .error (invalid parameter "must be valid base64")

/-- `JSON.parse` of a string within a request, with its own limit of depth. -/
def parseEmbeddedJson (value : JsString) (parameter : JsString) : Adapted Json :=
  match parse value with
  | none => .error (invalid parameter "must be a complete JSON object")
  | some parsed =>
    if requestJsonDepthExceeded parsed then
      .error ⟨"request_json_depth_exceeded", js "request JSON nesting exceeds " ++
        digitText maxRequestJsonDepth ++ js " levels", some parameter⟩
    else .ok parsed

end ModelProxy.Protocols
