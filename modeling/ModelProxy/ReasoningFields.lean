import ModelProxy.ParseUtils

/-! # Reasoning controls of a rendered request

How the `thinking` of a canonical request is written for the target, by what the target is
configured to understand.
-/
namespace ModelProxy.Protocols

open ModelProxy.Js
open ModelProxy.Js.Json (obj str nat)

/-- How hard a model thinks. -/
inductive ReasoningLevel
  | none
  | minimal
  | low
  | medium
  | high
  | xhigh
  | max
deriving DecidableEq, Repr

namespace ReasoningLevel

/-- The level as a request writes it. -/
def name : ReasoningLevel → String
  | none => "none"
  | minimal => "minimal"
  | low => "low"
  | medium => "medium"
  | high => "high"
  | xhigh => "xhigh"
  | max => "max"

/-- The levels that have a budget. -/
def budgetLevels : List ReasoningLevel := [minimal, low, medium, high, xhigh, max]

/-- The tokens a level stands for. -/
def defaultBudget : ReasoningLevel → ℕ
  | none => 0
  | minimal => 1024
  | low => 2048
  | medium => 8192
  | high => 16384
  | xhigh => 32768
  | max => 65536

end ReasoningLevel

/-- How a model takes its level. -/
inductive ReasoningEncoding
  | openaiReasoningEffort
  | openaiReasoningObject
  | openaiOutputConfigEffort
  | openaiTopLevelEffort
  | anthropicThinking (budgetByLevel : ReasoningLevel → Option ℕ)
  | anthropicAdaptiveThinking
  | anthropicOutputConfigEffort

namespace ReasoningEncoding

/-- An encoding by effort. -/
def isOpenAi : ReasoningEncoding → Bool
  | openaiReasoningEffort | openaiReasoningObject | openaiOutputConfigEffort
  | openaiTopLevelEffort => true
  | _ => false

/-- The encoding of a surface that names none. -/
def default : ProtocolSurface → ReasoningEncoding
  | .openaiChat => openaiReasoningEffort
  | .openaiResponses => openaiReasoningObject
  | .anthropicMessages => anthropicThinking fun _ => .none

end ReasoningEncoding

/-- What is known of a model's reasoning. -/
structure ReasoningConfig where
  supportedLevels : Option (List ReasoningLevel)
  defaultLevel : Option ReasoningLevel
  encoding : Option ReasoningEncoding

/-- Whether a model reasons, and how it is told. -/
structure ReasoningRenderControl where
  supported : Bool
  config : Option ReasoningConfig

/-- The thinking budget a level is encoded as. -/
def thinkingBudget (budgetByLevel : ReasoningLevel → Option ℕ) (level : ReasoningLevel) : ℕ :=
  (budgetByLevel level).getD level.defaultBudget

/-- The level as an object. -/
def effort (selection : ReasoningLevel) : Json := obj [("effort", str selection.name)]

/-- `encodeReasoning`, where `none` is an encoding of the wrong kind for the surface. -/
def encodeReasoning (surface : ProtocolSurface) (selection : ReasoningLevel)
    (config : Option ReasoningConfig) : Option (List (String × Json)) :=
  let encoding := (config.bind ReasoningConfig.encoding).getD (.default surface)
  if encoding.isOpenAi ≠ decide (surface ≠ .anthropicMessages) then none
  else
    match encoding with
    | .openaiReasoningEffort => some [("reasoning_effort", str selection.name)]
    | .openaiReasoningObject => some [("reasoning", effort selection)]
    | .openaiOutputConfigEffort => some [("output_config", effort selection)]
    | .openaiTopLevelEffort => some [("effort", str selection.name)]
    | .anthropicOutputConfigEffort => some [("output_config", effort selection)]
    | .anthropicAdaptiveThinking =>
      if selection = .none then some [("thinking", obj [("type", str "disabled")])]
      else some [("thinking", obj [("type", str "adaptive")]), ("output_config", effort selection)]
    | .anthropicThinking budgetByLevel =>
      if selection = .none then
        some [("thinking", obj [("type", str "disabled")]), ("max_tokens", nat 1024)]
      else
        let budget := thinkingBudget budgetByLevel selection
        some [("thinking", obj [("type", str "enabled"), ("budget_tokens", nat budget)]),
          ("max_tokens", nat (budget + 1024))]

/-- The budgets Anthropic levels are looked up in: the configured ones and then the default
ones. -/
def budgetTables (config : Option ReasoningConfig) : List (ReasoningLevel → Option ℕ) :=
  match config.bind ReasoningConfig.encoding with
  | some (.anthropicThinking budgetByLevel) => [budgetByLevel, fun _ => none]
  | _ => [fun _ => none]

/-- The level of a budget. -/
def levelForAnthropicBudget (budget : ℕ) (config : Option ReasoningConfig) :
    Option ReasoningLevel :=
  (budgetTables config).findSome? fun table =>
    ReasoningLevel.budgetLevels.find? fun level => decide (thinkingBudget table level = budget)

/-- A level the target does not list is refused. -/
def supportedLevel (config : Option ReasoningConfig) (level : ReasoningLevel) :
    Adapted ReasoningLevel :=
  match config.bind ReasoningConfig.supportedLevels with
  | some levels => if levels.contains level then .ok level else .error (notAdaptable "thinking")
  | none => .ok level

/-- The level a request asks for. -/
def selectionForThinking (thinking : CanonicalThinking) (config : Option ReasoningConfig) :
    Adapted ReasoningLevel :=
  match thinking with
  | .disabled => .ok .none
  | .enabled budget =>
    match levelForAnthropicBudget budget config with
    | some level => supportedLevel config level
    | none => .error (notAdaptable "thinking")
  | .adaptive =>
    match config.bind ReasoningConfig.defaultLevel with
    | some .none | none => .error (notAdaptable "thinking")
    | some level => supportedLevel config level

/-- The fields that carry reasoning. -/
def reasoningWireFields : List String :=
  ["thinking", "reasoning", "reasoning_effort", "effort", "output_config"]

/-- The fields of an encoding that are sent. -/
def pickReasoningWireFields (encoded : List (String × Json)) : List (String × Json) :=
  reasoningWireFields.filterMap fun field => (encoded.lookup field).map fun v => (field, v)

/-- The fields of a request's thinking. -/
def encodedThinking (thinking : CanonicalThinking) (surface : ProtocolSurface)
    (config : Option ReasoningConfig) : Adapted (List (String × Json)) := do
  let selection ← selectionForThinking thinking config
  match encodeReasoning surface selection config with
  | some encoded => .ok (pickReasoningWireFields encoded)
  | none => .error (notAdaptable "thinking")

/-- The fields a request is sent with. -/
def reasoningWireFieldsForRequest (request : CanonicalRequest) (surface : ProtocolSurface)
    (reasoning : Option ReasoningRenderControl) : Adapted (List (String × Json)) :=
  match request.thinking with
  | none => .ok []
  | some thinking =>
    match reasoning with
    | some ⟨true, config⟩ => encodedThinking thinking surface config
    | _ => if thinking = .disabled then .ok [] else .error (notAdaptable "thinking")

end ModelProxy.Protocols
