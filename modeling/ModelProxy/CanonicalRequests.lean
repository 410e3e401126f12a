import ModelProxy.Json

/-! # Canonical requests

What the three request formats of the model API are parsed to and rendered from.  A value that
a parser lets through only after a check carries that check: a non-empty string, a fraction, a
positive integer, the data of an image.
-/
namespace ModelProxy.Protocols

open ModelProxy.Js

/-- A string literal where a string is needed. -/
scoped instance : Coe String JsString := ⟨js⟩

/-! ## Errors -/

/-- What the protocol adapters throw. -/
structure AdapterError where
  code : String
  message : JsString
  parameter : Option JsString
deriving DecidableEq

/-- What an adapter returns or throws. -/
abbrev Adapted (α : Type) := Except AdapterError α

/-- A feature that cannot be adapted. -/
def unsupported (parameter reason : JsString) : AdapterError :=
  ⟨"unsupported_feature", parameter ++ " " ++ reason ++ ".", some parameter⟩

/-- `unsupported` with its own reason. -/
def notAdaptable (parameter : JsString) : AdapterError :=
  unsupported parameter "is not safely adaptable"

/-- A request that is not well formed. -/
def invalid (parameter reason : JsString) : AdapterError :=
  ⟨"invalid_request", parameter ++ " " ++ reason ++ ".", some parameter⟩

/-- A check that throws. -/
def refuseIf (bad : Bool) (e : AdapterError) : Adapted Unit := if bad then .error e else .ok ()

@[simp] theorem refuseIf_eq_ok {bad : Bool} {e : AdapterError} {u : Unit} :
    refuseIf bad e = .ok u ↔ bad = false := by
  cases bad <;> simp [refuseIf]

theorem refuseIf_ok {bad : Bool} (h : bad = false) (e : AdapterError) : refuseIf bad e = .ok () :=
  refuseIf_eq_ok.mpr h

@[simp] theorem ok_bind {α β : Type} (a : α) (f : α → Adapted β) :
    ((Except.ok a : Adapted α) >>= f) = f a := rfl

@[simp] theorem error_bind {α β : Type} (e : AdapterError) (f : α → Adapted β) :
    ((Except.error e : Adapted α) >>= f) = .error e := rfl

/-- The path of an entry of an array. -/
def entryPath (path : JsString) (i : ℕ) : JsString := path ++ "[" ++ digitText i ++ "]"

/-- A function of index and entry over an array, up to the first error. -/
def mapEntries (f : ℕ → α → Except ε β) : ℕ → List α → Except ε (List β)
  | _, [] => .ok []
  | i, x :: xs => do
      let y ← f i x
      let ys ← mapEntries f (i + 1) xs
      return y :: ys

/-! ## Checked values -/

/-- A string `string` has let through. -/
abbrev NonEmpty := { s : JsString // s ≠ [] }

/-- The signed value of a finite number. -/
def signed (x : Finite) : ℚ := if x.negative then -x.magnitude else x.magnitude

/-- A sampling control within 0 through 1. -/
abbrev Fraction := { x : Finite // 0 ≤ signed x ∧ signed x ≤ 1 }

/-- A whole number above 0. -/
abbrev PositiveInteger := { x : Finite // x.isInteger = true ∧ 0 < signed x }

/-- One to four stop sequences. -/
abbrev StopSequences := { values : List JsString // 1 ≤ values.length ∧ values.length ≤ 4 }

/-- A unit of `[A-Za-z0-9+/]`. -/
def isBase64Unit (u : UInt16) : Bool :=
  (65 ≤ u && u ≤ 90) || (97 ≤ u && u ≤ 122) || isDigit u || u == 43 || u == 47

/-- `[A-Za-z0-9+/]*={0,2}`. -/
def paddedBase64 (data : JsString) : Bool :=
  [[], [unit '='], [unit '=', unit '=']].contains (data.dropWhile isBase64Unit)

/-- The data of an image. -/
abbrev ImageData :=
  { data : JsString // data ≠ [] ∧ paddedBase64 data = true ∧ data.length % 4 = 0 }

/-- An address the adapters pass on. -/
abbrev ImageUrl := { url : JsString // (js "https://").isPrefixOf url = true }

/-! ## Requests -/

/-- The protocols that are adapted. -/
inductive ProtocolSurface
  | openaiChat
  | openaiResponses
  | anthropicMessages
deriving DecidableEq, Repr

/-- Who gives an instruction. -/
inductive InstructionRole
  | system
  | developer
deriving DecidableEq, Repr

/-- Who speaks in a turn. -/
inductive MessageRole
  | user
  | assistant
deriving DecidableEq, Repr

/-- How closely a model looks at an image. -/
inductive ImageDetail
  | auto
  | low
  | high
deriving DecidableEq, Repr

/-- The image types all protocols take. -/
inductive MediaType
  | jpeg
  | png
  | gif
  | webp
deriving DecidableEq, Repr

/-- An image by its address or its data. -/
inductive ImageSource
  | url (url : ImageUrl) (detail : Option ImageDetail)
  | base64 (mediaType : MediaType) (data : ImageData)
deriving DecidableEq

/-- A part of a message. -/
inductive Part
  | text (text : JsString)
  | image (source : ImageSource)
  | toolCall (id name arguments : NonEmpty)
  | toolResult (toolCallId : NonEmpty) (content : List JsString) (isError : Bool)
deriving DecidableEq

namespace Part

/-- The part is an image. -/
def isImage : Part → Bool
  | image _ => true
  | _ => false

/-- The part is a tool call. -/
def isToolCall : Part → Bool
  | toolCall .. => true
  | _ => false

/-- The part is a tool result. -/
def isToolResult : Part → Bool
  | toolResult .. => true
  | _ => false

end Part

/-- An instruction and its place in the source. -/
structure CanonicalInstruction where
  role : InstructionRole
  content : List JsString
  /-- `boundary.sourceIndex`. -/
  sourceIndex : ℤ

/-- A turn and its place in the source. -/
structure CanonicalMessage where
  role : MessageRole
  content : List Part
  /-- `boundary.sourceIndex`. -/
  sourceIndex : ℤ

/-- What an entry of a conversation is parsed to. -/
inductive Turn
  | instruction (instruction : CanonicalInstruction)
  | message (message : CanonicalMessage)

namespace Turn

/-- The instruction, if it is one. -/
def instruction? : Turn → Option CanonicalInstruction
  | instruction i => some i
  | message _ => none

/-- The message, if it is one. -/
def message? : Turn → Option CanonicalMessage
  | instruction _ => none
  | message m => some m

/-- The place in the source. -/
def sourceIndex : Turn → ℤ
  | instruction i => i.sourceIndex
  | message m => m.sourceIndex

end Turn

/-- A tool the client defines. -/
structure CanonicalTool where
  name : NonEmpty
  description : Option JsString
  inputSchema : Members

/-- Which tool a model is to call. -/
inductive CanonicalToolChoice
  | auto
  | none
  | required
  | tool (name : NonEmpty)
deriving DecidableEq

/-- Whether a model may think, and how long. -/
inductive CanonicalThinking
  | disabled
  | enabled (budgetTokens : ℕ)
  | adaptive
deriving DecidableEq

/-- How tokens are drawn. -/
structure Sampling where
  temperature : Option Fraction
  topP : Option Fraction
  topK : Option ℕ
  stop : Option StopSequences
  maxOutputTokens : Option PositiveInteger

/-- A request of any protocol. -/
structure CanonicalRequest where
  source : ProtocolSurface
  model : NonEmpty
  instructions : List CanonicalInstruction
  messages : List CanonicalMessage
  tools : List CanonicalTool
  toolChoice : Option CanonicalToolChoice
  stream : Bool
  sampling : Sampling
  thinking : Option CanonicalThinking
  limitations : List String

end ModelProxy.Protocols
