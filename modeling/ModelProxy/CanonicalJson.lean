import ModelProxy.CommandOutput
import ModelProxy.Comparator
import ModelProxy.Doubles

/-! # Canonical JSON

The text the server and the node hash: keys in code point order, no white space, strings
escaped as `JSON.stringify` does, numbers written without an exponent or refused.  The
server writes JavaScript values (texts are UTF-16 code units), the node the values its JSON
parser made of what it received (texts are Unicode).
-/
namespace ModelProxy

namespace Finite

/-- The double `1e-6`. -/
def lowest : ℚ≥0 := ((0x10c6f7a0b5ed8d : ℕ) : ℚ≥0) / ((2 ^ 72 : ℕ) : ℚ≥0)

/-- The double `1e15`. -/
def highest : ℚ≥0 := ((10 ^ 15 : ℕ) : ℚ≥0)

/-- The decimal digits of an integer. -/
def decimal (negative : Bool) (n : ℕ) : List Char :=
  (if negative then ['-'] else []) ++ Nat.toDigits 10 n

end Finite

/-- Pieces one after another, with commas between them; the first error is the outcome. -/
def separated {ε α : Type} (comma : α) : List (Except ε (List α)) → Except ε (List α)
  | [] => .ok []
  | [piece] => piece
  | piece :: next :: pieces => do
      let text ← piece
      let rest ← separated comma (next :: pieces)
      return text ++ comma :: rest

/-! ## The server: `canonical-json.ts` -/

namespace CanonicalJson

open CommandOutput (literal textUnits isHighSurrogate isLowSurrogate)

/-- What the server may be asked to write.  An object is its `Object.entries`. -/
inductive JsValue
  | null
  | bool (flag : Bool)
  | number (x : Double)
  | string (units : List ℕ)
  | array (items : List JsValue)
  | object (entries : List (List ℕ × JsValue))
  | undefined
  /-- An object with a prototype of its own. -/
  | instanceObject
  /-- A function, a symbol or a bigint. -/
  | unsupported (typeName : String)

/-- Why a value has no canonical text. -/
structure CanonicalJsonError where
  message : String
  path : List ℕ
deriving DecidableEq, Repr

/-- The text of the thrown error. -/
def CanonicalJsonError.text (e : CanonicalJsonError) : List ℕ :=
  literal e.message ++ literal " at " ++ if e.path = [] then literal "$" else e.path

/-- A surrogate without its other half; `high`: a high surrogate goes before. -/
def loneSurrogate : List ℕ → Bool → Bool
  | [], high => high
  | unit :: units, high =>
    if isLowSurrogate unit then if high then loneSurrogate units false else true
    else high || loneSurrogate units (isHighSurrogate unit)

/-- A text by code points, as iterating over it gives them. -/
def codePoints : List ℕ → List ℕ
  | [] => []
  | [unit] => [unit]
  | unit :: next :: units =>
    if isHighSurrogate unit && isLowSurrogate next then
      (0x10000 + (unit - 0xd800) * 1024 + (next - 0xdc00)) :: codePoints units
    else unit :: codePoints (next :: units)

/-- By code point: the first difference, or the difference of the lengths. -/
def codePointOrder : Comparator (List ℕ) := (Comparator.byNumber id).lex.comap codePoints

/-- The order of two keys. -/
def compareCodePoints (left right : List ℕ) : ℤ := codePointOrder.cmp left right

/-- The unit of a hexadecimal digit. -/
def hexDigit (n : ℕ) : ℕ := if n < 10 then 0x30 + n else 0x61 + (n - 10)

/-- How `JSON.stringify` writes a unit that is no lone surrogate. -/
def escapeUnit (unit : ℕ) : List ℕ :=
  if unit = 0x22 then literal "\\\""
  else if unit = 0x5c then literal "\\\\"
  else if unit = 0x08 then literal "\\b"
  else if unit = 0x09 then literal "\\t"
  else if unit = 0x0a then literal "\\n"
  else if unit = 0x0c then literal "\\f"
  else if unit = 0x0d then literal "\\r"
  else if unit < 0x20 then literal "\\u00" ++ [hexDigit (unit / 16), hexDigit (unit % 16)]
  else [unit]

/-- `JSON.stringify` of a string. -/
def stringify (units : List ℕ) : List ℕ := 0x22 :: (units.flatMap escapeUnit ++ [0x22])

section Write
-- the shortest round-trip decimal of a double that is no integer
variable (shortest : Finite → List Char)

/-- `String(x)`: the digits of a safe integer, the shortest decimal otherwise. -/
def toText (x : Finite) : List ℕ :=
  textUnits (
    if x.isInteger then Finite.decimal (x.negative && decide (x.magnitude ≠ 0)) x.magnitude.num
    else shortest x)

/-- The text of a number. -/
def canonicalNumber (value : Double) (path : List ℕ) : Except CanonicalJsonError (List ℕ) :=
  match value with
  | .finite x =>
    if x.isInteger then
      if !x.isSafeInteger then .error ⟨"Unsafe integer", path⟩
      else .ok (if x.negative && decide (x.magnitude = 0) then literal "0" else toText shortest x)
    else if x.magnitude < Finite.lowest ∨ Finite.highest ≤ x.magnitude then
      .error ⟨"Number outside the canonical range", path⟩
    else .ok (toText shortest x)
  | _ => .error ⟨"Non-finite number", path⟩

/-- A key with its member's text. -/
def writeMember (path : List ℕ) (entry : List ℕ × Except CanonicalJsonError (List ℕ)) :
    Except CanonicalJsonError (List ℕ) := do
  if loneSurrogate entry.1 false then throw ⟨"Lone surrogate key", path⟩
  let text ← entry.2
  return stringify entry.1 ++ literal ":" ++ text

mutual

/-- The text of a value.  A member's text does not depend on the others, so the members are
written before the keys are sorted; errors count in key order, as in the loop. -/
def write : JsValue → List ℕ → Except CanonicalJsonError (List ℕ)
  | .null, _ => .ok (literal "null")
  | .bool flag, _ => .ok (if flag then literal "true" else literal "false")
  | .number x, path => canonicalNumber shortest x path
  | .string units, path =>
    if loneSurrogate units false then .error ⟨"Lone surrogate", path⟩ else .ok (stringify units)
  | .array items, path => do
      let text ← separated 0x2c (writeItems items path 0)
      return literal "[" ++ text ++ literal "]"
  | .object entries, path => do
      let members := (codePointOrder.comap Prod.fst).sort (writeEntries entries path)
      let text ← separated 0x2c (members.map (writeMember path))
      return literal "\x7b" ++ text ++ literal "\x7d"
  | .undefined, path => .error ⟨"Unsupported undefined", path⟩
  | .instanceObject, path => .error ⟨"Only plain objects", path⟩
  | .unsupported typeName, path => .error ⟨"Unsupported " ++ typeName, path⟩

/-- The texts of an array's items. -/
def writeItems : List JsValue → List ℕ → ℕ → List (Except CanonicalJsonError (List ℕ))
  | [], _, _ => []
  | item :: items, path, index =>
    let itemPath := path ++ literal "[" ++ textUnits (Nat.toDigits 10 index) ++ literal "]"
    (match item with
      | .undefined => .error ⟨"Undefined array item", itemPath⟩
      | item => write item itemPath) :: writeItems items path (index + 1)

/-- The members that are not `undefined`, written. -/
def writeEntries : List (List ℕ × JsValue) → List ℕ →
    List (List ℕ × Except CanonicalJsonError (List ℕ))
  | [], _ => []
  | (key, member) :: entries, path =>
    match member with
    | .undefined => writeEntries entries path
    | member => (key, write member (path ++ literal "." ++ key)) :: writeEntries entries path

end

/-- The server's canonical text. -/
def canonicalJson (value : JsValue) : Except CanonicalJsonError (List ℕ) := write shortest value []

end Write

end CanonicalJson

/-! ## The node: `canonical.rs` -/

namespace Canonical

/-- A number as the JSON parser keeps it. -/
inductive Number
  | posInt (n : UInt64)
  | negInt (i : Int64)
  | float (x : Finite)

namespace Number

/-- The number as an unsigned integer. -/
def asU64 : Number → Option UInt64
  | posInt n => some n
  | _ => none

/-- The number as a signed integer. -/
def asI64 : Number → Option Int64
  | posInt n => if n.toNat < 2 ^ 63 then some (Int64.ofNat n.toNat) else none
  | negInt i => some i
  | float _ => none

/-- The double of this sign next to an integer. -/
def ofInteger (negative : Bool) (n : ℕ) (h : n < 2 ^ 64) : Double :=
  .finite ⟨negative, Finite.nearest n, Finite.nearest_representable h⟩

/-- The number as a double. -/
def asF64 : Number → Option Double
  | posInt n => some (ofInteger false n.toNat n.toNat_lt)
  | negInt i => some (ofInteger (decide (i.toInt < 0)) i.toInt.natAbs (by
      have := i.le_toInt
      have := i.toInt_lt
      omega))
  | float x => some (.finite x)

end Number

/-- A JSON value.  An object is the entries of its map. -/
inductive Value
  | null
  | bool (flag : Bool)
  | number (n : Number)
  | string (text : List Char)
  | array (items : List Value)
  | object (map : List (List Char × Value))

section Write
-- `Display` of a double that is no integer, and `serde_json::to_string` of a text
variable (display : Finite → List Char) (quote : List Char → List Char)

/-- The text of a number. -/
def writeNumber (number : Number) (path : List Char) : Except (List Char) (List Char) :=
  match number.asU64, number.asI64, number.asF64 with
  | some unsigned, _, _ =>
    if Finite.maxSafeInteger < unsigned.toNat then .error ("unsafe integer at ".toList ++ path)
    else .ok (Finite.decimal false unsigned.toNat)
  | none, some signed, _ =>
    if Finite.maxSafeInteger < signed.toInt.natAbs then
      .error ("unsafe integer at ".toList ++ path)
    else .ok (Finite.decimal (decide (signed.toInt < 0)) signed.toInt.natAbs)
  | none, none, some (.finite x) =>
    if x.isInteger then
      if (Finite.maxSafeInteger : ℚ≥0) < x.magnitude then
        .error ("unsafe integer at ".toList ++ path)
      else if x.magnitude = 0 then .ok ['0']
      else .ok (Finite.decimal x.negative x.magnitude.num)
    else if Finite.lowest ≤ x.magnitude ∧ x.magnitude < Finite.highest then .ok (display x)
    else .error ("number outside the canonical range at ".toList ++ path)
  | none, none, some _ => .error ("non-finite number at ".toList ++ path)
  | none, none, none => .error ("unsupported number at ".toList ++ path)

/-- The text of a member. -/
def writeMember (entry : List Char × Except (List Char) (List Char)) :
    Except (List Char) (List Char) := do
  let text ← entry.2
  return quote entry.1 ++ [':'] ++ text

/-- The order of texts: the first byte that differs decides, then the length. -/
def byteOrder : Comparator (List Char) := (Comparator.byNumber UInt8.toNat).lex.comap Utf8.encode

mutual

/-- The text of a value; as on the server, members are written before keys are sorted. -/
def writeValue : Value → List Char → Except (List Char) (List Char)
  | .null, _ => .ok "null".toList
  | .bool flag, _ => .ok (if flag then "true".toList else "false".toList)
  | .number n, path => writeNumber display n path
  | .string text, _ => .ok (quote text)
  | .array items, path => do
      let text ← separated ',' (writeItems items path 0)
      return ['['] ++ text ++ [']']
  | .object map, path => do
      let members := (byteOrder.comap Prod.fst).sort (writeMap map path)
      let text ← separated ',' (members.map (writeMember quote))
      return "\x7b".toList ++ text ++ "\x7d".toList

/-- The texts of an array's items. -/
def writeItems : List Value → List Char → ℕ → List (Except (List Char) (List Char))
  | [], _, _ => []
  | item :: items, path, index =>
    writeValue item (path ++ ['['] ++ Nat.toDigits 10 index ++ [']']) ::
      writeItems items path (index + 1)

/-- The texts of an object's members. -/
def writeMap : List (List Char × Value) → List Char →
    List (List Char × Except (List Char) (List Char))
  | [], _ => []
  | (key, member) :: map, path =>
    (key, writeValue member (path ++ ['.'] ++ key)) :: writeMap map path

end

/-- The node's canonical text. -/
def canonicalJson (value : Value) : Except (List Char) (List Char) :=
  writeValue display quote value ['$']

end Write

end Canonical

end ModelProxy
