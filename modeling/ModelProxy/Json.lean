import ModelProxy.JsNumbers

/-! # JSON values

The values of `JSON.parse`, how they are read and how `JSON.stringify` writes them.  An object
is the list of its own members in the order `Object.keys` gives them.
-/
namespace ModelProxy.Js

open ModelProxy (Double Finite)

/-- A JSON value; an object keeps the order of its members. -/
inductive Json
  | null
  | bool (b : Bool)
  | number (x : Double)
  | string (s : JsString)
  | array (entries : List Json)
  | object (members : List (JsString × Json))

/-- The own members of an object. -/
abbrev Members := List (JsString × Json)

/-- `o[key]`, where `none` is `undefined`. -/
def get (o : Members) (key : String) : Option Json :=
  (o.find? fun member => member.1 == js key).map Prod.snd

namespace Json

/-- The object literal with these members. -/
def obj (members : List (String × Json)) : Json :=
  .object (members.map fun member => (js member.1, member.2))

/-- A string literal. -/
def str (literal : String) : Json := .string (js literal)

/-- A natural number as JSON. -/
def nat (n : ℕ) : Json := .number (ofNat n)

/-- `v === "literal"`. -/
def isStr (v : Option Json) (literal : String) : Bool :=
  match v with
  | some (.string s) => s == js literal
  | _ => false

/-- `v == null`. -/
def nullish : Option Json → Bool
  | none | some .null => true
  | _ => false

/-- `v ?? w`. -/
def orElse (v w : Option Json) : Option Json := if nullish v then w else v

/-- `v === b`. -/
def isBool (v : Option Json) (b : Bool) : Bool :=
  match v with
  | some (.bool c) => c == b
  | _ => false

end Json

/-! ## Members -/

theorem get_cons (key : String) (v : Json) (o : Members) (key' : String) :
    get ((js key, v) :: o) key' = if key' = key then some v else get o key' := by
  unfold get
  rw [List.find?_cons]
  by_cases h : key' = key
  · rw [if_pos h, h, beq_self_eq_true]
    rfl
  · rw [if_neg h]
    have hne : (js key == js key') = false := by
      rw [beq_eq_false_iff_ne]
      exact fun heq => h (js_injective heq).symm
    rw [hne]

theorem lookup_field (f : String × Json) (fs : List (String × Json)) (key : String) :
    (f :: fs).lookup key = if key = f.1 then some f.2 else fs.lookup key := by
  rw [List.lookup_cons]
  by_cases h : key = f.1
  · rw [if_pos h, h, beq_self_eq_true]
  · rw [if_neg h, beq_eq_false_iff_ne.mpr h]

theorem lookup_ite (condition : Prop) [Decidable condition] (fs fs' : List (String × Json))
    (key : String) :
    (if condition then fs else fs').lookup key =
      if condition then fs.lookup key else fs'.lookup key :=
  apply_ite (List.lookup key) condition fs fs'

/-- A member of an object literal is looked up by its name. -/
theorem get_map (fs : List (String × Json)) (key : String) :
    get (fs.map fun f => (js f.1, f.2)) key = fs.lookup key := by
  induction fs with
  | nil => rfl
  | cons f fs ih => rw [List.map_cons, get_cons, lookup_field, ih]

@[simp] theorem Json.isStr_str (literal literal' : String) :
    Json.isStr (some (.str literal)) literal' = decide (literal = literal') := by
  simp [Json.isStr, Json.str, beq_eq_decide]

@[simp] theorem Json.isStr_obj (mems : List (String × Json)) (literal : String) :
    Json.isStr (some (.obj mems)) literal = false := rfl

/-! ## Nesting -/

mutual

/-- Whether an entry stands deeper than `maximum`, where `v` itself stands at `depth`. -/
def Json.deeper (maximum depth : ℕ) : Json → Bool
  | .array entries => decide (maximum < depth) || deeperEntries maximum (depth + 1) entries
  | .object members => decide (maximum < depth) || deeperMembers maximum (depth + 1) members
  | _ => decide (maximum < depth)

def deeperEntries (maximum depth : ℕ) : List Json → Bool
  | [] => false
  | v :: entries => v.deeper maximum depth || deeperEntries maximum depth entries

def deeperMembers (maximum depth : ℕ) : List (JsString × Json) → Bool
  | [] => false
  | (_, v) :: members => v.deeper maximum depth || deeperMembers maximum depth members

end

/-- MAX_REQUEST_JSON_DEPTH -/
def maxRequestJsonDepth : ℕ := 256

/-- A value nested too deep for a request. -/
def requestJsonDepthExceeded (v : Json) : Bool := v.deeper maxRequestJsonDepth 0

/-! ## Writing -/

/-- The unit of a character of the basic plane. -/
def unit (c : Char) : UInt16 := UInt16.ofNat c.toNat

/-- An escape by the unit's four digits. -/
def unicodeEscape (u : UInt16) : JsString :=
  js "\\u" ++ [u.toNat / 4096, u.toNat / 256 % 16, u.toNat / 16 % 16, u.toNat % 16].map
    fun digit => UInt16.ofNat (CanonicalJson.hexDigit digit)

/-- A unit within quotes, where it has no partner. -/
def escapeUnit (u : UInt16) : JsString :=
  if isHigh u || isLow u then unicodeEscape u
  else (CanonicalJson.escapeUnit u.toNat).map UInt16.ofNat

/-- A string within quotes: surrogates without a partner are escaped. -/
def escape : JsString → JsString
  | [] => []
  | [u] => escapeUnit u
  | u :: next :: units =>
    if isHigh u && isLow next then u :: next :: escape units
    else escapeUnit u ++ escape (next :: units)

/-- A string literal. -/
def quote (s : JsString) : JsString := unit '"' :: (escape s ++ [unit '"'])

mutual

/-- `JSON.stringify(v)`. -/
def stringify : Json → JsString
  | .null => js "null"
  | .bool true => js "true"
  | .bool false => js "false"
  | .number (.finite x) => numberText x
  | .number _ => js "null"
  | .string s => quote s
  | .array entries => unit '[' :: (stringifyEntries entries ++ [unit ']'])
  | .object members => unit '\x7b' :: (stringifyMembers members ++ [unit '\x7d'])

def stringifyEntries : List Json → JsString
  | [] => []
  | [v] => stringify v
  | v :: next :: entries => stringify v ++ unit ',' :: stringifyEntries (next :: entries)

def stringifyMembers : List (JsString × Json) → JsString
  | [] => []
  | [(key, v)] => quote key ++ unit ':' :: stringify v
  | (key, v) :: next :: members =>
    quote key ++ unit ':' :: (stringify v ++ unit ',' :: stringifyMembers (next :: members))

end

/-! ## Reading -/

/-- White space between tokens. -/
def isBlank (u : UInt16) : Bool := u == 32 || u == 9 || u == 10 || u == 13

/-- The text from its next token on. -/
def skipBlank (text : JsString) : JsString := text.dropWhile isBlank

/-- A decimal digit. -/
def isDigit (u : UInt16) : Bool := 48 ≤ u && u ≤ 57

/-- The value of a hexadecimal digit. -/
def hexValue (u : UInt16) : Option ℕ :=
  if 48 ≤ u ∧ u ≤ 57 then some (u.toNat - 48)
  else if 97 ≤ u ∧ u ≤ 102 then some (u.toNat - 87)
  else if 65 ≤ u ∧ u ≤ 70 then some (u.toNat - 55)
  else none

/-- The unit of four digits. -/
def hexUnit (a b c d : UInt16) : Option UInt16 := do
  let a ← hexValue a
  let b ← hexValue b
  let c ← hexValue c
  let d ← hexValue d
  return UInt16.ofNat (4096 * a + 256 * b + 16 * c + d)

/-- The unit a letter after a backslash stands for. -/
def escaped (u : UInt16) : Option UInt16 :=
  if u = unit '"' ∨ u = unit '\\' ∨ u = unit '/' then some u
  else if u = unit 'b' then some 8
  else if u = unit 'f' then some 12
  else if u = unit 'n' then some 10
  else if u = unit 'r' then some 13
  else if u = unit 't' then some 9
  else none

/-- The string up to the closing quote, and what follows the quote. -/
def readString : JsString → Option (JsString × JsString)
  | [] => none
  | u :: text =>
    if u = unit '"' then some ([], text)
    else if u = unit '\\' then
      match text with
      | letter :: text =>
        if letter = unit 'u' then
          match text with
          | a :: b :: c :: d :: text =>
            (hexUnit a b c d).bind fun u =>
              (readString text).map fun read => (u :: read.1, read.2)
          | _ => none
        else
          (escaped letter).bind fun u =>
            (readString text).map fun read => (u :: read.1, read.2)
      | [] => none
    else if u < 32 then none
    else (readString text).map fun read => (u :: read.1, read.2)

/-- The number of decimal digits. -/
def naturalOf (digits : JsString) : ℕ := digits.foldl (fun n u => n * 10 + (u.toNat - 48)) 0

/-- The digits that stand first, of which there is one at least. -/
def readDigits (text : JsString) : Option (JsString × JsString) :=
  if (text.takeWhile isDigit).isEmpty then none
  else some (text.takeWhile isDigit, text.dropWhile isDigit)

/-- The digits behind a point. -/
def readFraction (text : JsString) : Option (JsString × JsString) :=
  match text with
  | u :: rest => if u = unit '.' then readDigits rest else some ([], text)
  | [] => some ([], text)

/-- A number with its sign. -/
def readSigned (text : JsString) : Option (ℤ × JsString) :=
  match text with
  | u :: rest =>
    if u = unit '-' then (readDigits rest).map fun read => (-(naturalOf read.1 : ℤ), read.2)
    else if u = unit '+' then (readDigits rest).map fun read => ((naturalOf read.1 : ℤ), read.2)
    else (readDigits text).map fun read => ((naturalOf read.1 : ℤ), read.2)
  | [] => none

/-- The exponent, or none. -/
def readExponent (text : JsString) : Option (ℤ × JsString) :=
  match text with
  | u :: rest => if u = unit 'e' ∨ u = unit 'E' then readSigned rest else some (0, text)
  | [] => some (0, text)

/-- A numeral has no leading zeros. -/
def plainWhole (whole : JsString) : Bool := whole.length == 1 || whole.head? != some 48

/-- A number behind its sign. -/
def readUnsigned (negative : Bool) (text : JsString) : Option (Json × JsString) := do
  let (whole, rest) ← readDigits text
  let _ ← if plainWhole whole then some () else none
  let (fraction, rest) ← readFraction rest
  let (exponent, rest) ← readExponent rest
  return (.number (nearestDouble negative
    (naturalOf (whole ++ fraction) * ((10 : ℕ) : ℚ≥0) ^ (exponent - fraction.length))), rest)

/-- A number. -/
def readNumber (text : JsString) : Option (Json × JsString) :=
  match text with
  | u :: rest => if u = unit '-' then readUnsigned true rest else readUnsigned false text
  | [] => none

/-- One of the three literals. -/
def readWord (word : String) (v : Json) (text : JsString) : Option (Json × JsString) :=
  if (js word).isPrefixOf text then some (v, text.drop (js word).length) else none

/-- What follows a unit that must stand next. -/
def expect (u : UInt16) (text : JsString) : Option JsString :=
  match skipBlank text with
  | v :: rest => if v = u then some rest else none
  | [] => none

/-- A member is kept where its key stood first. -/
def put (members : Members) (key : JsString) (v : Json) : Members :=
  if members.any (fun member => member.1 == key) then
    members.map fun member => if member.1 == key then (key, v) else member
  else members ++ [(key, v)]

/-- The array index a key is, if it is one. -/
def arrayIndex (key : JsString) : Option ℕ :=
  if !key.isEmpty && key.all isDigit && plainWhole key && naturalOf key < 2 ^ 32 - 1 then
    some (naturalOf key)
  else none

/-- `Object.keys` gives array indexes first and in order. -/
def arrange (members : Members) : Members :=
  ((members.filter fun member => (arrayIndex member.1).isSome).mergeSort fun a b =>
      decide ((arrayIndex a.1).getD 0 ≤ (arrayIndex b.1).getD 0)) ++
    members.filter fun member => (arrayIndex member.1).isNone

/-- The object of members as they were read; the last of a name counts. -/
def objectOf (members : Members) : Json :=
  .object (arrange (members.foldl (fun o member => put o member.1 member.2) []))

mutual

/-- A value and what follows it. -/
def readValue : ℕ → JsString → Option (Json × JsString)
  | 0, _ => none
  | fuel + 1, text =>
    match skipBlank text with
    | [] => none
    | u :: rest =>
      if u = unit '"' then (readString rest).map fun read => (.string read.1, read.2)
      else if u = unit '[' then
        match skipBlank rest with
        | [] => none
        | v :: after =>
          if v = unit ']' then some (.array [], after)
          else (readEntries fuel rest).map fun read => (.array read.1, read.2)
      else if u = unit '\x7b' then
        match skipBlank rest with
        | [] => none
        | v :: after =>
          if v = unit '\x7d' then some (.object [], after)
          else (readMembers fuel rest).map fun read => (objectOf read.1, read.2)
      else if u = unit 'n' then readWord "null" .null (u :: rest)
      else if u = unit 't' then readWord "true" (.bool true) (u :: rest)
      else if u = unit 'f' then readWord "false" (.bool false) (u :: rest)
      else readNumber (u :: rest)

def readEntries : ℕ → JsString → Option (List Json × JsString)
  | 0, _ => none
  | fuel + 1, text =>
    (readValue fuel text).bind fun (v, rest) =>
      match skipBlank rest with
      | [] => none
      | u :: rest =>
        if u = unit ',' then
          (readEntries fuel rest).map fun read => (v :: read.1, read.2)
        else if u = unit ']' then some ([v], rest)
        else none

def readMembers : ℕ → JsString → Option (Members × JsString)
  | 0, _ => none
  | fuel + 1, text =>
    (expect (unit '"') text).bind fun text =>
      (readString text).bind fun (key, text) =>
        (expect (unit ':') text).bind fun text =>
          (readValue fuel text).bind fun (v, rest) =>
            match skipBlank rest with
            | [] => none
            | u :: rest =>
              if u = unit ',' then
                (readMembers fuel rest).map fun read => ((key, v) :: read.1, read.2)
              else if u = unit '\x7d' then some ([(key, v)], rest)
              else none

end

/-- `JSON.parse(text)`, where `none` is a `SyntaxError`. -/
def parse (text : JsString) : Option Json :=
  (readValue (2 * text.length + 2) text).bind fun (v, rest) =>
    if (skipBlank rest).isEmpty then some v else none

end ModelProxy.Js
