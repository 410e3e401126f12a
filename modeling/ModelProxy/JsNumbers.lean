import Mathlib.Data.Int.Log
import Mathlib.Data.NNRat.Floor
import ModelProxy.JsStrings

/-! # JavaScript numbers

The double a decimal numeral is read as, and the text a double is written as.
-/
namespace ModelProxy.Js

open ModelProxy (Double Finite)

/-! ## Reading -/

/-- The power of two in whose multiples the doubles next to `q` are counted. -/
def unitExponent (q : ℚ≥0) : ℤ := max (Int.log 2 q - 52) (-1074)

/-- The whole number next to `q`, halfway the even one. -/
def roundHalfEven (q : ℚ≥0) : ℕ :=
  let n := ⌊q⌋₊
  if q < n + 1 / 2 ∨ q = n + 1 / 2 ∧ n % 2 = 0 then n else n + 1

/-- A mantissa that was rounded up to 54 bits has its last bit taken into the exponent. -/
def renormalize (m : ℕ) (e : ℤ) : ℕ × ℤ := if m = 2 ^ 53 then (2 ^ 52, e + 1) else (m, e)

/-- The finite double of a mantissa and an exponent, an infinity where the exponent is too
large. -/
def ofMantissa (negative : Bool) (m : ℕ) (e : ℤ) : Double :=
  if h : m < 2 ^ 53 ∧ -1074 ≤ e ∧ e ≤ 971 then
    .finite ⟨negative, m * 2 ^ e, m, e, h.1, h.2.1, h.2.2, rfl⟩
  else .infinite negative

/-- The double next to a number.  Integers of at most 53 bits are doubles. -/
def nearestDouble (negative : Bool) (q : ℚ≥0) : Double :=
  if q.den = 1 ∧ q.num < 2 ^ 53 then ofMantissa negative q.num 0
  else
    let e := unitExponent q
    let (m, e') := renormalize (roundHalfEven (q / 2 ^ e)) e
    ofMantissa negative m e'

/-- A natural number as a double. -/
def ofNat (n : ℕ) : Double := nearestDouble false n

/-- The natural number a double is, up to `Number.MAX_SAFE_INTEGER`. -/
def safeNatural : Double → Option ℕ
  | .finite x =>
    if x.isSafeInteger && (!x.negative || decide (x.magnitude = 0)) then some x.magnitude.num
    else none
  | _ => none

/-! ## Writing -/

/-- The decimal digits of a whole number. -/
def digitText (n : ℕ) : JsString := ofText (Nat.toDigits 10 n)

/-- The decimal numerals of `k` digits next to `q`, whose first digit counts `10 ^ (n - 1)`. -/
def numerals (q : ℚ≥0) (n : ℤ) (k : ℕ) : List ℕ :=
  let s := ⌊q / 10 ^ (n - k)⌋₊
  if q ≤ (s + 1 / 2) * 10 ^ (n - k) then [s, s + 1] else [s + 1, s]

/-- The digits read back as the number. -/
def readsAs (q : ℚ≥0) (n : ℤ) (k s : ℕ) : Bool :=
  match nearestDouble false (s * 10 ^ (n - k)) with
  | .finite x => x.magnitude == q
  | _ => false

/-- The fewest digits that are read back as `q`, and the place of the point after the first
`n` of them. -/
def shortest (q : ℚ≥0) : ℕ × ℕ × ℤ :=
  let n := Int.log 10 q + 1
  let found := (List.range 17).findSome? fun i =>
    ((numerals q n (i + 1)).find? (readsAs q n (i + 1))).map fun s => (s, i + 1)
  match found with
  | some (s, k) => if s = 10 ^ k then (10 ^ (k - 1), k, n + 1) else (s, k, n)
  | none => (0, 1, 1)

/-- `n` zeros. -/
def zeros (n : ℕ) : JsString := List.replicate n 48

/-- The exponent of a numeral. -/
def exponentText (e : ℤ) : JsString :=
  js "e" ++ (if 0 ≤ e then js "+" else js "-") ++ digitText e.natAbs

/-- The digits `s`, of which there are `k`, with the point after the first `n`. -/
def decimalText (s k : ℕ) (n : ℤ) : JsString :=
  let digits := digitText s
  if k ≤ n ∧ n ≤ 21 then digits ++ zeros (n - k).toNat
  else if 0 < n ∧ n ≤ 21 then digits.take n.toNat ++ js "." ++ digits.drop n.toNat
  else if -6 < n ∧ n ≤ 0 then js "0." ++ zeros (-n).toNat ++ digits
  else if k = 1 then digits ++ exponentText (n - 1)
  else digits.take 1 ++ js "." ++ digits.drop 1 ++ exponentText (n - 1)

/-- The text of the number without its sign. -/
def magnitudeText (x : Finite) : JsString :=
  if x.isSafeInteger then digitText x.magnitude.num
  else
    let (s, k, n) := shortest x.magnitude
    decimalText s k n

/-- `String(x)` of a finite number; there is no minus zero. -/
def numberText (x : Finite) : JsString :=
  if x.negative && decide (x.magnitude ≠ 0) then js "-" ++ magnitudeText x else magnitudeText x

end ModelProxy.Js
