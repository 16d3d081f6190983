import Mathlib

/-!
# JSON values as JavaScript reads and prints them

The values that `JSON.parse` gives, their truth and their text, and the hexadecimal text of bytes.
`undefined` is `none`.
-/

namespace MicroErp.Services

/-! ## Numbers -/

/-- A finite number as the shortest decimal that reads back as it, `digits * 10 ^ exponent`. -/
structure Decimal where
  negative : Bool
  digits : ℕ
  exponent : ℤ
  trimmed : 10 ∣ digits → digits = 0

/-- The places of a decimal of `k` digits whose point stands after the `n`-th. -/
def placedText (digits : List Char) (n : ℤ) : List Char :=
  let k := digits.length
  if k ≤ n ∧ n ≤ 21 then digits ++ List.replicate (n - k).toNat '0'
  else if 0 < n ∧ n ≤ 21 then digits.take n.toNat ++ '.' :: digits.drop n.toNat
  else if -6 < n ∧ n ≤ 0 then '0' :: '.' :: List.replicate (-n).toNat '0' ++ digits
  else
    let mantissa := if k = 1 then digits else digits.take 1 ++ '.' :: digits.drop 1
    mantissa ++ 'e' :: (if n < 1 then '-' else '+') :: Nat.toDigits 10 (n - 1).natAbs

/-- `Number::toString`; there is no negative zero in the text. -/
def Decimal.toText (x : Decimal) : String :=
  let digits := Nat.toDigits 10 x.digits
  if x.digits = 0 then "0"
  else (if x.negative then "-" else "") ++ String.ofList (placedText digits (x.exponent + digits.length))

/-! ## Values -/

inductive Json where
  | null
  | bool (b : Bool)
  | number (x : Decimal)
  /-- A number that is too large to be finite. -/
  | infinity (negative : Bool)
  | string (s : String)
  | array (items : List Json)
  | object (fields : List (String × Json))

namespace Json

def isNull : Json → Bool
  | null => true
  | _ => false

def truthy : Json → Bool
  | null => false
  | bool b => b
  | number x => x.digits ≠ 0
  | string s => s ≠ ""
  | _ => true

/-- A property that no prototype has. -/
def field (key : String) : Json → Option Json
  | object fields => (fields.find? fun x ↦ x.1 = key).map Prod.snd
  | _ => none

/-- `===` with a string. -/
def isString (text : String) : Option Json → Bool
  | some (string s) => s = text
  | _ => false

mutual

/-- The string conversion of a value; it throws where a property hides the method `toString`. -/
def toText : Json → Option String
  | null => some "null"
  | bool b => some (if b then "true" else "false")
  | number x => some x.toText
  | infinity negative => some (if negative then "-Infinity" else "Infinity")
  | string s => some s
  | array items => (elementTexts items).map (String.intercalate ",")
  | object fields =>
      if fields.any fun x ↦ x.1 = "toString" then none else some "[object Object]"

/-- The texts that `join` puts together. -/
def elementTexts : List Json → Option (List String)
  | [] => some []
  | item :: items => do
    let text ← if item.isNull then some "" else item.toText
    let texts ← elementTexts items
    pure (text :: texts)

end

/-- The text of a value in a template literal. -/
def templateText : Option Json → Option String
  | none => some "undefined"
  | some value => value.toText

end Json

/-! ## Bytes in hexadecimal -/

def hexDigit (n : ℕ) : Char := Char.ofNat (if n < 10 then 48 + n else 87 + n)

def hexText (bytes : List UInt8) : List Char :=
  bytes.flatMap fun b ↦ [hexDigit (b.toNat / 16), hexDigit (b.toNat % 16)]

def hexValue (c : Char) : Option ℕ :=
  let n := c.toNat
  if 48 ≤ n ∧ n ≤ 57 then some (n - 48)
  else if 97 ≤ n ∧ n ≤ 102 then some (n - 87)
  else if 65 ≤ n ∧ n ≤ 70 then some (n - 55)
  else none

/-- `Buffer.from(text, 'hex')`: it stops at the first pair that is not hexadecimal. -/
def hexBytes : List Char → List UInt8
  | c :: c' :: text =>
      match hexValue c, hexValue c' with
      | some high, some low => UInt8.ofNat (16 * high + low) :: hexBytes text
      | _, _ => []
  | _ => []

end MicroErp.Services
