import CoherentMemory.Data.Value
import CoherentMemory.Decimal.Binary64
import CoherentMemory.Text.Numeral

/-!
# Numbers in TOML

Integers are signed 64-bit numbers, in decimal or after `0x`, `0o` or `0b`
without a sign. Floating-point numbers have a fraction, an exponent or both, or
are infinite or undefined by name. Between two digits there may be one
underscore, and decimal numbers do not begin with a zero that another digit
follows.
-/

namespace CoherentMemory.Data.Toml

/-- Digits of a base that follow a digit, each after at most one underscore. -/
def moreDigits (base : Nat) : List Char → List Char × List Char
  | '_' :: c :: cs =>
    if (Text.digit? base c).isSome then
      let (ds, rest) := moreDigits base cs
      (c :: ds, rest)
    else ([], '_' :: c :: cs)
  | c :: cs =>
    if (Text.digit? base c).isSome then
      let (ds, rest) := moreDigits base cs
      (c :: ds, rest)
    else ([], c :: cs)
  | [] => ([], [])

/-- One or more digits of a base, without their underscores. -/
def digits? (base : Nat) : List Char → Option (List Char × List Char)
  | c :: cs =>
    if (Text.digit? base c).isSome then
      let (ds, rest) := moreDigits base cs
      some (c :: ds, rest)
    else none
  | [] => none

/-- The digits of a decimal number: a zero alone, or digits that do not begin
with zero. -/
def wholeDigits? : List Char → Option (List Char × List Char)
  | '0' :: cs => some (['0'], cs)
  | cs => digits? 10 cs

/-- A sign, if there is one, and whether it is a minus sign. -/
def sign : List Char → Bool × List Char
  | '-' :: cs => (true, cs)
  | '+' :: cs => (false, cs)
  | cs => (false, cs)

/-- The value of digits of a base that fits in 63 bits. -/
def positiveInteger? (base : Nat) (ds : List Char) : Option Value :=
  (Text.natural? base ds).bind fun n => if n < 0x8000000000000000 then some (.integer n) else none

/-- A decimal integer. -/
def decimalInteger? (cs : List Char) : Option (Value × List Char) := do
  let (negative, body) := sign cs
  let (ds, rest) ← wholeDigits? body
  let n := Nat.ofDigitChars 10 ds 0
  if negative then
    if n ≤ 0x8000000000000000 then return (.integer (-n), rest) else none
  else (positiveInteger? 10 ds).map (·, rest)

/-- An integer in any base. -/
def integer? (cs : List Char) : Option (Value × List Char) :=
  let based (base : Nat) (body : List Char) : Option (Value × List Char) :=
    (digits? base body).bind fun (ds, rest) => (positiveInteger? base ds).map (·, rest)
  match cs with
  | '0' :: 'x' :: body => based 16 body
  | '0' :: 'o' :: body => based 8 body
  | '0' :: 'b' :: body => based 2 body
  | cs => decimalInteger? cs

/-- The digits after a point, if there is one; a point needs digits. -/
def fraction? : List Char → Option (Option (List Char) × List Char)
  | '.' :: cs => (digits? 10 cs).map fun (ds, rest) => (some ds, rest)
  | cs => some (none, cs)

/-- The exponent after its mark, if there is one; a mark needs digits. -/
def exponent? : List Char → Option (Option Int × List Char)
  | c :: cs =>
    if c = 'e' || c = 'E' then
      let (negative, body) := sign cs
      (digits? 10 body).map fun (ds, rest) =>
        let n : Int := Nat.ofDigitChars 10 ds 0
        (some (if negative then -n else n), rest)
    else some (none, c :: cs)
  | [] => some (none, [])

/-- A number by name. -/
def namedFloat? (cs : List Char) : Option (Value × List Char) :=
  match sign cs with
  | (negative, 'i' :: 'n' :: 'f' :: rest) =>
    some (.float (if negative then -1.0 / 0.0 else 1.0 / 0.0), rest)
  | (_, 'n' :: 'a' :: 'n' :: rest) => some (.float (0.0 / 0.0), rest)
  | _ => none

/-- A floating-point number with digits; too large a positive one is refused. -/
def digitFloat? (cs : List Char) : Option (Value × List Char) := do
  let (negative, body) := sign cs
  let (whole, rest) ← wholeDigits? body
  let (fraction, rest) ← fraction? rest
  let (exponent, rest) ← exponent? rest
  if fraction.isNone && exponent.isNone then none
  else
    let part := fraction.getD []
    let magnitude := Decimal.nearestDecimal (Nat.ofDigitChars 10 (whole ++ part) 0)
      (exponent.getD 0 - part.length)
    if magnitude.isInf && !negative then none
    else return (.float (if negative then -magnitude else magnitude), rest)

/-- A floating-point number. -/
def float? (cs : List Char) : Option (Value × List Char) :=
  match digitFloat? cs with
  | some r => some r
  | none => namedFloat? cs

end CoherentMemory.Data.Toml
