import CoherentMemory.Data.Value
import CoherentMemory.Decimal.Binary64
import CoherentMemory.Text.Numeral

/-!
# Reading JSON

A number without fraction and exponent that fits in 64 bits, with or without
sign, is an integer; any other number is a floating-point number, and so is minus
zero. Numbers beyond the largest floating-point number are refused. Nesting and
length are bounded by the number of characters, which `parse?` takes as the fuel
of the recursion.
-/

namespace CoherentMemory.Data.Json

/-- Blanks between the parts of a text. -/
def skipBlanks (cs : List Char) : List Char :=
  cs.dropWhile fun c => c = ' ' || c = '\t' || c = '\n' || c = '\r'

/-- The value of four hexadecimal digits. -/
def codeUnit? : List Char → Option (Nat × List Char)
  | a :: b :: c :: d :: cs => (Text.natural? 16 [a, b, c, d]).map (·, cs)
  | _ => none

/-- The character of an escape, after the backslash; code points beyond the first
plane are written as two units. -/
def escaped? : List Char → Option (Char × List Char)
  | '"' :: cs => some ('"', cs)
  | '\\' :: cs => some ('\\', cs)
  | '/' :: cs => some ('/', cs)
  | 'b' :: cs => some ('\x08', cs)
  | 'f' :: cs => some ('\x0c', cs)
  | 'n' :: cs => some ('\n', cs)
  | 'r' :: cs => some ('\r', cs)
  | 't' :: cs => some ('\t', cs)
  | 'u' :: cs =>
    match codeUnit? cs with
    | none => none
    | some (high, rest) =>
      if 0xD800 ≤ high && high < 0xDC00 then
        match rest with
        | '\\' :: 'u' :: more =>
          match codeUnit? more with
          | some (low, rest) =>
            if 0xDC00 ≤ low && low < 0xE000 then
              some (Char.ofNat (0x10000 + (high - 0xD800) * 0x400 + (low - 0xDC00)), rest)
            else none
          | none => none
        | _ => none
      else if 0xDC00 ≤ high && high < 0xE000 then none
      else some (Char.ofNat high, rest)
  | _ => none

/-- The characters of a string up to its closing quote, read onto `done` in
reverse. -/
def characters? : Nat → List Char → List Char → Option (String × List Char)
  | 0, _, _ => none
  | _, _, [] => none
  | _, done, '"' :: cs => some (String.ofList done.reverse, cs)
  | fuel + 1, done, '\\' :: cs =>
    match escaped? cs with
    | some (c, rest) => characters? fuel (c :: done) rest
    | none => none
  | fuel + 1, done, c :: cs => if c.toNat < 0x20 then none else characters? fuel (c :: done) cs

/-- One or more digits. -/
def digits? (cs : List Char) : Option (List Char × List Char) :=
  let ds := cs.takeWhile Char.isDigit
  if ds.isEmpty then none else some (ds, cs.dropWhile Char.isDigit)

/-- The digits before the point: a zero, or digits that do not begin with one. -/
def wholeDigits? : List Char → Option (List Char × List Char)
  | '0' :: cs => some (['0'], cs)
  | cs => digits? cs

/-- The digits after a point, if there is one. -/
def fraction? : List Char → Option (Option (List Char) × List Char)
  | '.' :: cs => (digits? cs).map fun (ds, rest) => (some ds, rest)
  | cs => some (none, cs)

/-- The exponent after its mark, if there is one. -/
def exponent? : List Char → Option (Option Int × List Char)
  | c :: cs =>
    if c = 'e' || c = 'E' then
      let (negative, body) : Bool × List Char := match cs with
        | '-' :: r => (true, r)
        | '+' :: r => (false, r)
        | r => (false, r)
      (digits? body).map fun (ds, rest) =>
        let n : Int := Nat.ofDigitChars 10 ds 0
        (some (if negative then -n else n), rest)
    else some (none, c :: cs)
  | [] => some (none, [])

/-- A number. -/
def number? (cs : List Char) : Option (Value × List Char) := do
  let (negative, body) : Bool × List Char := match cs with
    | '-' :: r => (true, r)
    | r => (false, r)
  let (whole, rest) ← wholeDigits? body
  let (fraction, rest) ← fraction? rest
  let (exponent, rest) ← exponent? rest
  let n := Nat.ofDigitChars 10 whole 0
  let floating : Float :=
    let part := fraction.getD []
    let magnitude := Decimal.nearestDecimal (Nat.ofDigitChars 10 (whole ++ part) 0)
      (exponent.getD 0 - part.length)
    if negative then -magnitude else magnitude
  let isInteger := fraction.isNone && exponent.isNone &&
    if negative then 0 < n && n ≤ 0x8000000000000000 else n < 0x10000000000000000
  if isInteger then return (.integer (if negative then -n else n), rest)
  else if floating.isFinite then return (.float floating, rest)
  else none

/-- The text after a given word. -/
def afterWord? (word : String) (cs : List Char) : Option (List Char) :=
  if word.toList.isPrefixOf cs then some (cs.drop word.length) else none

mutual

/-- A value, with no blanks before it. -/
def value? : Nat → List Char → Option (Value × List Char)
  | 0, _ => none
  | fuel + 1, cs =>
    match cs with
    | '"' :: r => (characters? (r.length + 1) [] r).map fun (s, rest) => (.text s, rest)
    | '[' :: r =>
      match skipBlanks r with
      | ']' :: rest => some (.list [], rest)
      | r => (elements? fuel r).map fun (vs, rest) => (.list vs, rest)
    | '\x7b' :: r =>
      match skipBlanks r with
      | '\x7d' :: rest => some (.record [], rest)
      | r => (members? fuel r).map fun (fs, rest) => (.record fs, rest)
    | 'n' :: _ => (afterWord? "null" cs).map (.null, ·)
    | 't' :: _ => (afterWord? "true" cs).map (.bool true, ·)
    | 'f' :: _ => (afterWord? "false" cs).map (.bool false, ·)
    | cs => number? cs

/-- One or more values up to the closing bracket. -/
def elements? : Nat → List Char → Option (List Value × List Char)
  | 0, _ => none
  | fuel + 1, cs => do
    let (v, rest) ← value? fuel cs
    match skipBlanks rest with
    | ',' :: r =>
      let (vs, rest) ← elements? fuel (skipBlanks r)
      return (v :: vs, rest)
    | ']' :: rest => return ([v], rest)
    | _ => none

/-- One or more named values up to the closing brace. -/
def members? : Nat → List Char → Option (Fields × List Char)
  | 0, _ => none
  | fuel + 1, cs =>
    match cs with
    | '"' :: r => do
      let (name, rest) ← characters? (r.length + 1) [] r
      match skipBlanks rest with
      | ':' :: r =>
        let (v, rest) ← value? fuel (skipBlanks r)
        match skipBlanks rest with
        | ',' :: r =>
          let (fs, rest) ← members? fuel (skipBlanks r)
          return ((name, v) :: fs, rest)
        | '\x7d' :: rest => return ([(name, v)], rest)
        | _ => none
      | _ => none
    | _ => none

end

/-- The value that a text holds, with nothing but blanks around it. -/
def parse? (s : String) : Option Value :=
  let cs := s.toList
  match value? (cs.length + 1) (skipBlanks cs) with
  | some (v, rest) => if (skipBlanks rest).isEmpty then some v else none
  | none => none

end CoherentMemory.Data.Json
