import CoherentMemory.Data.Value
import CoherentMemory.Decimal.Shortest

/-!
# Writing JSON

`compact` writes a value on one line without blanks, `pretty` with one element
or field to a line and two spaces for each level. Empty lists and records stay
on one line in both.
-/

namespace CoherentMemory.Data.Json

/-- A code unit of a control character, with four digits. -/
def controlEscape (c : Char) : List Char :=
  let n := c.toNat
  ['\\', 'u', '0', '0', (n / 16).digitChar, (n % 16).digitChar]

/-- The written form of a character in a string. -/
def escape (c : Char) : List Char :=
  match c with
  | '"' => ['\\', '"']
  | '\\' => ['\\', '\\']
  | '\x08' => ['\\', 'b']
  | '\x0c' => ['\\', 'f']
  | '\n' => ['\\', 'n']
  | '\r' => ['\\', 'r']
  | '\t' => ['\\', 't']
  | c => if c.toNat < 0x20 then controlEscape c else [c]

/-- A string between its quotes. -/
def stringText (s : String) : String :=
  String.ofList ('"' :: (s.toList.flatMap escape ++ ['"']))

/-- The text of a value that is neither a list nor a record. -/
def atomText : Value → String
  | .bool true => "true"
  | .bool false => "false"
  | .integer n => toString n
  | .float x => String.ofList (Decimal.floatText x)
  | .text s => stringText s
  | .null | .moment | .list _ | .record _ => "null"

mutual

/-- A value on one line. -/
def compact : Value → String
  | .list vs => "[" ++ compactElements vs ++ "]"
  | .record fs => "\x7b" ++ compactFields fs ++ "\x7d"
  | v => atomText v

/-- Values divided by commas. -/
def compactElements : List Value → String
  | [] => ""
  | [v] => compact v
  | v :: w :: vs => compact v ++ "," ++ compactElements (w :: vs)

/-- Named values divided by commas. -/
def compactFields : List (String × Value) → String
  | [] => ""
  | [(name, v)] => stringText name ++ ":" ++ compact v
  | (name, v) :: f :: fs => stringText name ++ ":" ++ compact v ++ "," ++ compactFields (f :: fs)

end

/-- The break before a line of the given level. -/
def lineBreak (level : Nat) : String :=
  "\n" ++ String.ofList (List.replicate (2 * level) ' ')

mutual

/-- A value over several lines, at the given level. -/
def prettyAt (level : Nat) : Value → String
  | .list [] => "[]"
  | .list (v :: vs) => "[" ++ prettyElements (level + 1) (v :: vs) ++ lineBreak level ++ "]"
  | .record [] => "\x7b\x7d"
  | .record (f :: fs) => "\x7b" ++ prettyFields (level + 1) (f :: fs) ++ lineBreak level ++ "\x7d"
  | v => atomText v

/-- Values, each on a line of its own. -/
def prettyElements (level : Nat) : List Value → String
  | [] => ""
  | [v] => lineBreak level ++ prettyAt level v
  | v :: w :: vs => lineBreak level ++ prettyAt level v ++ "," ++ prettyElements level (w :: vs)

/-- Named values, each on a line of its own. -/
def prettyFields (level : Nat) : List (String × Value) → String
  | [] => ""
  | [(name, v)] => lineBreak level ++ stringText name ++ ": " ++ prettyAt level v
  | (name, v) :: f :: fs =>
    lineBreak level ++ stringText name ++ ": " ++ prettyAt level v ++ "," ++
      prettyFields level (f :: fs)

end

/-- A value over several lines. -/
def pretty (v : Value) : String :=
  prettyAt 0 v

end CoherentMemory.Data.Json
