import CoherentMemory.Text.Concealed
import CoherentMemory.Text.Numeral

/-!
# Quoted text

Messages show the texts they are about between double quotes, so that blanks
and control characters can be seen. `escape` writes one character: the quote,
the backslash and four controls after a backslash, concealed characters by
their code points in braces, and every other character as it is.
-/

namespace CoherentMemory.Text

/-- A code point in lower-case hexadecimal between braces. -/
def escapeCode (c : Char) : List Char :=
  ['\\', 'u', '\x7b'] ++ Nat.toDigits 16 c.toNat ++ ['\x7d']

/-- The written form of one character inside quotes. -/
def escape (c : Char) : List Char :=
  if c = '\x00' then ['\\', '0']
  else if c = '\t' then ['\\', 't']
  else if c = '\r' then ['\\', 'r']
  else if c = '\n' then ['\\', 'n']
  else if c = '\\' then ['\\', '\\']
  else if c = '"' then ['\\', '"']
  else if isConcealed c then escapeCode c
  else [c]

/-- The written forms of the characters, between double quotes. -/
def quote (cs : List Char) : List Char :=
  '"' :: (cs.flatMap escape ++ ['"'])

/-- `quote` on a string. -/
def quoted (s : String) : String :=
  String.ofList (quote s.toList)

end CoherentMemory.Text
