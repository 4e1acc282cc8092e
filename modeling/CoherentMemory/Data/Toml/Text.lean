import CoherentMemory.Text.Numeral

/-!
# Texts and keys in TOML

Strings in double quotes have escapes, strings in single quotes have none; both
may be tripled to run over several lines, and then a line break right after the
opening quotes does not count and every line break is a single line feed. Keys
are bare words or one-line strings, joined by points.
-/

namespace CoherentMemory.Data.Toml

/-- A blank within a line. -/
def isSpace (c : Char) : Bool :=
  c = ' ' || c = '\t'

def skipSpaces (cs : List Char) : List Char :=
  cs.dropWhile isSpace

/-- The text after a line break. -/
def afterBreak? : List Char → Option (List Char)
  | '\n' :: cs => some cs
  | '\r' :: '\n' :: cs => some cs
  | _ => none

/-- A character that may stand in a line: no control other than the tab. -/
def isLineChar (c : Char) : Bool :=
  c = '\t' || (0x20 ≤ c.toNat && c.toNat ≠ 0x7F)

/-- A character that a comment may hold, and what follows the comment. -/
def skipComment : List Char → List Char
  | '#' :: cs => cs.dropWhile isLineChar
  | cs => cs

/-- The character of an escape, after the backslash. -/
def escaped? : List Char → Option (Char × List Char)
  | 'b' :: cs => some ('\x08', cs)
  | 't' :: cs => some ('\t', cs)
  | 'n' :: cs => some ('\n', cs)
  | 'f' :: cs => some ('\x0c', cs)
  | 'r' :: cs => some ('\r', cs)
  | '"' :: cs => some ('"', cs)
  | '\\' :: cs => some ('\\', cs)
  | 'u' :: cs => codePoint? 4 cs
  | 'U' :: cs => codePoint? 8 cs
  | _ => none
where
  /-- The character with a code point of `count` hexadecimal digits. -/
  codePoint? (count : Nat) (cs : List Char) : Option (Char × List Char) :=
    let ds := cs.take count
    if ds.length = count then
      (Text.natural? 16 ds).bind fun n =>
        if n.isValidChar then some (Char.ofNat n, cs.drop count) else none
    else none

/-- The rest of a one-line string in double quotes, read onto `done` in
reverse. -/
def basicString? : Nat → List Char → List Char → Option (String × List Char)
  | 0, _, _ => none
  | _, _, [] => none
  | _, done, '"' :: cs => some (String.ofList done.reverse, cs)
  | fuel + 1, done, '\\' :: cs =>
    match escaped? cs with
    | some (c, rest) => basicString? fuel (c :: done) rest
    | none => none
  | fuel + 1, done, c :: cs => if isLineChar c then basicString? fuel (c :: done) cs else none

/-- The rest of a one-line string in single quotes. -/
def literalString? (cs : List Char) : Option (String × List Char) :=
  let body := cs.takeWhile fun c => isLineChar c && c ≠ '\''
  match cs.drop body.length with
  | '\'' :: rest => some (String.ofList body, rest)
  | _ => none

/-- What a run of quotes in a tripled string stands for: up to two quotes are
text, and three to five end the string after up to two that are text. -/
inductive QuoteRun where
  | text (quotes : List Char) (rest : List Char)
  | closing (quotes : List Char) (rest : List Char)

/-- The run of quotes at the head of a text that begins with one. -/
def quoteRun (q : Char) (cs : List Char) : QuoteRun :=
  let count := (cs.takeWhile (· = q)).length
  if count < 3 then .text (List.replicate count q) (cs.drop count)
  else
    let kept := min (count - 3) 2
    .closing (List.replicate kept q) (cs.drop (kept + 3))

/-- The text after a line break that a backslash hides, with all blanks and
breaks that follow it. -/
def afterHiddenBreak? (cs : List Char) : Option (List Char) :=
  (afterBreak? (skipSpaces cs)).map skipBlankLines
where
  /-- The text after blanks and line breaks. -/
  skipBlankLines : List Char → List Char
    | ' ' :: cs => skipBlankLines cs
    | '\t' :: cs => skipBlankLines cs
    | '\n' :: cs => skipBlankLines cs
    | '\r' :: '\n' :: cs => skipBlankLines cs
    | cs => cs

/-- The rest of a tripled string, read onto `done` in reverse. In double quotes
(`escapes`) a backslash escapes a character or hides a line break. -/
def tripledString? (q : Char) (escapes : Bool) :
    Nat → List Char → List Char → Option (String × List Char)
  | 0, _, _ => none
  | _, _, [] => none
  | fuel + 1, done, c :: cs =>
    if c = q then
      match quoteRun q (c :: cs) with
      | .text quotes rest => tripledString? q escapes fuel (quotes ++ done) rest
      | .closing quotes rest => some (String.ofList (done.reverse ++ quotes), rest)
    else if escapes && c = '\\' then
      match afterHiddenBreak? cs with
      | some rest => tripledString? q escapes fuel done rest
      | none =>
        match escaped? cs with
        | some (d, rest) => tripledString? q escapes fuel (d :: done) rest
        | none => none
    else
      match afterBreak? (c :: cs) with
      | some rest => tripledString? q escapes fuel ('\n' :: done) rest
      | none => if isLineChar c then tripledString? q escapes fuel (c :: done) cs else none

/-- The text after the line break right after opening quotes, if there is one. -/
def skipFirstBreak (cs : List Char) : List Char :=
  (afterBreak? cs).getD cs

/-- A string of any form. -/
def string? : List Char → Option (String × List Char)
  | '"' :: '"' :: '"' :: cs => tripledString? '"' true (cs.length + 1) [] (skipFirstBreak cs)
  | '"' :: cs => basicString? (cs.length + 1) [] cs
  | '\'' :: '\'' :: '\'' :: cs =>
    tripledString? '\'' false (cs.length + 1) [] (skipFirstBreak cs)
  | '\'' :: cs => literalString? cs
  | _ => none

/-- A character of a bare key. -/
def isBareKeyChar (c : Char) : Bool :=
  c.isAlphanum || c = '_' || c = '-'

/-- One part of a key. -/
def simpleKey? : List Char → Option (String × List Char)
  | '"' :: cs => basicString? (cs.length + 1) [] cs
  | '\'' :: cs => literalString? cs
  | cs =>
    let word := cs.takeWhile isBareKeyChar
    if word.isEmpty then none else some (String.ofList word, cs.drop word.length)

/-- The parts of a key, with the blanks around them; `fuel` bounds their
number. -/
def keyParts? : Nat → List Char → Option (List String × List Char)
  | 0, _ => none
  | fuel + 1, cs => do
    let (part, rest) ← simpleKey? (skipSpaces cs)
    match skipSpaces rest with
    | '.' :: more =>
      let (parts, rest) ← keyParts? fuel more
      return (part :: parts, rest)
    | rest => return ([part], rest)

/-- The limit of nesting, for the parts of a key and for values in values. -/
def nestingLimit : Nat := 128

/-- A key. -/
def key? (cs : List Char) : Option (List String × List Char) :=
  keyParts? (nestingLimit - 1) cs

end CoherentMemory.Data.Toml
