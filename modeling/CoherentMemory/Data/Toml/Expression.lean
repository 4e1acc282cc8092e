import CoherentMemory.Data.Toml.Moment
import CoherentMemory.Data.Toml.Number
import CoherentMemory.Data.Toml.Text

/-!
# Values and lines in TOML

A document is a sequence of expressions, one to a line: a key with its value, or
the header of a table or of an element of an array of tables. `expressions?`
reads them; what they mean together is the matter of the document. Values in
values nest up to a limit. An inline table is complete at its closing brace:
keys of several parts build tables inside it.
-/

namespace CoherentMemory.Data.Toml

/-- A line of a document. -/
inductive Expression where
  /-- A value under the last part of a key, in the table of the other parts. -/
  | pair (path : List String) (name : String) (value : Value)
  /-- The header of a table. -/
  | table (path : List String) (name : String)
  /-- The header of the next element of an array of tables. -/
  | element (path : List String) (name : String)

/-- A key as the parts before the last and the last. -/
def splitKey : List String → List String × String
  | [] => ([], "")
  | [name] => ([], name)
  | part :: next :: parts =>
    let (path, name) := splitKey (next :: parts)
    (part :: path, name)

/-- The fields of an inline table with one more value, in the table of `path`.
A key is not given twice, and only tables are entered. -/
def insertInline (path : List String) (name : String) (v : Value) (fields : Fields) :
    Option Fields :=
  match path with
  | [] => if fields.any (·.1 = name) then none else some (fields ++ [(name, v)])
  | part :: parts =>
    match Fields.get? fields part with
    | none => (insertInline parts name v []).map fun inner => fields ++ [(part, .record inner)]
    | some (.record inner) =>
      (insertInline parts name v inner).map fun inner =>
        fields.map fun f => if f.1 = part then (part, .record inner) else f
    | some _ => none

/-- A date, a time or a number. -/
def numeric? (cs : List Char) : Option (Value × List Char) :=
  match afterMoment? cs with
  | some rest => some (.moment, rest)
  | none =>
    match float? cs with
    | some r => some r
    | none => integer? cs

/-- The text after a given word. -/
def afterWord? (word : String) (cs : List Char) : Option (List Char) :=
  if word.toList.isPrefixOf cs then some (cs.drop word.length) else none

/-- The text after blanks, comments and line breaks, from inside a comment or
not. -/
def skipLines : (inComment : Bool) → List Char → List Char
  | _, [] => []
  | _, '\n' :: cs => skipLines false cs
  | _, '\r' :: '\n' :: cs => skipLines false cs
  | false, '#' :: cs => skipLines true cs
  | false, c :: cs => if isSpace c then skipLines false cs else c :: cs
  | true, c :: cs => if isLineChar c then skipLines true cs else c :: cs

mutual

/-- A value; `depth` counts the levels of nesting that are left. -/
def value? : (fuel depth : Nat) → List Char → Option (Value × List Char)
  | 0, _, _ => none
  | fuel + 1, depth, cs =>
    match cs with
    | '"' :: _ | '\'' :: _ => (string? cs).map fun (s, rest) => (.text s, rest)
    | '[' :: r =>
      match depth with
      | 0 => none
      | depth + 1 => (elements? fuel depth r).map fun (vs, rest) => (.list vs, rest)
    | '\x7b' :: r =>
      match depth with
      | 0 => none
      | depth + 1 =>
        match skipSpaces r with
        | '\x7d' :: rest => some (.record [], rest)
        | r => (members? fuel depth [] r).map fun (fs, rest) => (.record fs, rest)
    | 't' :: _ => (afterWord? "true" cs).map (.bool true, ·)
    | 'f' :: _ => (afterWord? "false" cs).map (.bool false, ·)
    | 'i' :: _ | 'n' :: _ => namedFloat? cs
    | cs => numeric? cs

/-- Values up to the closing bracket, with blanks, comments and line breaks
between them; a comma may follow the last. -/
def elements? : (fuel depth : Nat) → List Char → Option (List Value × List Char)
  | 0, _, _ => none
  | fuel + 1, depth, cs =>
    match skipLines false cs with
    | ']' :: rest => some ([], rest)
    | cs => do
      let (v, rest) ← value? fuel depth cs
      match skipLines false rest with
      | ',' :: rest =>
        let (vs, rest) ← elements? fuel depth rest
        return (v :: vs, rest)
      | ']' :: rest => return ([v], rest)
      | _ => none

/-- One or more keys with values up to the closing brace, entered into
`fields`. -/
def members? : (fuel depth : Nat) → Fields → List Char → Option (Fields × List Char)
  | 0, _, _, _ => none
  | fuel + 1, depth, fields, cs => do
    let (parts, rest) ← key? cs
    let rest ← after? '=' rest
    let (v, rest) ← value? fuel depth (skipSpaces rest)
    let (path, name) := splitKey parts
    let fields ← insertInline path name v fields
    match skipSpaces rest with
    | ',' :: rest => members? fuel depth fields rest
    | '\x7d' :: rest => return (fields, rest)
    | _ => none

end

/-- The text after the end of a line: blanks, a comment, and a line break unless
the text ends. -/
def afterLineEnd? (cs : List Char) : Option (List Char) :=
  match skipComment (skipSpaces cs) with
  | [] => some []
  | rest => afterBreak? rest

/-- A header or a key with its value. -/
def expression? : List Char → Option (Expression × List Char)
  | '[' :: '[' :: cs => do
    let (parts, rest) ← key? cs
    let rest ← after? ']' rest
    let rest ← after? ']' rest
    let (path, name) := splitKey parts
    return (.element path name, rest)
  | '[' :: cs => do
    let (parts, rest) ← key? cs
    let rest ← after? ']' rest
    let (path, name) := splitKey parts
    return (.table path name, rest)
  | cs => do
    let (parts, rest) ← key? cs
    let rest ← after? '=' rest
    let (v, rest) ← value? (2 * rest.length + 2) (nestingLimit - 1) (skipSpaces rest)
    let (path, name) := splitKey parts
    return (.pair path name v, rest)

/-- The expressions of a document; `fuel` bounds the number of lines. -/
def expressionsFrom? : Nat → List Char → Option (List Expression)
  | 0, _ => none
  | fuel + 1, cs =>
    match skipSpaces cs with
    | [] => some []
    | rest =>
      match afterLineEnd? rest with
      | some rest => expressionsFrom? fuel rest
      | none => do
        let (e, rest) ← expression? rest
        let rest ← afterLineEnd? rest
        let es ← expressionsFrom? fuel rest
        return e :: es

/-- The expressions of a document, which may begin with a byte-order mark. -/
def expressions? (s : String) : Option (List Expression) :=
  let cs := match s.toList with
    | '\ufeff' :: cs => cs
    | cs => cs
  expressionsFrom? (cs.length + 1) cs

end CoherentMemory.Data.Toml
