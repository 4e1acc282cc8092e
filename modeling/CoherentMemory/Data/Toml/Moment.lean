/-!
# Dates and times in TOML

`moment?` reads a date, a time of day, or a date and a time with an optional
offset, and checks the ranges of their parts. Only the extent of the text
matters to its caller.
-/

namespace CoherentMemory.Data.Toml

/-- Exactly `count` digits, and their value. -/
def fixedDigits? (count : Nat) (cs : List Char) : Option (Nat × List Char) :=
  let ds := cs.take count
  if ds.length = count && ds.all Char.isDigit then
    some (Nat.ofDigitChars 10 ds 0, cs.drop count)
  else none

/-- Two digits with a value from `low` to `high`. -/
def twoDigits? (low high : Nat) (cs : List Char) : Option (Nat × List Char) :=
  (fixedDigits? 2 cs).bind fun (n, rest) => if low ≤ n && n ≤ high then some (n, rest) else none

/-- The text after a given character. -/
def after? (c : Char) : List Char → Option (List Char)
  | d :: cs => if d = c then some cs else none
  | [] => none

/-- The text after a date. Every month has the days from 1 to 31. -/
def afterDate? (cs : List Char) : Option (List Char) := do
  let (_, cs) ← fixedDigits? 4 cs
  let cs ← after? '-' cs
  let (_, cs) ← twoDigits? 1 12 cs
  let cs ← after? '-' cs
  let (_, cs) ← twoDigits? 1 31 cs
  return cs

/-- The text after a fraction of a second, if there is one. -/
def afterFraction (cs : List Char) : List Char :=
  match cs with
  | '.' :: d :: rest => if d.isDigit then rest.dropWhile Char.isDigit else cs
  | _ => cs

/-- The text after a time of day. -/
def afterTime? (cs : List Char) : Option (List Char) := do
  let (_, cs) ← twoDigits? 0 23 cs
  let cs ← after? ':' cs
  let (_, cs) ← twoDigits? 0 59 cs
  let cs ← after? ':' cs
  let (_, cs) ← twoDigits? 0 60 cs
  return afterFraction cs

/-- The text after an offset, if there is one; a sign must begin an offset. -/
def afterOffset? (cs : List Char) : Option (List Char) :=
  match cs with
  | 'Z' :: rest | 'z' :: rest => some rest
  | c :: rest =>
    if c = '+' || c = '-' then do
      let (_, rest) ← twoDigits? 0 23 rest
      let rest ← after? ':' rest
      let (_, rest) ← twoDigits? 0 59 rest
      return rest
    else some cs
  | [] => some []

/-- The text after a date with an optional time, or after a time. -/
def afterMoment? (cs : List Char) : Option (List Char) :=
  match afterDate? cs with
  | some rest =>
    match rest with
    | c :: more =>
      if c = 'T' || c = 't' || c = ' ' then
        match afterTime? more with
        | some rest => afterOffset? rest
        | none => some rest
      else some rest
    | [] => some []
  | none => afterTime? cs

end CoherentMemory.Data.Toml
