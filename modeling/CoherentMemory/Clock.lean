import CoherentMemory.ConfigError
import CoherentMemory.Decimal.Shortest
import CoherentMemory.Text.Blank

/-!
# Clock rates

A clock is a positive finite frequency in hertz. It is written in the unit that
leaves at least one before the point, and read as a frequency or as a period.
Simulated time counts ticks of a picosecond; `periodTicks` is the period in
ticks, rounded to the nearest, a half going up.
-/

namespace CoherentMemory

/-- A clock's frequency in hertz. -/
structure Clock where
  hertz : Float
deriving Inhabited

namespace Clock

/-- One gigahertz, the rate of a machine that names none. -/
def default : Clock :=
  ⟨1.0e9⟩

/-- The clock of a frequency, which is positive and finite. -/
def ofHertz (hertz : Float) : Except ConfigError Clock :=
  if hertz.isFinite && 0.0 < hertz then .ok ⟨hertz⟩
  else .error (.invalidClock (String.ofList (Decimal.floatText hertz)))

/-- The period in picoseconds; periods beyond 64 bits stop at the largest word. -/
def periodTicks (c : Clock) : UInt64 :=
  (1.0e12 / c.hertz).round.toUInt64

/-- The text of a clock. -/
def render (c : Clock) : String :=
  let scaled (unit : Float) (name : String) : String :=
    String.ofList (Decimal.floatText (c.hertz / unit)) ++ name
  if 1.0e9 ≤ c.hertz then scaled 1.0e9 "GHz"
  else if 1.0e6 ≤ c.hertz then scaled 1.0e6 "MHz"
  else if 1.0e3 ≤ c.hertz then scaled 1.0e3 "kHz"
  else String.ofList (Decimal.floatText c.hertz) ++ "Hz"

/-- The number that digits with at most one point between, before or after them
stand for. -/
def number? (cs : List Char) : Option Float :=
  let whole := cs.takeWhile Char.isDigit
  let fraction := (cs.dropWhile Char.isDigit).drop 1
  let digits := whole ++ fraction
  if digits.isEmpty || !fraction.all Char.isDigit then none
  else some (Decimal.nearestDecimal (Nat.ofDigitChars 10 digits 0) (-fraction.length))

/-- The frequency that a number and the spelling of a unit stand for. -/
def hertzOf? (value : Float) (unit : List Char) : Option Float :=
  match String.ofList unit with
  | "Hz" => some value
  | "kHz" => some (value * 1.0e3)
  | "MHz" => some (value * 1.0e6)
  | "GHz" => some (value * 1.0e9)
  | "s" => some (1.0 / value)
  | "ms" => some (1.0e3 / value)
  | "us" => some (1.0e6 / value)
  | "ns" => some (1.0e9 / value)
  | "ps" => some (1.0e12 / value)
  | _ => none

/-- The frequency that a trimmed text stands for. -/
def hertzOfChars? (cs : List Char) : Option Float :=
  let isNumeric (c : Char) : Bool := c.isDigit || c == '.'
  (number? (cs.takeWhile isNumeric)).bind fun value =>
    hertzOf? value (Text.trim (cs.dropWhile isNumeric))

/-- Reads a clock; the text may have blanks at its ends. -/
def parse (s : String) : Except ConfigError Clock :=
  match hertzOfChars? (Text.trim s.toList) with
  | some hertz =>
    match ofHertz hertz with
    | .ok clock => .ok clock
    | .error _ => .error (.invalidClock s)
  | none => .error (.invalidClock s)

end Clock

end CoherentMemory
