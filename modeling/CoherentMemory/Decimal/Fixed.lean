import CoherentMemory.Decimal.Binary64

/-!
# Decimals with two places

Averages and rates are written with two digits after the point. The exact value
is rounded, not its shortest decimal, and a half goes to the even neighbour.
-/

namespace CoherentMemory.Decimal

/-- The hundredths nearest to a magnitude. -/
def Magnitude.hundredths (x : Magnitude) : Nat :=
  let (num, den) := x.ratio
  roundHalfEven (100 * num) den

/-- A number of hundredths, with a point before the last two digits. -/
def twoPlaces (hundredths : Nat) : List Char :=
  let fraction := hundredths % 100
  Nat.toDigits 10 (hundredths / 100) ++
    ['.', (fraction / 10).digitChar, (fraction % 10).digitChar]

/-- The text of a finite number that is not negative, with two places. -/
def fixedText (x : Float) : List Char :=
  twoPlaces (Magnitude.ofBits x.toBits).hundredths

end CoherentMemory.Decimal
