/-!
# Binary64 values as exact numbers

A finite binary64 value is `m · 2^q`. `Magnitude.ofBits` reads `m` and `q` off
the bits, and `nearestBits` goes back: the bits of the value nearest to a
quotient of naturals, a tie going to the even `m`. Everything is exact
arithmetic on naturals; the floating-point unit only carries the bits.
-/

namespace CoherentMemory.Decimal

/-- The magnitude of a finite value, `mantissa · 2^exponent`. -/
structure Magnitude where
  mantissa : Nat
  exponent : Int
  /-- The gap to the value below is half the gap to the value above. -/
  narrowBelow : Bool
deriving DecidableEq, Repr

/-- The bits of positive infinity. -/
def infinityBits : Nat :=
  0x7FF * Nat.pow 2 52

/-- The magnitude that the bits of a finite value stand for. -/
def Magnitude.ofBits (bits : UInt64) : Magnitude :=
  let field : Nat := bits.toNat / Nat.pow 2 52 % Nat.pow 2 11
  let fraction : Nat := bits.toNat % Nat.pow 2 52
  if field = 0 then ⟨fraction, -1074, false⟩
  else ⟨Nat.pow 2 52 + fraction, (field : Int) - 1075, fraction = 0 && 1 < field⟩

/-- The magnitude as a quotient of naturals. -/
def Magnitude.ratio (x : Magnitude) : Nat × Nat :=
  (x.mantissa * Nat.pow 2 x.exponent.toNat, Nat.pow 2 (-x.exponent).toNat)

/-- The quotient rounded to an integer, a half going to the even neighbour. -/
def roundHalfEven (num den : Nat) : Nat :=
  let q := num / den
  let twice := 2 * (num % den)
  if twice < den then q
  else if den < twice then q + 1
  else q + q % 2

/-- The exponent of the binary64 grid on which the positive quotient `num / den`
lies: the mantissa then has 53 binary digits, or the exponent is the least. -/
def gridExponent (num den : Nat) : Int :=
  let s : Int := (Nat.log2 num : Int) - Nat.log2 den
  let reaches := den * Nat.pow 2 s.toNat ≤ num * Nat.pow 2 (-s).toNat
  max (-1074) (if reaches then s - 52 else s - 53)

/-- The bits of the binary64 value nearest to `num / den`; quotients beyond the
largest value go to infinity. -/
def nearestBits (num den : Nat) : UInt64 :=
  if num = 0 then 0
  else
    let e := gridExponent num den
    let m := roundHalfEven (num * Nat.pow 2 (-e).toNat) (den * Nat.pow 2 e.toNat)
    UInt64.ofNat (min infinityBits (m + (e + 1074).toNat * Nat.pow 2 52))

/-- The bits of the value nearest to `digits · 10^exponent`. Powers so far out
that the answer is zero or infinity are not computed. -/
def nearestDecimalBits (digits : Nat) (exponent : Int) : UInt64 :=
  let scale := exponent + (Nat.toDigits 10 digits).length
  if digits = 0 then 0
  else if 400 < scale then UInt64.ofNat infinityBits
  else if scale < -400 then 0
  else nearestBits (digits * Nat.pow 10 exponent.toNat) (Nat.pow 10 (-exponent).toNat)

/-- The value nearest to `digits · 10^exponent`. -/
def nearestDecimal (digits : Nat) (exponent : Int) : Float :=
  Float.ofBits (nearestDecimalBits digits exponent)

end CoherentMemory.Decimal
