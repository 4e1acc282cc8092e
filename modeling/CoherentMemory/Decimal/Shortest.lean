import CoherentMemory.Decimal.Binary64

/-!
# Shortest decimals

The text of a floating-point number is the decimal with the fewest digits among
those nearer to it than to any other value; of several such decimals the one
closest to it, and of two equally close ones the larger. It is written
positionally, never with an exponent and without a point if no digit follows
it. `Magnitude.shortest` finds the digits and `positional` sets them out.
-/

namespace CoherentMemory.Decimal

/-- The decimal number `digits · 10^exponent`. -/
structure Scientific where
  digits : Nat
  exponent : Int
deriving DecidableEq, Repr

/-- The decimal as a quotient of naturals. -/
def Scientific.ratio (d : Scientific) : Nat × Nat :=
  (d.digits * Nat.pow 10 d.exponent.toNat, Nat.pow 10 (-d.exponent).toNat)

/-- The midpoints between a value and its neighbours, in quarters of its last
place. -/
def Magnitude.midpoints (x : Magnitude) : Magnitude × Magnitude :=
  let below := if x.narrowBelow then 4 * x.mantissa - 1 else 4 * x.mantissa - 2
  (⟨below, x.exponent - 2, false⟩, ⟨4 * x.mantissa + 2, x.exponent - 2, false⟩)

/-- Whether the decimal rounds to `x`: it lies between the two midpoints, which
themselves round to the even mantissa. -/
def Magnitude.readsBack (x : Magnitude) (d : Scientific) : Bool :=
  let (n, k) := d.ratio
  let (ln, lk) := x.midpoints.1.ratio
  let (un, uk) := x.midpoints.2.ratio
  if x.mantissa % 2 = 0 then ln * k ≤ n * lk && n * uk ≤ un * k
  else ln * k < n * lk && n * uk < un * k

/-- The number of digits before the point of a quotient at least one; otherwise
minus the number of zeros after the point. -/
def decimalScale (num den : Nat) : Int :=
  if den ≤ num then (Nat.toDigits 10 (num / den)).length
  else 1 - ((Nat.toDigits 10 ((den + num - 1) / num - 1)).length : Int)

/-- The decimal of `places` digits closest to `x` from below and the one from
above, the better of those that read back as `x`. -/
def Magnitude.decimalWith? (x : Magnitude) (scale : Int) (places : Nat) : Option Scientific :=
  let e := scale - places
  let (num, den) := x.ratio
  let lower := num * Nat.pow 10 (-e).toNat / (den * Nat.pow 10 e.toNat)
  let down : Scientific := ⟨lower, e⟩
  let up : Scientific := ⟨lower + 1, e⟩
  let closerDown := 2 * num * Nat.pow 10 (-e).toNat < (2 * lower + 1) * (den * Nat.pow 10 e.toNat)
  match x.readsBack down, x.readsBack up with
  | true, true => some (if closerDown then down else up)
  | true, false => some down
  | false, true => some up
  | false, false => none

/-- The shortest decimal of a positive value. Seventeen digits always suffice;
the exact value stands in for an answer that cannot fail to be found. -/
def Magnitude.shortest (x : Magnitude) : Scientific :=
  let (num, den) := x.ratio
  let scale := decimalScale num den
  match (List.range 17).findSome? fun i => x.decimalWith? scale (i + 1) with
  | some d => d
  | none =>
    if 0 ≤ x.exponent then ⟨num, 0⟩
    else ⟨x.mantissa * Nat.pow 5 (-x.exponent).toNat, x.exponent⟩

/-- Fractional digits without the zeros at their end. -/
def withoutEndZeros (ds : List Char) : List Char :=
  (ds.reverse.dropWhile (· == '0')).reverse

/-- Positional notation: no exponent, and no point unless a digit other than
zero follows it. -/
def positional (d : Scientific) : List Char :=
  let ds := Nat.toDigits 10 d.digits
  if 0 ≤ d.exponent then
    if d.digits = 0 then ['0'] else ds ++ List.replicate d.exponent.toNat '0'
  else
    let places := (-d.exponent).toNat
    let padded := List.replicate (places + 1 - ds.length) '0' ++ ds
    let whole := padded.take (padded.length - places)
    let fraction := withoutEndZeros (padded.drop (padded.length - places))
    if fraction.isEmpty then whole else whole ++ '.' :: fraction

/-- The text of a floating-point number. -/
def floatText (x : Float) : List Char :=
  if x.isNaN then "NaN".toList
  else
    let bits := x.toBits
    let sign := if bits.toNat < 0x8000000000000000 then [] else ['-']
    if x.isInf then sign ++ "inf".toList
    else
      let m := Magnitude.ofBits bits
      if m.mantissa = 0 then sign ++ ['0'] else sign ++ positional m.shortest

end CoherentMemory.Decimal
