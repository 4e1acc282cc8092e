/-!
# Numerals

Reading and writing natural numbers in a base up to sixteen. `natural?` reads
one or more digits, `unsigned?` also accepts one plus sign before them, and
`word?` accepts the values that fit in 64 bits. `decimal` and `hexadecimal`
write; `natural?_decimal` says that a written decimal reads back.
-/

namespace CoherentMemory.Text

/-- The value of a digit below `base`; letters of either case stand for ten to
fifteen. -/
def digit? (base : Nat) (c : Char) : Option Nat :=
  let n := c.toNat
  let v :=
    if 0x30 ≤ n && n ≤ 0x39 then n - 0x30
    else if 0x61 ≤ n && n ≤ 0x66 then n - 0x57
    else if 0x41 ≤ n && n ≤ 0x46 then n - 0x37
    else base
  if v < base then some v else none

/-- The value of digits that follow a numeral of value `acc`. -/
def valueFrom? (base : Nat) : Nat → List Char → Option Nat
  | acc, [] => some acc
  | acc, c :: cs => (digit? base c).bind fun d => valueFrom? base (base * acc + d) cs

/-- The value of one or more digits. -/
def natural? (base : Nat) : List Char → Option Nat
  | [] => none
  | c :: cs => valueFrom? base 0 (c :: cs)

/-- The value of one or more digits after at most one plus sign. -/
def unsigned? (base : Nat) : List Char → Option Nat
  | '+' :: cs => natural? base cs
  | cs => natural? base cs

/-- The value of a numeral that fits in 64 bits. -/
def word? (base : Nat) (cs : List Char) : Option UInt64 :=
  (unsigned? base cs).bind fun n =>
    if h : n < UInt64.size then some (UInt64.ofNatLT n h) else none

/-- What follows the mark `0x` or `0X` of a hexadecimal numeral. -/
def hexadecimalBody? : List Char → Option (List Char)
  | '0' :: 'x' :: cs => some cs
  | '0' :: 'X' :: cs => some cs
  | _ => none

/-- The decimal digits of `n`, without leading zeros. -/
def decimal (n : Nat) : List Char :=
  Nat.toDigits 10 n

/-- The digits of `n` in base sixteen, in lower case after `0x`. -/
def hexadecimal (n : Nat) : List Char :=
  '0' :: 'x' :: Nat.toDigits 16 n

theorem digit?_digitChar {d : Nat} (h : d < 10) : digit? 10 d.digitChar = some d := by
  match d, h with
  | 0, _ | 1, _ | 2, _ | 3, _ | 4, _ | 5, _ | 6, _ | 7, _ | 8, _ | 9, _ => decide

theorem valueFrom?_append (base acc : Nat) (cs ds : List Char) :
    valueFrom? base acc (cs ++ ds) =
      (valueFrom? base acc cs).bind fun v => valueFrom? base v ds := by
  induction cs generalizing acc with
  | nil => rfl
  | cons c cs ih =>
    simp only [List.cons_append, valueFrom?]
    cases digit? base c with
    | none => rfl
    | some d => exact ih _

theorem decimal_of_lt {n : Nat} (h : n < 10) : decimal n = [n.digitChar] :=
  Nat.toDigits_of_lt_base h

theorem decimal_of_le {n : Nat} (h : 10 ≤ n) :
    decimal n = decimal (n / 10) ++ [(n % 10).digitChar] := by
  unfold decimal
  rw [Nat.toDigits_eq_if (by decide), if_neg (by omega)]

theorem decimal_ne_nil (n : Nat) : decimal n ≠ [] :=
  Nat.toDigits_ne_nil

theorem isDigit_of_mem_decimal {n : Nat} {c : Char} (h : c ∈ decimal n) : c.isDigit = true :=
  Nat.isDigit_of_mem_toDigits (by decide) (by decide) h

theorem valueFrom?_decimal (n : Nat) : valueFrom? 10 0 (decimal n) = some n := by
  induction n using Nat.strongRecOn with
  | ind n ih =>
    by_cases h : n < 10
    · simp only [decimal_of_lt h, valueFrom?, digit?_digitChar h, Option.bind_some, Nat.mul_zero,
        Nat.zero_add]
    · rw [decimal_of_le (by omega), valueFrom?_append, ih (n / 10) (by omega), Option.bind_some]
      simp only [valueFrom?, digit?_digitChar (Nat.mod_lt n (by decide : 0 < 10)), Option.bind_some,
        Option.some.injEq]
      omega

/-- A written decimal reads back. -/
theorem natural?_decimal (n : Nat) : natural? 10 (decimal n) = some n := by
  have h := valueFrom?_decimal n
  cases hd : decimal n with
  | nil => exact absurd hd (decimal_ne_nil n)
  | cons c cs => rw [hd] at h; exact h

end CoherentMemory.Text
