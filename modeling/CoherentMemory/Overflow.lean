/-!
# Overflow

Sums of costs and counts are 64-bit numbers. A sum or product that would leave
them has no value; the operation reports an `Overflow` instead. So does asking for
a list with more bytes than one list can have. This is checked where the room is
asked for before the list is filled, unless a list with as many bytes is there
already. How much room a list takes that grows while it is filled is not laid down
and not checked: for machines with so many parts a system is promised only where
every list has room for twice its length.

An overflow stops the program. An operation that can also refuse what it is given
fails in two ways, and a `Failure` tells them apart.
-/

namespace CoherentMemory

/-- The operations that can leave the 64-bit numbers, and lists that are too long. -/
inductive Overflow where
  | addition
  | multiplication
  | capacity
deriving DecidableEq, Repr

/-- The wording of an overflow. -/
def Overflow.message : Overflow → String
  | .addition => "attempt to add with overflow"
  | .multiplication => "attempt to multiply with overflow"
  | .capacity => "capacity overflow"

/-- How an operation comes to no result: by an error of its own, which it returns, or at
an overflow, where it returns nothing. -/
inductive Failure (ε : Type) where
  | refusal (error : ε)
  | overflow (cause : Overflow)
deriving DecidableEq, Repr

/-- The same failure with its error in other terms. -/
def Failure.map {ε ε' : Type} (f : ε → ε') : Failure ε → Failure ε'
  | .refusal error => .refusal (f error)
  | .overflow cause => .overflow cause

/-- The sum of two numbers, if it fits in 64 bits. -/
def checkedAdd (a b : Nat) : Except Overflow Nat :=
  if a + b < 0x10000000000000000 then .ok (a + b) else .error .addition

/-- The product of two numbers, if it fits in 64 bits. -/
def checkedMul (a b : Nat) : Except Overflow Nat :=
  if a * b < 0x10000000000000000 then .ok (a * b) else .error .multiplication

/-- The number of elements of a list whose elements have `width` bytes each, if it has
less than 2⁶³ bytes. -/
def checkedCapacity (n width : Nat) : Except Overflow Nat :=
  if n * width < 0x8000000000000000 then .ok n else .error .capacity

theorem checkedAdd_eq_ok {a b c : Nat} :
    checkedAdd a b = .ok c ↔ a + b = c ∧ a + b < 0x10000000000000000 := by
  unfold checkedAdd
  split <;> grind

theorem checkedMul_eq_ok {a b c : Nat} :
    checkedMul a b = .ok c ↔ a * b = c ∧ a * b < 0x10000000000000000 := by
  unfold checkedMul
  split <;> grind

theorem checkedCapacity_eq_ok {n width m : Nat} :
    checkedCapacity n width = .ok m ↔ n = m ∧ n * width < 0x8000000000000000 := by
  unfold checkedCapacity
  split <;> grind

end CoherentMemory
