import CoherentMemory.ConfigError
import CoherentMemory.Text.Blank
import CoherentMemory.Text.Numeral

/-!
# Memory sizes

A size is a 64-bit number of bytes. `render` writes it with the largest binary
unit that divides it exactly, `parse` reads a number of bytes in base sixteen or
a decimal number with an optional unit, always binary. Arithmetic that could
leave the 64 bits has no result there (`add?`, `scaled?`).
-/

namespace CoherentMemory.Memory

/-- A number of bytes. -/
structure Size where
  bytes : UInt64
deriving DecidableEq, Repr, Inhabited

namespace Size

/-- The size of `n` bytes, if the number fits in 64 bits. -/
def ofNat? (n : Nat) : Option Size :=
  if h : n < UInt64.size then some ⟨UInt64.ofNatLT n h⟩ else none

/-- The size of `n` units, if the number of bytes fits in 64 bits. -/
def scaled? (n unit : Nat) : Option Size :=
  ofNat? (n * unit)

/-- The sum of two sizes, if it fits in 64 bits. -/
def add? (a b : Size) : Option Size :=
  ofNat? (a.bytes.toNat + b.bytes.toNat)

def kib : Nat := 1024
def mib : Nat := 1024 * kib
def gib : Nat := 1024 * mib
def tib : Nat := 1024 * gib

/-- The units above the byte, the largest first. -/
def units : List (Nat × String) :=
  [(tib, "TiB"), (gib, "GiB"), (mib, "MiB"), (kib, "KiB")]

/-- The number of bytes `n` in the largest unit that divides it exactly. -/
def renderBytes (n : Nat) : String :=
  match units.find? fun u => n ≠ 0 ∧ n % u.1 = 0 with
  | some (unit, name) => toString (n / unit) ++ name
  | none => toString n ++ "B"

/-- The text of a size. -/
def render (s : Size) : String :=
  renderBytes s.bytes.toNat

/-- The number of bytes that a unit's spelling stands for. -/
def multiplier? (suffix : List Char) : Option Nat :=
  match String.ofList suffix with
  | "" | "B" => some 1
  | "k" | "kB" | "KB" | "KiB" => some kib
  | "M" | "MB" | "MiB" => some mib
  | "G" | "GB" | "GiB" => some gib
  | "T" | "TB" | "TiB" => some tib
  | _ => none

/-- The size that a trimmed text stands for. -/
def ofChars? (cs : List Char) : Option Size :=
  match Text.hexadecimalBody? cs with
  | some digits => (Text.word? 16 digits).map Size.mk
  | none =>
    (Text.natural? 10 (cs.takeWhile Char.isDigit)).bind fun n =>
      (multiplier? (Text.trim (cs.dropWhile Char.isDigit))).bind fun unit => scaled? n unit

/-- Reads a size; the text may have blanks at its ends. -/
def parse (s : String) : Except ConfigError Size :=
  match ofChars? (Text.trim s.toList) with
  | some size => .ok size
  | none => .error (.invalidSize s)

theorem toNat_bytes_lt (s : Size) : s.bytes.toNat < 0x10000000000000000 :=
  s.bytes.toNat_lt

theorem ofNat?_eq_some {n : Nat} {s : Size} : ofNat? n = some s ↔ s.bytes.toNat = n := by
  unfold ofNat?
  split
  · rename_i h
    constructor
    · rintro ⟨⟩; exact UInt64.toNat_ofNatLT
    · intro e
      obtain ⟨b⟩ := s
      simp only [Option.some.injEq, mk.injEq]
      exact UInt64.toNat_inj.1 (by rw [UInt64.toNat_ofNatLT]; exact e.symm)
  · rename_i h
    constructor
    · intro e; cases e
    · intro e; exact absurd (e ▸ s.toNat_bytes_lt) h

@[ext] theorem ext {a b : Size} (h : a.bytes.toNat = b.bytes.toNat) : a = b := by
  obtain ⟨a⟩ := a
  obtain ⟨b⟩ := b
  exact congrArg mk (UInt64.toNat_inj.1 h)

end Size

end CoherentMemory.Memory
