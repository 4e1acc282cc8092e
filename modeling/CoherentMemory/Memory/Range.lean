import CoherentMemory.Memory.Size

/-!
# Address ranges

A range holds the addresses from `first` to `last`, both included. It is never
empty and never the whole address space, so that its size is a 64-bit number:
both facts are part of the type. `ofBounds` builds a range from its bounds,
`ofSize` from its first address and size.
-/

namespace CoherentMemory.Memory

/-- The addresses from `first` to `last`. -/
structure Range where
  first : UInt64
  last : UInt64
  first_le_last : first.toNat ≤ last.toNat
  span_lt : last.toNat - first.toNat + 1 < 0x10000000000000000
deriving DecidableEq

namespace Range

/-- The range between two addresses. -/
def ofBounds (first last : UInt64) : Except ConfigError Range :=
  if h : first.toNat ≤ last.toNat ∧ last.toNat - first.toNat + 1 < 0x10000000000000000 then
    .ok ⟨first, last, h.1, h.2⟩
  else .error (.invalidRange first last)

/-- The range of `size` bytes that begins at `base`. A size of zero, and a range
that runs past the last address, are reported by the bounds that 64-bit
arithmetic gives them. -/
def ofSize (base : UInt64) (size : Size) : Except ConfigError Range :=
  let last := base + size.bytes - 1
  if 1 ≤ size.bytes.toNat ∧ base.toNat + (size.bytes.toNat - 1) < 0x10000000000000000 then
    ofBounds base last
  else .error (.invalidRange base last)

/-- The number of bytes in the range. -/
def size (r : Range) : Size :=
  ⟨UInt64.ofNatLT (r.last.toNat - r.first.toNat + 1) r.span_lt⟩

/-- Whether an address lies in the range. -/
def contains (r : Range) (address : UInt64) : Bool :=
  r.first.toNat ≤ address.toNat && address.toNat ≤ r.last.toNat

@[simp] theorem toNat_size (r : Range) :
    r.size.bytes.toNat = r.last.toNat - r.first.toNat + 1 :=
  UInt64.toNat_ofNatLT

theorem contains_iff (r : Range) (a : UInt64) :
    r.contains a = true ↔ r.first.toNat ≤ a.toNat ∧ a.toNat ≤ r.last.toNat := by
  simp only [contains, Bool.and_eq_true, decide_eq_true_eq]

end Range

end CoherentMemory.Memory
