import CoherentMemory.Memory.Range

/-!
# Physical memory

Where physical memory lies: a base address, given as a text in base ten or
sixteen, and a size. `range` is the range of addresses it covers.
-/

namespace CoherentMemory

/-- Reads an address in base ten, or in base sixteen after `0x`. -/
def parseAddress (s : String) : Except ConfigError UInt64 :=
  let cs := Text.trim s.toList
  let value := match Text.hexadecimalBody? cs with
    | some digits => Text.word? 16 digits
    | none => Text.word? 10 cs
  match value with
  | some address => .ok address
  | none => .error (.unreadable ("invalid address " ++ Text.quoted (String.ofList cs)))

/-- The place of physical memory. -/
structure PhysicalMemory where
  base : String := "0x0"
  size : Memory.Size := ⟨512 * 1024 * 1024⟩
deriving DecidableEq, Repr

namespace PhysicalMemory

/-- The first address. -/
def baseAddress (m : PhysicalMemory) : Except ConfigError UInt64 :=
  parseAddress m.base

/-- The addresses from the base on, as many as the size says. -/
def range (m : PhysicalMemory) : Except ConfigError Memory.Range :=
  m.baseAddress.bind fun base => Memory.Range.ofSize base m.size

end PhysicalMemory

end CoherentMemory
