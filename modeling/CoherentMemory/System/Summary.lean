import CoherentMemory.Data.Value
import CoherentMemory.System.Assembly

/-!
# Summaries as structured values

The overview of a system as a record, in the order in which reports show its
fields.
-/

namespace CoherentMemory

open Data

/-- A size as a text. -/
def Memory.Size.toValue (s : Memory.Size) : Value :=
  .text s.render

/-- The debug settings as a record. -/
def DebugSettings.toValue (d : DebugSettings) : Value :=
  .record [("filter_string", .text d.filter), ("verbosity_string", .text d.verbosity),
    ("protocol_trace", .bool d.protocolTrace)]

/-- An overview as a record. -/
def Summary.toValue (s : Summary) : Value :=
  .record [("clock", .text s.clock), ("topology", .text s.topology.name),
    ("network", .text s.network.name), ("nodes", .ofNat s.nodes), ("routers", .ofNat s.routers),
    ("links", .ofNat s.links), ("mem_size", s.size.toValue),
    ("ports", .list (s.ports.map .text)), ("controllers", .ofNat s.controllers),
    ("debug", s.debug.toValue)]

end CoherentMemory
