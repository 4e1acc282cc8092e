import CoherentMemory.Event
import CoherentMemory.Text.Numeral

/-!
# Tracing protocol transitions

A tracer that is on reports every transition of a controller as one event; a
tracer that is off reports nothing.
-/

namespace CoherentMemory

/-- A transition of a controller. -/
structure Transition where
  controller : String
  address : UInt64
  event : String
  nextState : String
deriving DecidableEq, Repr

/-- The recorder of transitions. -/
structure Tracer where
  enabled : Bool
deriving DecidableEq, Repr

/-- The event that reports a transition. -/
def Transition.report (t : Transition) : Event where
  level := .trace
  target := "ruby::trace"
  fields := [("controller", t.controller),
    ("addr", String.ofList (Text.hexadecimal t.address.toNat)), ("event", t.event),
    ("next_state", t.nextState), ("message", "protocol transition")]

/-- The events that a tracer reports for a transition. -/
def Tracer.record (t : Tracer) (transition : Transition) : List Event :=
  if t.enabled then [transition.report] else []

end CoherentMemory
