import CoherentMemory.Event
import CoherentMemory.Settings.Basic

/-!
# Protocol factories

A coherence protocol contributes the controllers of a system. Its factory makes
them from the machine settings, the physical memory and the devices, or says why
it does not; it may also come to an overflow.
-/

namespace CoherentMemory

/-- Why a protocol makes no controllers. -/
inductive ProtocolError where
  /-- No factory has the name. -/
  | unknown (protocol : String)
  /-- The factory rejects what it is given. -/
  | rejected (protocol reason : String)
deriving DecidableEq, Repr

/-- The wording of a failure. -/
def ProtocolError.message : ProtocolError → String
  | .unknown protocol =>
    "could not create system for ruby protocol " ++ protocol ++ ": protocol not registered"
  | .rejected protocol reason =>
    "could not create system for ruby protocol " ++ protocol ++ ": " ++ reason

/-- The factory of a protocol. -/
structure Factory where
  name : String
  create : MachineSettings → Memory.Range → List Device →
    Logged (Failure ProtocolError) ControllerSet

end CoherentMemory
