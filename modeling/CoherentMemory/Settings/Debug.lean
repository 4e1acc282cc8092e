import CoherentMemory.ConfigError
import CoherentMemory.Text.Blank

/-!
# Debug settings

Which components report, and how much: a filter that is `none`, `all` or a list
of component names divided by commas, a verbosity, and whether protocol
transitions are traced.
-/

namespace CoherentMemory

/-- How much is reported. -/
inductive Verbosity where
  | none
  | low
  | med
  | high
deriving DecidableEq, Repr

namespace Verbosity

/-- The name of a verbosity. -/
def name : Verbosity → String
  | .none => "none"
  | .low => "low"
  | .med => "med"
  | .high => "high"

/-- The verbosities in ascending order. -/
def rank : Verbosity → Nat
  | .none => 0
  | .low => 1
  | .med => 2
  | .high => 3

/-- Reads the name of a verbosity; blanks at its ends and the case of ASCII letters
do not count. -/
def parse (s : String) : Except ConfigError Verbosity :=
  match String.ofList ((Text.trim s.toList).map Char.toLower) with
  | "none" => .ok .none
  | "low" => .ok .low
  | "med" | "medium" => .ok .med
  | "high" => .ok .high
  | _ => .error (.invalidVerbosity s)

end Verbosity

/-- The debug settings of a system. -/
structure DebugSettings where
  filter : String := "none"
  verbosity : String := "none"
  protocolTrace : Bool := false
deriving DecidableEq, Repr

namespace DebugSettings

/-- The parts of a text between commas. -/
def parts : List Char → List (List Char)
  | [] => [[]]
  | c :: cs =>
    if c = ',' then [] :: parts cs
    else
      match parts cs with
      | [] => [[c]]
      | p :: ps => (c :: p) :: ps

/-- Whether reports of a component pass the filter. -/
def allows (d : DebugSettings) (component : String) : Bool :=
  match Text.trimmed d.filter with
  | "none" | "" => false
  | "all" => true
  | list => (parts list.toList).any fun p => Text.trim p = component.toList

/-- The verbosity that the settings name. -/
def verbosity? (d : DebugSettings) : Except ConfigError Verbosity :=
  Verbosity.parse d.verbosity

end DebugSettings

end CoherentMemory
