import CoherentMemory.Text.Blank
import CoherentMemory.Text.Quoted

/-!
# Kinds of network model

A network model is the simple one, which knows latencies only, or a detailed one
with router pipelines of fixed or configurable depth. An option that is absent
or blank selects the simple model.
-/

namespace CoherentMemory.Network

/-- The kinds of network model. -/
inductive Kind where
  | simple
  | fixedGarnet
  | flexibleGarnet
deriving DecidableEq, Repr

/-- Why no network model is built. -/
inductive NetworkError where
  /-- A text that names no kind of model. -/
  | unsupportedKind (text : String)
  /-- A router whose buffer slots do not fit in 64 bits. -/
  | bufferOverflow (router : Nat)
deriving DecidableEq, Repr

/-- The wording of a failure. -/
def NetworkError.message : NetworkError → String
  | .unsupportedKind text =>
    "unsupported network kind " ++ Text.quoted text ++ " (expected simple, fixed or flexible)"
  | .bufferOverflow router =>
    "garnet router " ++ toString router ++ " has more buffer slots than fit in 64 bits"

namespace Kind

/-- The name of a kind. -/
def name : Kind → String
  | .simple => "simple"
  | .fixedGarnet => "fixed-garnet"
  | .flexibleGarnet => "flexible-garnet"

/-- The name of a kind in descriptions of a network. -/
def title : Kind → String
  | .simple => "Simple"
  | .fixedGarnet => "FixedGarnet"
  | .flexibleGarnet => "FlexibleGarnet"

/-- Reads the name of a kind; blanks at its ends do not count. -/
def parse (s : String) : Except NetworkError Kind :=
  match Text.trimmed s with
  | "" | "none" | "simple" => .ok .simple
  | "fixed" | "fixed-garnet" => .ok .fixedGarnet
  | "flexible" | "flexible-garnet" => .ok .flexibleGarnet
  | other => .error (.unsupportedKind other)

/-- The kind that an optional name selects. -/
def ofOption : Option String → Except NetworkError Kind
  | none => .ok .simple
  | some s => parse s

end Kind

end CoherentMemory.Network
