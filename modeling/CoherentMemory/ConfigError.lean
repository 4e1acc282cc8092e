import CoherentMemory.Text.Quoted

/-!
# Rejected configuration values

Why a configuration value was not accepted. `message` gives the wording; texts
are quoted as the configuration gives them.
-/

namespace CoherentMemory

/-- The causes for which a configuration value is rejected. -/
inductive ConfigError where
  /-- A text that is no memory size. -/
  | invalidSize (text : String)
  /-- A text that is no clock rate. -/
  | invalidClock (text : String)
  /-- Bounds that are out of order, or that cover the whole address space. -/
  | invalidRange (first last : UInt64)
  /-- A text that names no verbosity. -/
  | invalidVerbosity (text : String)
  /-- A configuration or an address in it that could not be read. -/
  | unreadable (reason : String)
deriving DecidableEq, Repr

/-- The wording of a rejection. -/
def ConfigError.message : ConfigError → String
  | .invalidSize text => "invalid memory size: " ++ Text.quoted text
  | .invalidClock text => "invalid clock: " ++ Text.quoted text
  | .invalidRange first last =>
    "invalid address range [" ++ String.ofList (Text.hexadecimal first.toNat) ++ ", " ++
      String.ofList (Text.hexadecimal last.toNat) ++ "]"
  | .invalidVerbosity text => "invalid debug verbosity: " ++ Text.quoted text
  | .unreadable reason => "failed to load configuration: " ++ reason

end CoherentMemory
