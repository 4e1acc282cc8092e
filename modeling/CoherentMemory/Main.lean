import CoherentMemory.CommandLine.Program

/-!
# The program's entry

Reads the configuration file that the arguments name, runs the program on its
content, and prints what it gives.
-/

namespace CoherentMemory

open CommandLine

/-- A failure of the system by its number, which some calls give with the opposite
sign. -/
def failureOfCode (code : UInt32) (description : String) : FileContent :=
  let number := if code < 0x80000000 then code else -code
  match number.toNat with
  | 2 => .missing
  | 13 => .failure "Permission denied" 13
  | 20 => .failure "Not a directory" 20
  | 21 => .directory
  | 36 => .failure "File name too long" 36
  | 40 => .failure "Too many levels of symbolic links" 40
  | n => .failure description n

/-- What a failed reading gives. -/
def failureOf : IO.Error → FileContent
  | .noFileOrDirectory _ code description
  | .inappropriateType _ code description
  | .permissionDenied _ code description
  | .invalidArgument _ code description
  | .resourceExhausted _ code description
  | .otherError code description => failureOfCode code description
  | e => .failure e.toString 0

/-- What reading the file under a path gives. -/
def readContent (path : String) : IO FileContent := do
  try
    return .bytes (← IO.FS.readBinFile path)
  catch e =>
    return failureOf e

end CoherentMemory

open CoherentMemory CommandLine in
/-- The program. -/
def main (arguments : List String) : IO UInt32 := do
  let content ← match parse arguments with
    | .run { config := some path, .. } => readContent path
    | _ => pure .missing
  let outcome := run arguments fun _ => content
  IO.print outcome.output
  IO.eprint outcome.complaint.message
  return outcome.status
