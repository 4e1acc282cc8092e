import CoherentMemory.Data.Json.Parser
import CoherentMemory.Data.Toml.Document
import CoherentMemory.Settings.Basic
import CoherentMemory.Settings.Section

/-!
# Decoding settings

Settings are read from a structured value, section by section, with the same rule
for every field. A size is a number of bytes or a text, a clock is a text. A
section that is not given is the default section. A field that is not given has the
default that stands beside its name; these are the defaults of the structures once
more, so that an empty section is the default section, too.
-/

namespace CoherentMemory

open Data Network

/-- Why a value is no size. -/
inductive SizeMisfit where
  /-- A text that is no memory size. -/
  | text (error : ConfigError)
  /-- Neither a number of bytes nor a text. -/
  | shape
deriving DecidableEq, Repr

/-- The wording of a misfit. -/
def SizeMisfit.message : SizeMisfit → String
  | .text error => error.message
  | .shape => "data did not match any variant of untagged enum Raw"

/-- A size from a number of bytes or a text. -/
def Memory.Size.ofValue (v : Value) : Except SizeMisfit Memory.Size :=
  match v.word64?, v with
  | some bytes, _ => .ok ⟨bytes⟩
  | none, .text s => (Memory.Size.parse s).mapError .text
  | none, _ => .error .shape

/-- A clock from a text; `none` for a value that is not a text. -/
def Clock.ofValue? (v : Value) : Option (Except ConfigError Clock) :=
  v.text?.map Clock.parse

namespace Decoder

/-- The size that a value holds. -/
def size? (v : Value) : Option Memory.Size :=
  (Memory.Size.ofValue v).toOption

/-- The clock that a value holds. -/
def clock? (v : Value) : Option Clock :=
  (Clock.ofValue? v).bind Except.toOption

/-- A text, or null for its absence. -/
def optionalText? : Value → Option (Option String)
  | .null => some none
  | .text s => some (some s)
  | _ => none

variable (format : Format)

def machine? (v : Value) : Option MachineSettings := do
  let s ← Section.ofValue? format 9 v
  return {
    protocol := ← s.read 0 "protocol" Value.text? "MI_example"
    topology := ← s.read 1 "topology" Value.text? "crossbar"
    meshRows := ← s.read 2 "mesh_rows" Value.word64? 1
    wraparound := ← s.read 3 "wraparound" Value.bool? false
    garnetNetwork := ← s.read 4 "garnet_network" optionalText? none
    clock := ← s.read 5 "clock" clock? .default
    cpus := ← s.read 6 "num_cpus" Value.word64? 1
    directories := ← s.read 7 "num_dirs" Value.word64? 1
    dmaDevices := ← s.read 8 "dma_devices" Value.word64? 0 }

def memory? (v : Value) : Option PhysicalMemory := do
  let s ← Section.ofValue? format 2 v
  return {
    base := ← s.read 0 "base" Value.text? "0x0"
    size := ← s.read 1 "size" size? ⟨512 * 1024 * 1024⟩ }

def pointToPoint? (v : Value) : Option PointToPointParams := do
  let s ← Section.ofValue? format 2 v
  return {
    endpointBandwidth := ← s.read 0 "endpoint_bandwidth" Value.word32? 10000
    bufferSize := ← s.read 1 "buffer_size" Value.word32? 0 }

def pipelined? (v : Value) : Option PipelinedParams := do
  let s ← Section.ofValue? format 5 v
  return {
    flitSize := ← s.read 0 "flit_size" Value.word32? 16
    vcsPerClass := ← s.read 1 "vcs_per_class" Value.word32? 4
    buffersPerDataVc := ← s.read 2 "buffers_per_data_vc" Value.word32? 4
    buffersPerCtrlVc := ← s.read 3 "buffers_per_ctrl_vc" Value.word32? 1
    pipelineStages := ← s.read 4 "number_of_pipe_stages" Value.word32? fixedPipelineStages }

def network? (v : Value) : Option NetworkSettings := do
  let s ← Section.ofValue? format 4 v
  return {
    externalLatency := ← s.read 0 "ext_link_latency" Value.word32? 1
    internalLatency := ← s.read 1 "int_link_latency" Value.word32? 1
    pointToPoint := ← s.read 2 "simple" (pointToPoint? format) {}
    pipelined := ← s.read 3 "garnet" (pipelined? format) {} }

def debug? (v : Value) : Option DebugSettings := do
  let s ← Section.ofValue? format 3 v
  return {
    filter := ← s.read 0 "filter_string" Value.text? "none"
    verbosity := ← s.read 1 "verbosity_string" Value.text? "none"
    protocolTrace := ← s.read 2 "protocol_trace" Value.bool? false }

end Decoder

namespace Settings

/-- The settings that a structured value holds. -/
def ofValue? (format : Format) (v : Value) : Option Settings := do
  let s ← Section.ofValue? format 4 v
  return {
    machine := ← s.read 0 "ruby" (Decoder.machine? format) {}
    memory := ← s.read 1 "physmem" (Decoder.memory? format) {}
    network := ← s.read 2 "network" (Decoder.network? format) {}
    debug := ← s.read 3 "debug" (Decoder.debug? format) {} }

/-- The settings that a TOML document holds. -/
def ofToml? (s : String) : Option Settings :=
  (Toml.parse? s).bind (ofValue? .toml)

/-- The settings that a JSON text holds. -/
def ofJson? (s : String) : Option Settings :=
  (Json.parse? s).bind (ofValue? .json)

end Settings

/-- What reading the file under a path gives. -/
inductive FileContent where
  /-- The system's description and number of the failure. -/
  | failure (description : String) (code : Nat)
  | bytes (content : ByteArray)

/-- There is nothing under the path. -/
def FileContent.missing : FileContent :=
  .failure "No such file or directory" 2

/-- There is a directory under the path. -/
def FileContent.directory : FileContent :=
  .failure "Is a directory" 21

/-- Why no settings are loaded from a file. -/
inductive LoadError where
  /-- The file could not be read as text. -/
  | unreadable (error : ConfigError)
  /-- The text is no document, or its values do not fit. -/
  | malformed
deriving DecidableEq, Repr

/-- The settings in the file under a path. A path with a null character is the
path of no file. -/
def Settings.load (path : String) (file : FileContent) : Except LoadError Settings :=
  let unreadable (cause : String) : Except LoadError Settings :=
    .error (.unreadable (.unreadable (path ++ ": " ++ cause)))
  if path.toList.contains '\x00' then unreadable "file name contained an unexpected NUL byte"
  else
    match file with
    | .failure description code =>
      unreadable (description ++ " (os error " ++ toString code ++ ")")
    | .bytes content =>
      match String.fromUTF8? content with
      | none => unreadable "stream did not contain valid UTF-8"
      | some s =>
        match Settings.ofToml? s with
        | some settings => .ok settings
        | none => .error .malformed

end CoherentMemory
