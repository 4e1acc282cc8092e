import CoherentMemory.CommandLine.Arguments
import CoherentMemory.Data.Json.Printer
import CoherentMemory.Settings.Decoder
import CoherentMemory.System.Summary

/-!
# The command-line program

`run` is the whole program as a function of its arguments and of the files it may
read: what it prints, what it complains about and its exit status. It loads the
settings, applies the arguments to them, prints them unless the result is asked
for as JSON, creates the system and prints it. At an overflow it stops with a
status of its own.
-/

namespace CoherentMemory.CommandLine

/-- What a run complains about. -/
inductive Complaint where
  | none
  /-- Arguments that cannot be read. -/
  | misuse
  /-- A configuration file that is no document. -/
  | malformed (path : String)
  /-- An overflow, at which the program stops. -/
  | halt (cause : Overflow)
  | text (message : String)
deriving DecidableEq, Repr

/-- The outcome of a run. -/
structure Outcome where
  status : UInt32
  output : String
  complaint : Complaint
deriving DecidableEq, Repr

def programName : String := "ruby-memsys"

def programVersion : String := "0.1.0"

/-- How the program is used. -/
def usage : List String :=
  ["Ruby Memory System Builder", "", "Usage: " ++ programName ++ " [OPTIONS]", "", "Options:",
    "  -c, --config <CONFIG>", "      --protocol <PROTOCOL>", "      --topology <TOPOLOGY>",
    "      --mesh-rows <MESH_ROWS>", "      --garnet-network <GARNET_NETWORK>",
    "      --num-cpus <NUM_CPUS>", "      --num-dirs <NUM_DIRS>",
    "      --json                             Print the assembled system as JSON",
    "  -h, --help                             Print help",
    "  -V, --version                          Print version"]

/-- Lines, each with a line feed after it. -/
def lines (ls : List String) : String :=
  String.join (ls.map (· ++ "\n"))

/-- The wording of a complaint. -/
def Complaint.message : Complaint → String
  | .none => ""
  | .misuse => lines ["error: invalid arguments", "", "For more information, try '--help'."]
  | .malformed path => lines ["Error: failed to load configuration: " ++ path ++ " is malformed"]
  | .halt cause => lines [cause.message]
  | .text message => message

/-- The lines that show settings. -/
def settingsLines (s : Settings) : List String :=
  ["Global Configuration",
    "--------------------",
    "Ruby:",
    "  Protocol:           " ++ s.machine.protocol,
    "  Clock:              " ++ s.machine.clock.render,
    "  CPUs:               " ++ toString s.machine.cpus,
    "  Directories:        " ++ toString s.machine.directories,
    "  DMA Devices:        " ++ toString s.machine.dmaDevices,
    "Interconnect:",
    "  Topology:           " ++ s.machine.topology,
    "  Mesh Rows:          " ++ toString s.machine.meshRows,
    "  Wraparound:         " ++ toString s.machine.wraparound,
    "  Garnet:             " ++ s.machine.garnetNetwork.getD "none",
    "Physical Memory:",
    "  Base:               " ++ s.memory.base,
    "  Size:               " ++ s.memory.size.render,
    "--------------------"]

/-- The lines that show a system. -/
def summaryLines (s : Summary) : List String :=
  ["[*] Ruby system assembled",
    "    Topology:    " ++ s.topology.name,
    "    Network:     " ++ s.network.name,
    "    Graph:       " ++ toString s.nodes ++ " nodes, " ++ toString s.routers ++ " routers, " ++
      toString s.links ++ " links",
    "    Memory:      " ++ s.size.render,
    "    Ports:       " ++ ", ".intercalate s.ports,
    "    Controllers: " ++ toString s.controllers]

/-- The settings of a run: from the file that its arguments name, or the default
ones. -/
def settingsOf (a : Arguments) (read : String → FileContent) : Except Complaint Settings :=
  match a.config with
  | none => .ok {}
  | some path =>
    match Settings.load path (read path) with
    | .ok settings => .ok settings
    | .error (.unreadable e) => .error (.text (lines ["Error: " ++ e.message]))
    | .error .malformed => .error (.malformed path)

/-- A run with readable arguments. -/
def runWith (a : Arguments) (read : String → FileContent) : Outcome :=
  match settingsOf a read with
  | .error complaint => ⟨1, "", complaint⟩
  | .ok settings =>
    let settings := a.apply settings
    let shown := if a.json then "" else lines (settingsLines settings)
    match createSystem settings .builtin settings.devices with
    | .error (.refusal e) => ⟨1, shown, .text ("\n[!] FATAL: " ++ e.message ++ "\n")⟩
    | .error (.overflow cause) => ⟨101, shown, .halt cause⟩
    | .ok system =>
      let summary := system.summary
      let result :=
        if a.json then lines [Data.Json.pretty summary.toValue] else lines (summaryLines summary)
      ⟨0, shown ++ result, .none⟩

/-- The outcome of the program for its arguments and the files it may read. -/
def run (arguments : List String) (read : String → FileContent) : Outcome :=
  match parse arguments with
  | .run a => runWith a read
  | .version => ⟨0, lines [programName ++ " " ++ programVersion], .none⟩
  | .help => ⟨0, lines usage, .none⟩
  | .misuse => ⟨2, "", .misuse⟩

end CoherentMemory.CommandLine
