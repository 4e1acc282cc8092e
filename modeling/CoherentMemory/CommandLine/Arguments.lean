import CoherentMemory.Settings.Basic

/-!
# Command-line arguments

Options are read from left to right. An option with a value takes it from the
same argument, after an equals sign or right after its letter, or from the next
argument, which then does not begin with a hyphen unless it is one alone. No
option is given twice, and there are no other arguments. `--version` and
`--help` end the reading where they stand.
-/

namespace CoherentMemory.CommandLine

/-- The arguments of a run. -/
structure Arguments where
  config : Option String := none
  protocol : Option String := none
  topology : Option String := none
  meshRows : Option UInt64 := none
  garnetNetwork : Option String := none
  cpus : Option UInt64 := none
  directories : Option UInt64 := none
  json : Bool := false

/-- What the arguments ask for. -/
inductive Request where
  | run (arguments : Arguments)
  | version
  | help
  /-- Arguments that cannot be read. -/
  | misuse

/-- The options that take a value. -/
inductive ValueOption where
  | config
  | protocol
  | topology
  | meshRows
  | garnetNetwork
  | cpus
  | directories

/-- The options by name. -/
inductive NamedOption where
  | value (option : ValueOption)
  | json
  | version
  | help

/-- The option with a long name. -/
def longOption? : String → Option NamedOption
  | "config" => some (.value .config)
  | "protocol" => some (.value .protocol)
  | "topology" => some (.value .topology)
  | "mesh-rows" => some (.value .meshRows)
  | "garnet-network" => some (.value .garnetNetwork)
  | "num-cpus" => some (.value .cpus)
  | "num-dirs" => some (.value .directories)
  | "json" => some .json
  | "version" => some .version
  | "help" => some .help
  | _ => none

/-- A field that is given once. -/
def setOnce {α : Type} (current : Option α) (new : α) : Option (Option α) :=
  if current.isSome then none else some (some new)

namespace Arguments

/-- The arguments with the value of an option, unless it is given already or its
value is not of its kind. -/
def set (a : Arguments) (option : ValueOption) (value : String) : Option Arguments :=
  let number : Option UInt64 := Text.word? 10 value.toList
  match option with
  | .config => (setOnce a.config value).map ({ a with config := · })
  | .protocol => (setOnce a.protocol value).map ({ a with protocol := · })
  | .topology => (setOnce a.topology value).map ({ a with topology := · })
  | .garnetNetwork => (setOnce a.garnetNetwork value).map ({ a with garnetNetwork := · })
  | .meshRows => number.bind fun n => (setOnce a.meshRows n).map ({ a with meshRows := · })
  | .cpus => number.bind fun n => (setOnce a.cpus n).map ({ a with cpus := · })
  | .directories =>
    number.bind fun n => (setOnce a.directories n).map ({ a with directories := · })

end Arguments

/-- What an argument looks like. -/
inductive ArgumentShape where
  /-- `--`, after which nothing is an option. -/
  | terminator
  /-- `--name` or `--name=value`. -/
  | long (name : String) (value : Option String)
  /-- Letters after a hyphen. -/
  | short (letters : List Char)
  | plain

/-- The shape of an argument. -/
def shapeOf (argument : String) : ArgumentShape :=
  match argument.toList with
  | ['-', '-'] => .terminator
  | '-' :: '-' :: cs =>
    let name := String.ofList (cs.takeWhile (· ≠ '='))
    match cs.dropWhile (· ≠ '=') with
    | [] => .long name none
    | _ :: value => .long name (some (String.ofList value))
  | '-' :: c :: cs => .short (c :: cs)
  | _ => .plain

/-- Reads arguments onto those read before; `pending` is an option that waits for
its value. -/
def readOnto (a : Arguments) : (pending : Option ValueOption) → List String → Request
  | none, [] => .run a
  | some _, [] => .misuse
  | pending, argument :: rest =>
    match shapeOf argument, pending with
    | .plain, some option =>
      match a.set option argument with
      | some a => readOnto a none rest
      | none => .misuse
    | _, some _ => .misuse
    | .plain, none => .misuse
    | .terminator, none => if rest.isEmpty then .run a else .misuse
    | .long name value, none =>
      match longOption? name, value with
      | some (.value option), some v =>
        match a.set option v with
        | some a => readOnto a none rest
        | none => .misuse
      | some (.value option), none => readOnto a (some option) rest
      | some .json, none => if a.json then .misuse else readOnto { a with json := true } none rest
      | some .version, none => .version
      | some .help, none => .help
      | _, _ => .misuse
    | .short ('c' :: value), none =>
      match value with
      | [] => readOnto a (some .config) rest
      | '=' :: v =>
        match a.set .config (String.ofList v) with
        | some a => readOnto a none rest
        | none => .misuse
      | v =>
        match a.set .config (String.ofList v) with
        | some a => readOnto a none rest
        | none => .misuse
    | .short ('V' :: _), none => .version
    | .short ('h' :: _), none => .help
    | .short _, none => .misuse

/-- What the arguments of a command line ask for. -/
def parse (arguments : List String) : Request :=
  readOnto {} none arguments

/-- Settings with those that the arguments override. -/
def Arguments.apply (a : Arguments) (s : Settings) : Settings :=
  let m := s.machine
  { s with machine := { m with
      protocol := a.protocol.getD m.protocol
      topology := a.topology.getD m.topology
      meshRows := a.meshRows.getD m.meshRows
      garnetNetwork := a.garnetNetwork <|> m.garnetNetwork
      cpus := a.cpus.getD m.cpus
      directories := a.directories.getD m.directories } }

end CoherentMemory.CommandLine
