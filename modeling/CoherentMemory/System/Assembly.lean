import CoherentMemory.Memory.Coverage
import CoherentMemory.Protocol.Registry
import CoherentMemory.System.Profile
import CoherentMemory.System.Trace

/-!
# Assembling a memory system

`assemble` builds a system from its controllers: the topology, the network over
it, the check of the directories against physical memory and the verbosity, in
this order; the first failure, an error or an overflow, is the outcome
(`assemble_eq`). `createSystem`
comes before it and turns settings into controllers, by the topology and network
selectors, the range of physical memory and the factory of the protocol.
-/

namespace CoherentMemory

open Interconnect Network

/-- Why no system is assembled. -/
inductive AssemblyError where
  | topology (error : TopologyError)
  | network (error : NetworkError)
  | memory (error : Memory.Mismatch)
  | protocol (error : ProtocolError)
  | config (error : ConfigError)
deriving DecidableEq, Repr

/-- The wording of a failure. -/
def AssemblyError.message : AssemblyError → String
  | .topology e => e.message
  | .network e => e.message
  | .memory e => e.message
  | .protocol e => "upstream protocol factory failed: " ++ e.message
  | .config e => e.message

/-- What a system is assembled from, besides its controllers. -/
structure Blueprint where
  topology : Interconnect.Kind
  network : Network.Kind
  shape : Shape := {}
  memory : Memory.Range
  clock : Clock := .default
  params : Params := {}
  debug : DebugSettings := {}

/-- An assembled memory system. -/
structure MemorySystem where
  clock : Clock
  network : Network
  profile : Profile
  tracer : Tracer
  debug : DebugSettings
  verbosity : Verbosity
  size : Memory.Size
  ports : List Controller
  controllers : ControllerSet

/-- The event that reports a finished system. -/
def assembledEvent (b : Blueprint) (cs : ControllerSet) (size : Memory.Size) : Event where
  level := .info
  target := "ruby_memsys::system::builder"
  fields := [("clock", b.clock.render), ("network", b.network.name), ("mem_size", size.render),
    ("ports", toString cs.sequencers.length), ("message", "ruby system assembled")]

/-- The system of the parts that the stages of an assembly give. -/
def systemOf (b : Blueprint) (cs : ControllerSet) (n : Network) (size : Memory.Size)
    (verbosity : Verbosity) : MemorySystem where
  clock := b.clock
  network := n
  profile := .start cs.sequencers.length
  tracer := ⟨b.debug.protocolTrace⟩
  debug := b.debug
  verbosity := verbosity
  size := size
  ports := cs.sequencers
  controllers := cs

/-- Assembles a system, with the events of its stages. -/
def assembleLogged (b : Blueprint) (cs : ControllerSet) :
    Logged (Failure AssemblyError) MemorySystem := do
  let t ← (layoutLogged b.topology cs b.shape).mapError (.refusal ∘ .topology)
  let n ← (Network.createLogged b.network t b.params).mapError (.map .network)
  let size ← (Memory.validateLogged cs b.memory).mapError (.refusal ∘ .memory)
  let verbosity ← .ofExcept (b.debug.verbosity?.mapError (.refusal ∘ .config))
  .emit (assembledEvent b cs size)
  return systemOf b cs n size verbosity

/-- Assembles a system. -/
def assemble (b : Blueprint) (cs : ControllerSet) :
    Except (Failure AssemblyError) MemorySystem :=
  (assembleLogged b cs).result

/-- The blueprint that settings describe: their selectors and the range of
physical memory. -/
def Settings.blueprint (s : Settings) : Except AssemblyError Blueprint := do
  let topology ← s.machine.topologyKind.mapError .topology
  let network ← s.machine.networkKind.mapError .network
  let memory ← s.memory.range.mapError .config
  return {
    topology, network, memory
    shape := s.shape
    clock := s.machine.clock
    params := s.network.params
    debug := s.debug }

/-- Creates the system that settings describe, with the events of its stages. -/
def createSystemLogged (s : Settings) (registry : Registry) (devices : List Device) :
    Logged (Failure AssemblyError) MemorySystem := do
  let b ← .ofExcept (s.blueprint.mapError .refusal)
  let cs ← (registry.create s.machine.protocol s.machine b.memory devices).mapError
    (.map .protocol)
  assembleLogged b cs

/-- Creates the system that settings describe. -/
def createSystem (s : Settings) (registry : Registry) (devices : List Device) :
    Except (Failure AssemblyError) MemorySystem :=
  (createSystemLogged s registry devices).result

/-- The first directory that owns an address. -/
def MemorySystem.directoryFor? (s : MemorySystem) (address : UInt64) : Option Controller :=
  s.controllers.directories.find? fun c => c.memory?.any (·.contains address)

/-- An overview of a system. -/
structure Summary where
  clock : String
  topology : Interconnect.Kind
  network : Network.Kind
  nodes : Nat
  routers : Nat
  links : Nat
  size : Memory.Size
  ports : List String
  controllers : Nat
  debug : DebugSettings
deriving DecidableEq, Repr

/-- The overview of a system. -/
def MemorySystem.summary (s : MemorySystem) : Summary where
  clock := s.clock.render
  topology := s.network.topology.kind
  network := s.network.kind
  nodes := s.network.topology.nodeCount
  routers := s.network.topology.routers.length
  links := s.network.topology.linkCount
  size := s.size
  ports := s.ports.map Controller.name
  controllers := s.controllers.length
  debug := s.debug

/-- The stages of an assembly in their order, without events. -/
theorem assemble_eq (b : Blueprint) (cs : ControllerSet) :
    assemble b cs =
      ((layout b.topology cs b.shape).mapError (.refusal ∘ .topology)).bind fun t =>
        ((Network.create b.network t b.params).mapError (.map .network)).bind fun n =>
          ((Memory.validate cs b.memory).mapError (.refusal ∘ .memory)).bind fun size =>
            (b.debug.verbosity?.mapError (.refusal ∘ .config)).bind fun verbosity =>
              .ok (systemOf b cs n size verbosity) := by
  simp only [assemble, assembleLogged, Logged.result_bind, Logged.result_mapError,
    result_layoutLogged, Memory.result_validateLogged, Logged.result_ofExcept, Logged.result_emit,
    Logged.result_pure, Network.create]
  rfl

end CoherentMemory
