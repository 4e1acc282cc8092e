import CoherentMemory.Clock
import CoherentMemory.Interconnect.Layout
import CoherentMemory.Network.Model
import CoherentMemory.Settings.Debug
import CoherentMemory.Settings.PhysicalMemory

/-!
# Settings of a memory system

All that a configuration says: the machine, its physical memory, the network and
the debug output. Every field has a default, so that `{}` describes the smallest
machine.
-/

namespace CoherentMemory

open Interconnect Network

/-- The machine: its protocol, its topology and the numbers of its parts. -/
structure MachineSettings where
  protocol : String := "MI_example"
  topology : String := "crossbar"
  meshRows : UInt64 := 1
  wraparound : Bool := false
  /-- The detailed network model; the simple model if there is none. -/
  garnetNetwork : Option String := none
  clock : Clock := .default
  cpus : UInt64 := 1
  directories : UInt64 := 1
  dmaDevices : UInt64 := 0

/-- The latencies of links and the parameters of the network models. -/
structure NetworkSettings where
  externalLatency : UInt32 := 1
  internalLatency : UInt32 := 1
  pointToPoint : PointToPointParams := {}
  pipelined : PipelinedParams := {}

/-- All settings of a memory system. -/
structure Settings where
  machine : MachineSettings := {}
  memory : PhysicalMemory := {}
  network : NetworkSettings := {}
  debug : DebugSettings := {}

/-- A device with direct memory access. -/
structure Device where
  name : String
deriving DecidableEq, Repr

def MachineSettings.topologyKind (m : MachineSettings) : Except TopologyError Interconnect.Kind :=
  Interconnect.Kind.parse m.topology

def MachineSettings.networkKind (m : MachineSettings) : Except NetworkError Network.Kind :=
  Network.Kind.ofOption m.garnetNetwork

/-- The parameters of the network models. -/
def NetworkSettings.params (n : NetworkSettings) : Params :=
  ⟨n.pointToPoint, n.pipelined⟩

/-- The shape of the topology. -/
def Settings.shape (s : Settings) : Shape where
  rows := s.machine.meshRows.toNat
  wraparound := s.machine.wraparound
  externalLatency := s.network.externalLatency
  internalLatency := s.network.internalLatency

/-- The device of a given number. -/
def Device.numbered (i : Nat) : Device :=
  ⟨"dma" ++ toString i⟩

/-- The configured devices. -/
def Settings.devices (s : Settings) : List Device :=
  (List.range s.machine.dmaDevices.toNat).map Device.numbered

end CoherentMemory
