import CoherentMemory.Clock
import CoherentMemory.CommandLine.Arguments
import CoherentMemory.CommandLine.Program
import CoherentMemory.ConfigError
import CoherentMemory.Controller
import CoherentMemory.Data.Json.Parser
import CoherentMemory.Data.Json.Printer
import CoherentMemory.Data.Toml.Document
import CoherentMemory.Data.Toml.Expression
import CoherentMemory.Data.Toml.Moment
import CoherentMemory.Data.Toml.Number
import CoherentMemory.Data.Toml.Text
import CoherentMemory.Data.Value
import CoherentMemory.Decimal.Binary64
import CoherentMemory.Decimal.Fixed
import CoherentMemory.Decimal.Shortest
import CoherentMemory.Event
import CoherentMemory.Interconnect.Fabric
import CoherentMemory.Interconnect.Grid
import CoherentMemory.Interconnect.Hops
import CoherentMemory.Interconnect.Layout
import CoherentMemory.Interconnect.LeastCost
import CoherentMemory.Interconnect.Topology
import CoherentMemory.Main
import CoherentMemory.Memory.Coverage
import CoherentMemory.Memory.Range
import CoherentMemory.Memory.Size
import CoherentMemory.Network.Kind
import CoherentMemory.Network.Model
import CoherentMemory.Network.Pipelined
import CoherentMemory.Network.PointToPoint
import CoherentMemory.Overflow
import CoherentMemory.Protocol.Factory
import CoherentMemory.Protocol.Registry
import CoherentMemory.Protocol.TwoState
import CoherentMemory.Settings.Basic
import CoherentMemory.Settings.Debug
import CoherentMemory.Settings.Decoder
import CoherentMemory.Settings.PhysicalMemory
import CoherentMemory.Settings.Section
import CoherentMemory.System.Assembly
import CoherentMemory.System.Profile
import CoherentMemory.System.Summary
import CoherentMemory.System.Trace
import CoherentMemory.Text.Blank
import CoherentMemory.Text.Concealed
import CoherentMemory.Text.Numeral
import CoherentMemory.Text.Quoted
import CoherentMemory.Proofs.Interconnect.Incidence
import CoherentMemory.Proofs.Interconnect.Route
import CoherentMemory.Proofs.Interconnect.Frontier
import CoherentMemory.Proofs.Interconnect.Search
import CoherentMemory.Proofs.Interconnect.Sums
import CoherentMemory.Proofs.Interconnect.Flood
import CoherentMemory.Proofs.Interconnect.Distance
import CoherentMemory.Proofs.Interconnect.GridDistance
import CoherentMemory.Proofs.Interconnect.WellFormed
import CoherentMemory.Proofs.Interconnect.Walk
import CoherentMemory.Proofs.Interconnect.PathCost
import CoherentMemory.Proofs.Interconnect.HopDistance
import CoherentMemory.Proofs.Interconnect.GridLinks
import CoherentMemory.Proofs.Interconnect.Corners
import CoherentMemory.Proofs.Positions
import CoherentMemory.Proofs.Network.Latency
import CoherentMemory.Proofs.Network.Sizing
import CoherentMemory.Proofs.Memory.Cover
import CoherentMemory.Proofs.System.Ownership
import CoherentMemory.Proofs.System.Slices
import CoherentMemory.Proofs.System.Machine
import CoherentMemory.Proofs.System.Stages
import CoherentMemory.Proofs.Network.Creation
import CoherentMemory.Proofs.System.Acceptance
import CoherentMemory.Proofs.Guarded.Machine
import CoherentMemory.Proofs.Guarded.Fabric
import CoherentMemory.Proofs.Guarded.Layout
import CoherentMemory.Proofs.Guarded.Queries
import CoherentMemory.Proofs.Guarded.Network
import CoherentMemory.Proofs.Guarded.System
import CoherentMemory.Proofs.Interconnect.Placement
import CoherentMemory.Proofs.Interconnect.Ports
import CoherentMemory.Proofs.Interconnect.Shapes
import CoherentMemory.Proofs.Memory.SizeGrammar
import CoherentMemory.Proofs.Memory.SizeText
import CoherentMemory.Proofs.Memory.Validation
import CoherentMemory.Proofs.System.Division
import CoherentMemory.Proofs.System.Names
import CoherentMemory.Proofs.Settings.PartialSettings
import CoherentMemory.Proofs.Settings.PhysicalRange
import CoherentMemory.Proofs.ClockGrammar
import CoherentMemory.Proofs.Decimal.Nearest
import CoherentMemory.Proofs.Guarded.Additions
import CoherentMemory.Proofs.System.Counting
import CoherentMemory.Proofs.System.Registrations
import CoherentMemory.Proofs.Guarded.LinkTable
import CoherentMemory.Proofs.Interconnect.Settling
import CoherentMemory.Proofs.Interconnect.Numbering
