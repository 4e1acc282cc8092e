import CoherentMemory.Proofs.Settings.Contents
import CoherentMemory.Proofs.Settings.Overlay

/-!
# Partial settings

What the fields of a configuration may hold (`Form.text`, `Form.word32` and so on), and which
fields each section has, in the order of their declaration. The decoder has defaults of its own
for single fields; `reads_machine` and its like find them equal to what the default sections
have. A configuration that gives only some fields is therefore laid over the default settings
(`partial_overlay`): it is accepted exactly if all that it gives fits, and the settings are the
default ones but for what it gives, on every level.
-/

namespace CoherentMemory.Overlay

open Data Network

/-! ## Contents of fields -/

namespace Form

def text : Form String :=
  .ofHolds fun v s => v = .text s

def bool : Form Bool :=
  .ofHolds fun v b => v = .bool b

def word32 : Form UInt32 :=
  .ofHolds fun v w => v = .integer w.toNat

def word64 : Form UInt64 :=
  .ofHolds fun v w => v = .integer w.toNat

/-- A text, or null for none. -/
def optionalText : Form (Option String) :=
  .ofHolds fun v s => v = .null ∧ s = none ∨ ∃ t, v = .text t ∧ s = some t

/-- A text that denotes a positive finite frequency, apart from blanks at its ends. -/
def clock : Form Clock :=
  .ofHolds fun v c => ∃ t : String, v = .text t ∧
    Clock.Denotes (Text.trim t.toList) c.hertz ∧ c.hertz.isFinite = true ∧ 0 < c.hertz

/-- A number of bytes, or a text that denotes one, apart from blanks at its ends. -/
def size : Form Memory.Size :=
  .ofHolds fun v s => v = .integer s.bytes.toNat ∨
    ∃ t : String, v = .text t ∧ Memory.Size.Denotes (Text.trim t.toList) s.bytes.toNat

end Form

theorem decodes_text (base : String) : Decodes .text Value.text? base :=
  decodes_ofHolds (fun _ _ => Value.text?_eq_some_iff) base

theorem decodes_bool (base : Bool) : Decodes .bool Value.bool? base :=
  decodes_ofHolds (fun _ _ => Value.bool?_eq_some_iff) base

theorem decodes_word32 (base : UInt32) : Decodes .word32 Value.word32? base :=
  decodes_ofHolds (fun _ _ => Value.word32?_eq_some_iff) base

theorem decodes_word64 (base : UInt64) : Decodes .word64 Value.word64? base :=
  decodes_ofHolds (fun _ _ => Value.word64?_eq_some_iff) base

theorem decodes_optionalText (base : Option String) :
    Decodes .optionalText Decoder.optionalText? base :=
  decodes_ofHolds (fun _ _ => Decoder.optionalText?_eq_some_iff) base

theorem decodes_clock (base : Clock) : Decodes .clock Decoder.clock? base :=
  decodes_ofHolds (fun _ _ => Decoder.clock?_eq_some_iff) base

theorem decodes_size (base : Memory.Size) : Decodes .size Decoder.size? base :=
  decodes_ofHolds (fun _ _ => Decoder.size?_eq_some_iff) base

/-! ## The machine -/

/-- The fields in the order of their declaration, which is that of a list of them. -/
def machineReaders : List (Reader ({} : MachineSettings)) :=
  [⟨⟨"protocol", _, (·.protocol), .text⟩, _, decodes_text _⟩,
    ⟨⟨"topology", _, (·.topology), .text⟩, _, decodes_text _⟩,
    ⟨⟨"mesh_rows", _, (·.meshRows), .word64⟩, _, decodes_word64 _⟩,
    ⟨⟨"wraparound", _, (·.wraparound), .bool⟩, _, decodes_bool _⟩,
    ⟨⟨"garnet_network", _, (·.garnetNetwork), .optionalText⟩, _, decodes_optionalText _⟩,
    ⟨⟨"clock", _, (·.clock), .clock⟩, _, decodes_clock _⟩,
    ⟨⟨"num_cpus", _, (·.cpus), .word64⟩, _, decodes_word64 _⟩,
    ⟨⟨"num_dirs", _, (·.directories), .word64⟩, _, decodes_word64 _⟩,
    ⟨⟨"dma_devices", _, (·.dmaDevices), .word64⟩, _, decodes_word64 _⟩]

def machineFields : List (Field MachineSettings) :=
  machineReaders.map Reader.toField

theorem reads_machine : Reads (Decoder.machine? .json) machineReaders where
  eq_some_iff v x := by
    obtain ⟨⟩ := x
    simp only [Decoder.machine?, ↓bind_eq_some_iff]
    -- without `Bool.exists_bool`, which makes two cases of what is read for a `Bool`
    simp [-Bool.exists_bool, machineReaders, Reader.read]
  exists_iff v := by
    simp only [Decoder.machine?, ↓bind_eq_some_iff]
    simp [-Bool.exists_bool, machineReaders, Reader.read]

theorem decodes_machine : Decodes (.ofFields machineFields) (Decoder.machine? .json) {} :=
  reads_machine.decodes (by decide)

/-! ## Physical memory -/

def memoryReaders : List (Reader ({} : PhysicalMemory)) :=
  [⟨⟨"base", _, (·.base), .text⟩, _, decodes_text _⟩,
    ⟨⟨"size", _, (·.size), .size⟩, _, decodes_size _⟩]

def memoryFields : List (Field PhysicalMemory) :=
  memoryReaders.map Reader.toField

theorem reads_memory : Reads (Decoder.memory? .json) memoryReaders where
  eq_some_iff v x := by
    obtain ⟨⟩ := x
    simp only [Decoder.memory?, ↓bind_eq_some_iff]
    simp [memoryReaders, Reader.read]
  exists_iff v := by
    simp only [Decoder.memory?, ↓bind_eq_some_iff]
    simp [memoryReaders, Reader.read]

theorem decodes_memory : Decodes (.ofFields memoryFields) (Decoder.memory? .json) {} :=
  reads_memory.decodes (by decide)

/-! ## Networks -/

def pointToPointReaders : List (Reader ({} : PointToPointParams)) :=
  [⟨⟨"endpoint_bandwidth", _, (·.endpointBandwidth), .word32⟩, _, decodes_word32 _⟩,
    ⟨⟨"buffer_size", _, (·.bufferSize), .word32⟩, _, decodes_word32 _⟩]

def pointToPointFields : List (Field PointToPointParams) :=
  pointToPointReaders.map Reader.toField

theorem reads_pointToPoint : Reads (Decoder.pointToPoint? .json) pointToPointReaders where
  eq_some_iff v x := by
    obtain ⟨⟩ := x
    simp only [Decoder.pointToPoint?, ↓bind_eq_some_iff]
    simp [pointToPointReaders, Reader.read]
  exists_iff v := by
    simp only [Decoder.pointToPoint?, ↓bind_eq_some_iff]
    simp [pointToPointReaders, Reader.read]

theorem decodes_pointToPoint :
    Decodes (.ofFields pointToPointFields) (Decoder.pointToPoint? .json) {} :=
  reads_pointToPoint.decodes (by decide)

def pipelinedReaders : List (Reader ({} : PipelinedParams)) :=
  [⟨⟨"flit_size", _, (·.flitSize), .word32⟩, _, decodes_word32 _⟩,
    ⟨⟨"vcs_per_class", _, (·.vcsPerClass), .word32⟩, _, decodes_word32 _⟩,
    ⟨⟨"buffers_per_data_vc", _, (·.buffersPerDataVc), .word32⟩, _, decodes_word32 _⟩,
    ⟨⟨"buffers_per_ctrl_vc", _, (·.buffersPerCtrlVc), .word32⟩, _, decodes_word32 _⟩,
    ⟨⟨"number_of_pipe_stages", _, (·.pipelineStages), .word32⟩, _, decodes_word32 _⟩]

def pipelinedFields : List (Field PipelinedParams) :=
  pipelinedReaders.map Reader.toField

theorem reads_pipelined : Reads (Decoder.pipelined? .json) pipelinedReaders where
  eq_some_iff v x := by
    obtain ⟨⟩ := x
    simp only [Decoder.pipelined?, ↓bind_eq_some_iff]
    simp [pipelinedReaders, Reader.read]
  exists_iff v := by
    simp only [Decoder.pipelined?, ↓bind_eq_some_iff]
    simp [pipelinedReaders, Reader.read]

theorem decodes_pipelined : Decodes (.ofFields pipelinedFields) (Decoder.pipelined? .json) {} :=
  reads_pipelined.decodes (by decide)

def networkReaders : List (Reader ({} : NetworkSettings)) :=
  [⟨⟨"ext_link_latency", _, (·.externalLatency), .word32⟩, _, decodes_word32 _⟩,
    ⟨⟨"int_link_latency", _, (·.internalLatency), .word32⟩, _, decodes_word32 _⟩,
    ⟨⟨"simple", _, (·.pointToPoint), .ofFields pointToPointFields⟩, _, decodes_pointToPoint⟩,
    ⟨⟨"garnet", _, (·.pipelined), .ofFields pipelinedFields⟩, _, decodes_pipelined⟩]

def networkFields : List (Field NetworkSettings) :=
  networkReaders.map Reader.toField

theorem reads_network : Reads (Decoder.network? .json) networkReaders where
  eq_some_iff v x := by
    obtain ⟨⟩ := x
    simp only [Decoder.network?, ↓bind_eq_some_iff]
    simp [networkReaders, Reader.read]
  exists_iff v := by
    simp only [Decoder.network?, ↓bind_eq_some_iff]
    simp [networkReaders, Reader.read]

theorem decodes_network : Decodes (.ofFields networkFields) (Decoder.network? .json) {} :=
  reads_network.decodes (by decide)

/-! ## Debug output -/

def debugReaders : List (Reader ({} : DebugSettings)) :=
  [⟨⟨"filter_string", _, (·.filter), .text⟩, _, decodes_text _⟩,
    ⟨⟨"verbosity_string", _, (·.verbosity), .text⟩, _, decodes_text _⟩,
    ⟨⟨"protocol_trace", _, (·.protocolTrace), .bool⟩, _, decodes_bool _⟩]

def debugFields : List (Field DebugSettings) :=
  debugReaders.map Reader.toField

theorem reads_debug : Reads (Decoder.debug? .json) debugReaders where
  eq_some_iff v x := by
    obtain ⟨⟩ := x
    simp only [Decoder.debug?, ↓bind_eq_some_iff]
    simp [-Bool.exists_bool, debugReaders, Reader.read]
  exists_iff v := by
    simp only [Decoder.debug?, ↓bind_eq_some_iff]
    simp [-Bool.exists_bool, debugReaders, Reader.read]

theorem decodes_debug : Decodes (.ofFields debugFields) (Decoder.debug? .json) {} :=
  reads_debug.decodes (by decide)

/-! ## All settings -/

def settingsReaders : List (Reader ({} : Settings)) :=
  [⟨⟨"ruby", _, (·.machine), .ofFields machineFields⟩, _, decodes_machine⟩,
    ⟨⟨"physmem", _, (·.memory), .ofFields memoryFields⟩, _, decodes_memory⟩,
    ⟨⟨"network", _, (·.network), .ofFields networkFields⟩, _, decodes_network⟩,
    ⟨⟨"debug", _, (·.debug), .ofFields debugFields⟩, _, decodes_debug⟩]

def settingsFields : List (Field Settings) :=
  settingsReaders.map Reader.toField

theorem reads_settings : Reads (Settings.ofValue? .json) settingsReaders where
  eq_some_iff v x := by
    obtain ⟨⟩ := x
    simp only [Settings.ofValue?, ↓bind_eq_some_iff]
    simp [settingsReaders, Reader.read]
  exists_iff v := by
    simp only [Settings.ofValue?, ↓bind_eq_some_iff]
    simp [settingsReaders, Reader.read]

theorem decodes_settings : Decodes (.ofFields settingsFields) (Settings.ofValue? .json) {} :=
  reads_settings.decodes (by decide)

/-- The sections of a configuration, beginning with the whole. -/
def sectionKinds : List SectionKind :=
  [⟨_, settingsFields, Settings.ofValue? .json⟩, ⟨_, machineFields, Decoder.machine? .json⟩,
    ⟨_, memoryFields, Decoder.memory? .json⟩, ⟨_, networkFields, Decoder.network? .json⟩,
    ⟨_, pointToPointFields, Decoder.pointToPoint? .json⟩,
    ⟨_, pipelinedFields, Decoder.pipelined? .json⟩, ⟨_, debugFields, Decoder.debug? .json⟩]

theorem lenient_sectionKinds : ∀ k ∈ sectionKinds, k.Lenient := by
  simp only [sectionKinds, List.forall_mem_cons]
  exact ⟨decodes_settings.lenient (by decide), decodes_machine.lenient (by decide),
    decodes_memory.lenient (by decide), decodes_network.lenient (by decide),
    decodes_pointToPoint.lenient (by decide), decodes_pipelined.lenient (by decide),
    decodes_debug.lenient (by decide), List.forall_mem_nil _⟩

/-- A record that gives no name twice is decoded exactly if every field that it gives, on any
level, is given a value of its kind, and then to the default settings with these fields
replaced. Records and lists that give the same fields on every level are decoded alike. In no
section does it matter in which order the fields are given, or what is given for other names;
a list gives the first fields of a section, and is refused if it is longer than these. -/
theorem partial_overlay (given : Fields) (h : Distinct (.record given)) :
    ((∃ s, Settings.ofValue? .json (.record given) = some s) ↔
      (Form.ofFields settingsFields).Fits (.record given)) ∧
    (∀ s, Settings.ofValue? .json (.record given) = some s ↔
      (Form.ofFields settingsFields).Puts (.record given) {} s) ∧
    (∀ v, Distinct v → (Form.ofFields settingsFields).Agrees v (.record given) →
      Settings.ofValue? .json v = Settings.ofValue? .json (.record given)) ∧
    ∀ k ∈ sectionKinds, k.Lenient :=
  ⟨decodes_settings.exists_iff h, decodes_settings.eq_some_iff h,
    fun _ hv hagrees => decodes_settings.congr hv h hagrees, lenient_sectionKinds⟩

/-- A network by position, a name of no field, a machine of which three fields are given, the
clock among them, and a memory by its size. -/
theorem partial_overlay_mixed :
    (Form.ofFields settingsFields).Puts (.record [("network", .list [.integer 3]),
      ("comment", .null), ("physmem", .record [("size", .text "2 GiB")]),
      ("ruby", .record [("num_cpus", .integer 4), ("garnet_network", .null),
        ("clock", .text " 2.5GHz")])])
      {} { machine := { cpus := 4, clock := ⟨2.5e9⟩ }, memory := { size := ⟨2147483648⟩ },
           network := { externalLatency := 3 } } := by
  have hmachine : Distinct (.record [("num_cpus", .integer 4), ("garnet_network", .null),
      ("clock", .text " 2.5GHz")]) :=
    .record (by decide) (by simp [Distinct.integer, Distinct.null, Distinct.text])
  have hmemory : Distinct (.record [("size", .text "2 GiB")]) :=
    .record (by decide) (by simp [Distinct.text])
  have hnetwork : Distinct (.list [.integer 3]) := .list (by simp [Distinct.integer])
  have hdistinct : Distinct (.record [("network", .list [.integer 3]), ("comment", .null),
      ("physmem", .record [("size", .text "2 GiB")]), ("ruby", .record [("num_cpus", .integer 4),
        ("garnet_network", .null), ("clock", .text " 2.5GHz")])]) :=
    .record (by decide) (by simp [hmachine, hmemory, hnetwork, Distinct.null])
  obtain ⟨-, hputs, -⟩ := partial_overlay _ hdistinct
  exact (hputs _).mp rfl

end CoherentMemory.Overlay
