import CoherentMemory.Proofs.Interconnect.WellFormed
import CoherentMemory.Proofs.Network.Latency
import CoherentMemory.Proofs.Settings.Selectors
import CoherentMemory.Proofs.System.Slices

/-!
# The stages of an assembly

What the outcome of an assembly is, as rules: one for the error of each stage, which
needs the results of the stages before it, one for the system of all results, and one for
the stage that can stop at an overflow (`Assembles`). `Creates` puts the stages before
them that turn settings into controllers. The rules decide the outcome (`assemble_eq_iff`,
`createSystem_eq_iff`).

The parts of an assembled system come from different stages and still fit together,
since all of them come from one list of controllers (`MemorySystem.Consistent`).
-/

namespace CoherentMemory

open Interconnect Memory

/-! ## Outcomes -/

/-- What comes of assembling the controllers `cs` by the blueprint `b`: the error of the
first stage that has one, an overflow where the network meets one first, or the system of
the results of all stages. -/
inductive Assembles (b : Blueprint) (cs : ControllerSet) :
    Except (Failure AssemblyError) MemorySystem → Prop
  | topology {e} : layout b.topology cs b.shape = .error e →
      Assembles b cs (.error (.refusal (.topology e)))
  | network {t e} : layout b.topology cs b.shape = .ok t →
      Network.create b.network t b.params = .error (.refusal e) →
      Assembles b cs (.error (.refusal (.network e)))
  | overflow {t cause} : layout b.topology cs b.shape = .ok t →
      Network.create b.network t b.params = .error (.overflow cause) →
      Assembles b cs (.error (.overflow cause))
  | memory {t n e} : layout b.topology cs b.shape = .ok t →
      Network.create b.network t b.params = .ok n → validate cs b.memory = .error e →
      Assembles b cs (.error (.refusal (.memory e)))
  | verbosity {t n size e} : layout b.topology cs b.shape = .ok t →
      Network.create b.network t b.params = .ok n → validate cs b.memory = .ok size →
      b.debug.verbosity? = .error e → Assembles b cs (.error (.refusal (.config e)))
  | system {t n size v} : layout b.topology cs b.shape = .ok t →
      Network.create b.network t b.params = .ok n → validate cs b.memory = .ok size →
      b.debug.verbosity? = .ok v → Assembles b cs (.ok (systemOf b cs n size v))

/-- The blueprint of settings whose selectors and range are known. -/
def Settings.blueprintOf (s : Settings) (topology : Interconnect.Kind) (network : Network.Kind)
    (memory : Memory.Range) : Blueprint where
  topology := topology
  network := network
  shape := s.shape
  memory := memory
  clock := s.machine.clock
  params := s.network.params
  debug := s.debug

/-- What comes of creating the system of settings: the error of the selector of the
topology, of that of the network, of the range of physical memory, of the look-up of the
protocol or of its factory, an overflow in that factory, or else what comes of assembling
its controllers. -/
inductive Creates (s : Settings) (registry : Registry) (devices : List Device) :
    Except (Failure AssemblyError) MemorySystem → Prop
  | topology {e} : s.machine.topologyKind = .error e →
      Creates s registry devices (.error (.refusal (.topology e)))
  | network {topology e} : s.machine.topologyKind = .ok topology →
      s.machine.networkKind = .error e →
      Creates s registry devices (.error (.refusal (.network e)))
  | range {topology network e} : s.machine.topologyKind = .ok topology →
      s.machine.networkKind = .ok network → s.memory.range = .error e →
      Creates s registry devices (.error (.refusal (.config e)))
  | unknown {topology network memory} : s.machine.topologyKind = .ok topology →
      s.machine.networkKind = .ok network → s.memory.range = .ok memory →
      registry.get? s.machine.protocol = none →
      Creates s registry devices (.error (.refusal (.protocol (.unknown s.machine.protocol))))
  | factory {topology network memory f e} : s.machine.topologyKind = .ok topology →
      s.machine.networkKind = .ok network → s.memory.range = .ok memory →
      registry.get? s.machine.protocol = some f →
      (f.create s.machine memory devices).result = .error (.refusal e) →
      Creates s registry devices (.error (.refusal (.protocol e)))
  | overflow {topology network memory f cause} : s.machine.topologyKind = .ok topology →
      s.machine.networkKind = .ok network → s.memory.range = .ok memory →
      registry.get? s.machine.protocol = some f →
      (f.create s.machine memory devices).result = .error (.overflow cause) →
      Creates s registry devices (.error (.overflow cause))
  | assembly {topology network memory f cs r} : s.machine.topologyKind = .ok topology →
      s.machine.networkKind = .ok network → s.memory.range = .ok memory →
      registry.get? s.machine.protocol = some f →
      (f.create s.machine memory devices).result = .ok cs →
      Assembles (s.blueprintOf topology network memory) cs r → Creates s registry devices r

section Outcome

variable {b : Blueprint} {cs : ControllerSet} {s : Settings} {registry : Registry}
variable {devices : List Device} {r : Except (Failure AssemblyError) MemorySystem}

/-- The rules give an assembly no outcome but its own. -/
theorem Assembles.assemble_eq (h : Assembles b cs r) : assemble b cs = r := by
  rw [CoherentMemory.assemble_eq]
  cases h with
  | topology ht => simp only [ht, Except.mapError, Except.bind, Function.comp]
  | network ht hn | overflow ht hn => simp only [ht, hn, Except.mapError, Except.bind, Failure.map]
  | memory ht hn hs => simp only [ht, hn, hs, Except.mapError, Except.bind, Function.comp]
  | verbosity ht hn hs hv =>
    simp only [ht, hn, hs, hv, Except.mapError, Except.bind, Function.comp]
  | system ht hn hs hv => simp only [ht, hn, hs, hv, Except.mapError, Except.bind]

variable (b cs) in
/-- Some stage is the first to fail, or none fails. -/
theorem exists_assembles : ∃ r, Assembles b cs r := by
  cases ht : layout b.topology cs b.shape with
  | error e => exact ⟨_, .topology ht⟩
  | ok t =>
    cases hn : Network.create b.network t b.params with
    | error f =>
      cases f with
      | refusal e => exact ⟨_, .network ht hn⟩
      | overflow cause => exact ⟨_, .overflow ht hn⟩
    | ok n =>
      cases hs : validate cs b.memory with
      | error e => exact ⟨_, .memory ht hn hs⟩
      | ok size =>
        cases hv : b.debug.verbosity? with
        | error e => exact ⟨_, .verbosity ht hn hs hv⟩
        | ok v => exact ⟨_, .system ht hn hs hv⟩

/-- The outcome of an assembly is the one that the rules give. -/
theorem assemble_eq_iff : assemble b cs = r ↔ Assembles b cs r := by
  refine ⟨?_, Assembles.assemble_eq⟩
  rintro rfl
  obtain ⟨r, h⟩ := exists_assembles b cs
  exact h.assemble_eq.symm ▸ h

/-- An assembly succeeds exactly if all of its stages do, with the system of their
results. -/
theorem assemble_eq_ok {sys : MemorySystem} : assemble b cs = .ok sys ↔
    ∃ t n size v, layout b.topology cs b.shape = .ok t ∧
      Network.create b.network t b.params = .ok n ∧ validate cs b.memory = .ok size ∧
        b.debug.verbosity? = .ok v ∧ sys = systemOf b cs n size v := by
  rw [assemble_eq_iff]
  constructor
  · intro h
    cases h with
    | system ht hn hs hv => exact ⟨_, _, _, _, ht, hn, hs, hv, rfl⟩
  · rintro ⟨t, n, size, v, ht, hn, hs, hv, rfl⟩
    exact .system ht hn hs hv

/-- The stages of a creation in their order, without events. -/
theorem createSystem_eq (s : Settings) (registry : Registry) (devices : List Device) :
    createSystem s registry devices =
      (s.machine.topologyKind.mapError (.refusal ∘ .topology)).bind fun topology =>
        (s.machine.networkKind.mapError (.refusal ∘ .network)).bind fun network =>
          (s.memory.range.mapError (.refusal ∘ .config)).bind fun memory =>
            ((registry.create s.machine.protocol s.machine memory devices).result.mapError
              (.map .protocol)).bind (assemble (s.blueprintOf topology network memory)) := by
  simp only [createSystem, createSystemLogged, Logged.result_bind, Logged.result_ofExcept,
    Logged.result_mapError, Settings.blueprint]
  cases s.machine.topologyKind with
  | error e => rfl
  | ok topology =>
    cases s.machine.networkKind with
    | error e => rfl
    | ok network =>
      cases s.memory.range with
      | error e => rfl
      | ok memory => rfl

theorem Registry.create_of_get?_none {protocol : String} (h : registry.get? protocol = none)
    (machine : MachineSettings) (memory : Memory.Range) :
    (registry.create protocol machine memory devices).result =
      .error (.refusal (.unknown protocol)) := by
  rw [Registry.create, h]
  rfl

theorem Registry.create_of_get? {protocol : String} {f : Factory}
    (h : registry.get? protocol = some f) (machine : MachineSettings) (memory : Memory.Range) :
    registry.create protocol machine memory devices = f.create machine memory devices := by
  rw [Registry.create, h]

theorem Creates.createSystem_eq (h : Creates s registry devices r) :
    createSystem s registry devices = r := by
  rw [CoherentMemory.createSystem_eq]
  cases h with
  | topology hk => simp only [hk, Except.mapError, Except.bind, Function.comp]
  | network hk hn => simp only [hk, hn, Except.mapError, Except.bind, Function.comp]
  | range hk hn hm => simp only [hk, hn, hm, Except.mapError, Except.bind, Function.comp]
  | unknown hk hn hm hf =>
    simp only [hk, hn, hm, Registry.create_of_get?_none hf, Except.mapError, Except.bind,
      Failure.map]
  | factory hk hn hm hf hcs | overflow hk hn hm hf hcs =>
    simp only [hk, hn, hm, Registry.create_of_get? hf, hcs, Except.mapError, Except.bind,
      Failure.map]
  | assembly hk hn hm hf hcs hr =>
    simp only [hk, hn, hm, Registry.create_of_get? hf, hcs, Except.mapError, Except.bind,
      hr.assemble_eq]

variable (s registry devices) in
theorem exists_creates : ∃ r, Creates s registry devices r := by
  cases hk : s.machine.topologyKind with
  | error e => exact ⟨_, .topology hk⟩
  | ok topology =>
    cases hn : s.machine.networkKind with
    | error e => exact ⟨_, .network hk hn⟩
    | ok network =>
      cases hm : s.memory.range with
      | error e => exact ⟨_, .range hk hn hm⟩
      | ok memory =>
        cases hf : registry.get? s.machine.protocol with
        | none => exact ⟨_, .unknown hk hn hm hf⟩
        | some f =>
          cases hcs : (f.create s.machine memory devices).result with
          | error failure =>
            cases failure with
            | refusal e => exact ⟨_, .factory hk hn hm hf hcs⟩
            | overflow cause => exact ⟨_, .overflow hk hn hm hf hcs⟩
          | ok cs =>
            obtain ⟨r, hr⟩ := exists_assembles (s.blueprintOf topology network memory) cs
            exact ⟨r, .assembly hk hn hm hf hcs hr⟩

/-- The outcome of a creation is the one that the rules give. -/
theorem createSystem_eq_iff :
    createSystem s registry devices = r ↔ Creates s registry devices r := by
  refine ⟨?_, Creates.createSystem_eq⟩
  rintro rfl
  obtain ⟨r, h⟩ := exists_creates s registry devices
  exact h.createSystem_eq.symm ▸ h

end Outcome

/-! ## Assembled systems -/

/-- The parts of a system agree with each other, with the blueprint `b` and with the
controllers `cs`. -/
structure MemorySystem.Consistent (sys : MemorySystem) (b : Blueprint) (cs : ControllerSet) :
    Prop where
  clock_eq : sys.clock = b.clock
  debug_eq : sys.debug = b.debug
  verbosity_eq : b.debug.verbosity? = .ok sys.verbosity
  controllers_eq : sys.controllers = cs
  size_eq : sys.size = b.memory.size
  /-- The directories together are exactly as large as the system. -/
  sum_eq : ((sys.controllers.directories.filterMap Controller.memory?).map
    fun r => r.size.bytes.toNat).sum = sys.size.bytes.toNat
  ports_eq : sys.ports = sys.controllers.filter Controller.isSequencer
  profile_eq : sys.profile.sequencers.size = sys.ports.length
  tracer_eq : sys.tracer.enabled = b.debug.protocolTrace
  network_eq : sys.network.kind = b.network
  topology_eq : sys.network.topology.kind = b.topology
  /-- The topology is the one that the controllers are laid out in. -/
  layout_eq : layout b.topology cs b.shape = .ok sys.network.topology
  /-- The endpoint at position `i` stands for the controller at position `i`. -/
  endpoint : ∀ {i c}, sys.controllers[i]? = some c →
    sys.network.topology.node? i = some ⟨i, .endpoint i c.name c.role⟩
  nodes_eq : sys.summary.nodes = sys.summary.controllers + sys.summary.routers
  controllers_length : sys.summary.controllers = sys.controllers.length
  names_eq : sys.summary.ports = sys.ports.map Controller.name
  /-- Every entry of the overview, by the blueprint, the controllers and the topology. -/
  summary_eq : sys.summary = {
    clock := b.clock.render
    topology := b.topology
    network := b.network
    nodes := sys.network.topology.nodes.size
    routers := (sys.network.topology.nodes.toList.filter Node.isRouter).length
    links := sys.network.topology.links.length
    size := b.memory.size
    ports := (cs.filter Controller.isSequencer).map Controller.name
    controllers := cs.length
    debug := b.debug }

theorem Memory.bytesIn_eq_sum (rs : List Memory.Range) :
    bytesIn rs = (rs.map fun r => r.size.bytes.toNat).sum := by
  induction rs with
  | nil => rfl
  | cons r rs ih => rw [bytesIn_cons, ih, List.map_cons, List.sum_cons]

theorem Memory.validate_eq_ok {cs : ControllerSet} {memory : Memory.Range} {size : Size} :
    validate cs memory = .ok size ↔ total cs = memory.size.bytes.toNat ∧ size = memory.size := by
  unfold validate
  split
  · rename_i h
    exact ⟨fun e => ⟨h, (Except.ok.inj e).symm⟩, fun e => congrArg _ e.2.symm⟩
  · rename_i h
    exact ⟨nofun, fun e => absurd e.1 h⟩

theorem Interconnect.kind_of_layout {kind : Interconnect.Kind} {cs : ControllerSet} {shape : Shape}
    {t : Topology} (h : layout kind cs shape = .ok t) : t.kind = kind := by
  cases kind with
  | crossbar =>
    simp only [layout, crossbar] at h
    split at h
    · cases h
    · cases h
      rfl
  | mesh | meshDirCorner =>
    obtain ⟨g, -, e⟩ := map_eq_ok.mp h
    rw [← e]
    rfl

theorem Network.kind_topology_of_create {kind : Network.Kind} {t : Topology}
    {params : Network.Params} {n : Network} (h : Network.create kind t params = .ok n) :
    n.kind = kind ∧ n.topology = t := by
  rcases Network.create_cases h with ⟨m, -, -, rfl⟩ | ⟨v, m, -, -, rfl⟩ <;> exact ⟨rfl, rfl⟩

/-- Besides its endpoints a layout has its routers. -/
theorem Interconnect.nodeCount_layout {kind : Interconnect.Kind} {cs : ControllerSet}
    {shape : Shape} {t : Topology} (h : layout kind cs shape = .ok t) :
    t.nodeCount = cs.length + t.routers.length := by
  obtain ⟨g, position, hw, -⟩ := layout_wiring h
  rw [hw.nodeCount_eq, hw.routers_eq, length_routerNodes]

/-- The parts of an assembled system fit together. -/
theorem consistent_of_assemble {b : Blueprint} {cs : ControllerSet} {sys : MemorySystem}
    (h : assemble b cs = .ok sys) : sys.Consistent b cs := by
  obtain ⟨t, n, size, v, ht, hn, hs, hv, rfl⟩ := assemble_eq_ok.mp h
  obtain ⟨hsum, rfl⟩ := validate_eq_ok.mp hs
  obtain ⟨hkind, rfl⟩ := Network.kind_topology_of_create hn
  exact {
    clock_eq := rfl
    debug_eq := rfl
    verbosity_eq := hv
    controllers_eq := rfl
    size_eq := rfl
    sum_eq := by
      rw [← bytesIn_eq_sum]
      exact (total_directories cs).trans hsum
    ports_eq := rfl
    profile_eq := Profile.size_start _
    tracer_eq := rfl
    network_eq := hkind
    topology_eq := kind_of_layout ht
    layout_eq := ht
    endpoint := (layout_wellFormed ht).endpoint
    nodes_eq := nodeCount_layout ht
    controllers_length := rfl
    names_eq := rfl
    summary_eq := by
      rw [← hkind, ← kind_of_layout ht]
      rfl }

/-- The outcome of an assembly is that of its first stage to fail, an error where the stage
has one and an overflow where it meets one, and it is a system exactly if no stage fails;
the same goes for a creation with its further stages. The parts of every system that comes
of either fit together. -/
theorem outcome_of_stages (b : Blueprint) (cs : ControllerSet) (s : Settings) (registry : Registry)
    (devices : List Device) :
    (∀ r, assemble b cs = r ↔ Assembles b cs r) ∧
    (∀ r, createSystem s registry devices = r ↔ Creates s registry devices r) ∧
    ((∃ sys, assemble b cs = .ok sys) ↔ ∃ t n size v, layout b.topology cs b.shape = .ok t ∧
      Network.create b.network t b.params = .ok n ∧ validate cs b.memory = .ok size ∧
        b.debug.verbosity? = .ok v) ∧
    (∀ sys, assemble b cs = .ok sys → sys.Consistent b cs) ∧
    ∀ sys, createSystem s registry devices = .ok sys → ∃ topology network memory f cs,
      (Text.trimmed s.machine.topology, topology) ∈ topologyTexts ∧
        (Text.trimmed (s.machine.garnetNetwork.getD ""), network) ∈ networkTexts ∧
          s.memory.range = .ok memory ∧ registry.get? s.machine.protocol = some f ∧
            (f.create s.machine memory devices).result = .ok cs ∧
              sys.Consistent (s.blueprintOf topology network memory) cs := by
  refine ⟨fun r => assemble_eq_iff, fun r => createSystem_eq_iff, ?_,
    fun sys => consistent_of_assemble, fun sys h => ?_⟩
  · simp only [assemble_eq_ok]
    constructor
    · rintro ⟨sys, t, n, size, v, ht, hn, hs, hv, -⟩
      exact ⟨t, n, size, v, ht, hn, hs, hv⟩
    · rintro ⟨t, n, size, v, ht, hn, hs, hv⟩
      exact ⟨_, t, n, size, v, ht, hn, hs, hv, rfl⟩
  · cases createSystem_eq_iff.mp h with
    | assembly hk hn hm hf hcs hr =>
      exact ⟨_, _, _, _, _, (topologyKind_eq_ok_iff _).mp hk, (networkKind_eq_ok_iff _).mp hn,
        hm, hf, hcs, consistent_of_assemble hr.assemble_eq⟩

/-- Where neither the network nor the base address nor the verbosity can be read, the
network is what fails; and where the directories do not fit the memory either, that
comes before the verbosity. -/
theorem outcome_of_stages_order :
    createSystem {
      machine := { topology := " mesh ", garnetNetwork := some "slow" }
      memory := { base := "top" }
      debug := { verbosity := "loud" } } .builtin [] =
        .error (.refusal (.network (.unsupportedKind "slow"))) ∧
    assemble {
      topology := .crossbar
      network := .simple
      memory := ⟨0, 255, by decide, by decide⟩
      debug := { verbosity := "loud" } } [.sequencer 0] =
        .error (.refusal (.memory ⟨256, 0⟩)) := by
  obtain ⟨hassemble, -, -⟩ := outcome_of_stages {
    topology := .crossbar
    network := .simple
    memory := ⟨0, 255, by decide, by decide⟩
    debug := { verbosity := "loud" } } [.sequencer 0] {} .builtin []
  obtain ⟨-, hcreate, -⟩ := outcome_of_stages {
    topology := .crossbar
    network := .simple
    memory := ⟨0, 255, by decide, by decide⟩ } [] {
      machine := { topology := " mesh ", garnetNetwork := some "slow" }
      memory := { base := "top" }
      debug := { verbosity := "loud" } } .builtin []
  have hmesh : MachineSettings.topologyKind
    { topology := " mesh ", garnetNetwork := some "slow" } = .ok .mesh := by decide +kernel
  exact ⟨(hcreate _).mpr (.network hmesh (by decide +kernel)),
    (hassemble _).mpr (.memory rfl rfl rfl)⟩

end CoherentMemory
