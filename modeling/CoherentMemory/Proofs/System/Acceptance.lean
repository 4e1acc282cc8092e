import CoherentMemory.Proofs.Network.Creation
import CoherentMemory.Proofs.System.Machine
import CoherentMemory.Proofs.System.Stages

/-!
# Which settings give a system

What settings of the two-state protocol have to say (`Settings.Acceptable`), and that it
is enough (`exists_createSystem_iff`): no stage of a creation refuses acceptable settings
as long as there is room for all lists (`Interconnect.Topology.Roomy`) and, for the simple
network, the sums of latencies fit in 64 bits. Both hold of every machine of ordinary size,
and neither follows from the rest (`acceptable_not_created`).
-/

namespace CoherentMemory

open Interconnect Network

/-- `t` is the topology of the machine that settings describe. -/
def Settings.LaysOut (s : Settings) (devices : List Device) (t : Topology) : Prop :=
  ∃ kind memory cs, s.machine.topologyKind = .ok kind ∧ s.memory.range = .ok memory ∧
    TwoState.controllers s.machine memory devices = .ok cs ∧ layout kind cs s.shape = .ok t

/-- What settings have to say so that the two-state protocol makes a system of them. -/
structure Settings.Acceptable (s : Settings) (devices : List Device) : Prop where
  topology : Text.trimmed s.machine.topology ∈ ["crossbar", "mesh", "mesh_dir_corner"]
  network : ∀ text ∈ s.machine.garnetNetwork, Text.trimmed text ∈
    ["", "none", "simple", "fixed", "fixed-garnet", "flexible", "flexible-garnet"]
  memory : ∃ base, s.memory.baseAddress = .ok base ∧ 1 ≤ s.memory.size.bytes.toNat ∧
    base.toNat + s.memory.size.bytes.toNat ≤ 2 ^ 64
  cpus : 1 ≤ s.machine.cpus.toNat
  directories : 1 ≤ s.machine.directories.toNat
  /-- Physical memory is divided evenly. -/
  slices : s.machine.directories.toNat ∣ s.memory.size.bytes.toNat
  /-- The placed controllers of a mesh fill its rows. -/
  rows : Text.trimmed s.machine.topology = "crossbar" ∨ (1 ≤ s.machine.meshRows.toNat ∧
    s.machine.meshRows.toNat ∣ s.machine.cpus.toNat + s.machine.directories.toNat)
  /-- The buffers of every router of a detailed network can be counted. -/
  buffers : (∀ text ∈ s.machine.garnetNetwork, Text.trimmed text ∈ ["", "none", "simple"]) ∨
    ∀ t, s.LaysOut devices t → BuffersFit t s.network.pipelined
  verbosity : String.ofList ((Text.trim s.debug.verbosity.toList).map Char.toLower) ∈
    ["none", "low", "med", "medium", "high"]

/-- The number of controllers that the two-state protocol makes. -/
def Settings.population (s : Settings) (devices : List Device) : Nat :=
  s.machine.cpus.toNat + s.machine.directories.toNat + devices.length

section Stages

variable {s : Settings} {devices : List Device}

/-- Settings lay out one topology. -/
theorem Settings.LaysOut.unique {t t' : Topology} (h : s.LaysOut devices t)
    (h' : s.LaysOut devices t') : t = t' := by
  obtain ⟨kind, memory, cs, hk, hm, hcs, ht⟩ := h
  obtain ⟨kind', memory', cs', hk', hm', hcs', ht'⟩ := h'
  cases hk.symm.trans hk'
  cases hm.symm.trans hm'
  cases hcs.symm.trans hcs'
  exact Except.ok.inj (ht.symm.trans ht')

theorem size_of_range {m : PhysicalMemory} {memory : Memory.Range} (h : m.range = .ok memory) :
    memory.size = m.size := by
  obtain ⟨base, -, h⟩ := bind_eq_ok.mp h
  exact (Memory.Range.ofSize_eq_ok h).2.2

/-- The controllers of a machine own all of its memory exactly if it is divided evenly. -/
theorem total_eq_size_iff {machine : MachineSettings} {memory : Memory.Range}
    {cs : ControllerSet} (h : TwoState.controllers machine memory devices = .ok cs) :
    Memory.total cs = memory.size.bytes.toNat ↔
      machine.directories.toNat ∣ memory.size.bytes.toNat := by
  rw [TwoState.total_controllers h, TwoState.sliceOf]
  constructor
  · intro he
    exact ⟨_, he.symm⟩
  · intro hd
    exact Nat.mul_div_cancel' hd

/-- A system of the two-state protocol is created if each of its stages has a result. -/
theorem createSystem_eq_ok (hp : s.machine.protocol = "MI_example") {sys : MemorySystem} :
    createSystem s .builtin devices = .ok sys ↔ ∃ kind network memory cs t n v,
      s.machine.topologyKind = .ok kind ∧ s.machine.networkKind = .ok network ∧
      s.memory.range = .ok memory ∧ TwoState.controllers s.machine memory devices = .ok cs ∧
      layout kind cs s.shape = .ok t ∧ Network.create network t s.network.params = .ok n ∧
      Memory.total cs = memory.size.bytes.toNat ∧ s.debug.verbosity? = .ok v ∧
      sys = systemOf (s.blueprintOf kind network memory) cs n memory.size v := by
  have hget : Registry.builtin.get? s.machine.protocol = some TwoState.factory := by
    rw [hp]
    exact Registry.get?_insert TwoState.factory []
  rw [createSystem_eq_iff]
  constructor
  · intro h
    cases h with
    | @assembly kind network memory f cs r hk hn hm hf hcs hr =>
      cases hget.symm.trans hf
      rw [TwoState.result_create] at hcs
      obtain ⟨t, n, size, v, ht, hnet, hs, hv, rfl⟩ := assemble_eq_ok.mp hr.assemble_eq
      obtain ⟨htotal, rfl⟩ := Memory.validate_eq_ok.mp hs
      exact ⟨kind, network, memory, cs, t, n, v, hk, hn, hm, hcs, ht, hnet, htotal, hv, rfl⟩
  · rintro ⟨kind, network, memory, cs, t, n, v, hk, hn, hm, hcs, ht, hnet, htotal, hv, rfl⟩
    have hs : Memory.validate cs memory = .ok memory.size :=
      Memory.validate_eq_ok.mpr ⟨htotal, rfl⟩
    rw [← TwoState.result_create] at hcs
    exact .assembly hk hn hm hget hcs (.system ht hnet hs hv)

/-! ## What is asked, and that it is enough -/

/-- The simple network is selected and its sums of latencies fit in 64 bits, or another
network is selected. -/
def Settings.LatenciesFit (s : Settings) (devices : List Device) : Prop :=
  (∀ text ∈ s.machine.garnetNetwork, Text.trimmed text ∈ ["", "none", "simple"]) →
    ∀ t, s.LaysOut devices t → Network.LatenciesFit t

theorem acceptable_of_createSystem (hp : s.machine.protocol = "MI_example") {sys : MemorySystem}
    (h : createSystem s .builtin devices = .ok sys) :
    s.Acceptable devices ∧ s.population devices < 2 ^ 57 ∧ s.LatenciesFit devices := by
  obtain ⟨kind, network, memory, cs, t, n, v, hk, hn, hm, hcs, ht, hnet, htotal, hv, -⟩ :=
    (createSystem_eq_ok hp).mp h
  have hsize := size_of_range hm
  have hlaid : s.LaysOut devices t := ⟨kind, memory, cs, hk, hm, hcs, ht⟩
  obtain ⟨⟨hcpus, hdirs, -⟩, hcount⟩ := TwoState.exists_controllers_iff.mp ⟨cs, hcs⟩
  have hrows := exists_layout_iff.mp ⟨t, ht⟩
  have hfit := (exists_create_iff ht network s.network.params).mp ⟨n, hnet⟩
  refine ⟨{
    topology := (exists_topologyKind_iff _).mp ⟨kind, hk⟩
    network := (exists_networkKind_iff _).mp ⟨network, hn⟩
    memory := (exists_range_iff _).mp ⟨memory, hm⟩
    cpus := hcpus
    directories := hdirs
    slices := hsize ▸ (total_eq_size_iff hcs).mp htotal
    rows := ?_
    buffers := ?_
    verbosity := (exists_verbosity_iff _).mp ⟨v, hv⟩ }, hcount, fun hsimple t' ht' => ?_⟩
  · rw [← topologyKind_eq_crossbar_iff, hk]
    by_cases e : kind = .crossbar
    · exact .inl (congrArg _ e)
    · rw [if_neg e, (TwoState.populates_of_controllers hcs).placed_length] at hrows
      exact .inr hrows.2
  · rw [← networkKind_eq_simple_iff, hn]
    by_cases e : network = .simple
    · exact .inl (congrArg _ e)
    · rw [if_neg e] at hfit
      exact .inr fun t' ht' => hlaid.unique ht' ▸ hfit
  · rw [← networkKind_eq_simple_iff, hn] at hsimple
    rw [if_pos (Except.ok.inj hsimple)] at hfit
    exact hlaid.unique ht' ▸ hfit

namespace Settings.Acceptable

variable (h : s.Acceptable devices)
include h

theorem exists_controllers (hcount : s.population devices < 2 ^ 57) {memory : Memory.Range}
    (hm : s.memory.range = .ok memory) :
    ∃ cs, TwoState.controllers s.machine memory devices = .ok cs := by
  have hslices := h.slices
  rw [← size_of_range hm] at hslices
  have hpos : 0 < memory.size.bytes.toNat := by
    rw [Memory.Range.toNat_size]
    exact Nat.succ_pos _
  exact TwoState.exists_controllers_iff.mpr
    ⟨⟨h.cpus, h.directories, Nat.le_of_dvd hpos hslices⟩, hcount⟩

theorem exists_layout {kind : Interconnect.Kind} (hk : s.machine.topologyKind = .ok kind)
    {memory : Memory.Range} {cs : ControllerSet}
    (hcs : TwoState.controllers s.machine memory devices = .ok cs) :
    ∃ t, layout kind cs s.shape = .ok t := by
  have hpop := TwoState.populates_of_controllers hcs
  have hcpus := h.cpus
  have hrows := h.rows
  rw [← topologyKind_eq_crossbar_iff, hk] at hrows
  rw [exists_layout_iff]
  by_cases e : kind = .crossbar
  · rw [if_pos e, hpop.length_eq]
    omega
  · rw [if_neg e, hpop.placed_length]
    exact ⟨by omega, hrows.resolve_left fun he => e (Except.ok.inj he)⟩

theorem exists_create (hfit : s.LatenciesFit devices) {network : Network.Kind}
    (hn : s.machine.networkKind = .ok network) {kind : Interconnect.Kind} {cs : ControllerSet}
    {t : Topology} (ht : layout kind cs s.shape = .ok t) (hlaid : s.LaysOut devices t) :
    ∃ n, Network.create network t s.network.params = .ok n := by
  have hbuffers := h.buffers
  simp only [Settings.LatenciesFit, ← networkKind_eq_simple_iff, hn] at hfit hbuffers
  rw [exists_create_iff ht]
  by_cases e : network = .simple
  · rw [if_pos e]
    exact hfit (congrArg _ e) t hlaid
  · rw [if_neg e]
    exact (hbuffers.resolve_left fun he => e (Except.ok.inj he)) t hlaid

theorem exists_createSystem (hp : s.machine.protocol = "MI_example")
    (hcount : s.population devices < 2 ^ 57) (hfit : s.LatenciesFit devices) :
    ∃ sys, createSystem s .builtin devices = .ok sys := by
  obtain ⟨kind, hk⟩ := (exists_topologyKind_iff _).mpr h.topology
  obtain ⟨network, hn⟩ := (exists_networkKind_iff _).mpr h.network
  obtain ⟨memory, hm⟩ := (exists_range_iff _).mpr h.memory
  obtain ⟨v, hv⟩ := (exists_verbosity_iff _).mpr h.verbosity
  obtain ⟨cs, hcs⟩ := h.exists_controllers hcount hm
  obtain ⟨t, ht⟩ := h.exists_layout hk hcs
  obtain ⟨n, hnet⟩ := h.exists_create hfit hn ht ⟨kind, memory, cs, hk, hm, hcs, ht⟩
  have htotal : Memory.total cs = memory.size.bytes.toNat := by
    rw [total_eq_size_iff hcs, size_of_range hm]
    exact h.slices
  exact ⟨_, (createSystem_eq_ok hp).mpr
    ⟨kind, network, memory, cs, t, n, v, hk, hn, hm, hcs, ht, hnet, htotal, hv, rfl⟩⟩

end Settings.Acceptable

end Stages

/-! ## Room for lists -/

/-- Every list that is filled on the way to a system of `n` controllers has less than 2⁶³
bytes, also where it asks for twice the room it needs. A node has 48 bytes, a link 32, and
an entry of a search's frontier, to which each link adds two at most, 16; the other lists
have no more elements, of no more bytes. -/
structure Interconnect.Topology.Roomy (t : Topology) (n : Nat) : Prop where
  controllers : 2 * n * TwoState.controllerWidth < 2 ^ 63
  nodes : 2 * t.nodeCount * 48 < 2 ^ 63
  links : 2 * t.linkCount * 32 < 2 ^ 63
  frontier : 2 * (2 * t.linkCount + 1) * 16 < 2 ^ 63

/-- With up to `2 ^ 55` controllers there is room for every list. -/
theorem Settings.LaysOut.roomy {s : Settings} {devices : List Device} {t : Topology}
    (h : s.LaysOut devices t) (hcount : s.population devices ≤ 2 ^ 55) :
    t.Roomy (s.population devices) := by
  obtain ⟨kind, memory, cs, -, -, hcs, ht⟩ := h
  have hlength : cs.length = s.population devices :=
    (TwoState.populates_of_controllers hcs).length_eq
  have hnodes := nodeCount_layout_le ht
  have hlinks := linkCount_layout_le ht
  rw [hlength] at hnodes hlinks
  exact {
    controllers := by
      rw [TwoState.controllerWidth]
      omega
    nodes := by omega
    links := by omega
    frontier := by omega }

/-- Only of acceptable settings is a system of the two-state protocol created, and not of
more controllers than a list has room for, nor, with the simple network, where a sum of
latencies leaves 64 bits; with up to `2 ^ 31` nodes none does. With up to `2 ^ 55`
controllers, where every list keeps its room, nothing else is asked. The system has a port
for each processor, a controller for each processor, directory and device, and all of the
memory. -/
theorem exists_createSystem_iff {s : Settings} (hp : s.machine.protocol = "MI_example")
    (devices : List Device) :
    (s.population devices ≤ 2 ^ 55 →
      ((∃ sys, createSystem s .builtin devices = .ok sys) ↔
        s.Acceptable devices ∧ s.LatenciesFit devices) ∧
      ∀ t, s.LaysOut devices t → t.Roomy (s.population devices)) ∧
    (∀ sys, createSystem s .builtin devices = .ok sys →
      s.Acceptable devices ∧ s.LatenciesFit devices ∧ s.population devices < 2 ^ 57 ∧
        sys.ports.length = s.machine.cpus.toNat ∧
          sys.controllers.length = s.population devices ∧ sys.size = s.memory.size) ∧
    ((∀ t, s.LaysOut devices t → t.nodeCount ≤ 2 ^ 31) → s.LatenciesFit devices) := by
  refine ⟨fun hcount => ⟨⟨?_, ?_⟩, fun t ht => ht.roomy hcount⟩, fun sys h => ?_,
    fun hN _ t ht => ?_⟩
  · rintro ⟨sys, h⟩
    obtain ⟨hacc, -, hfit⟩ := acceptable_of_createSystem hp h
    exact ⟨hacc, hfit⟩
  · rintro ⟨hacc, hfit⟩
    exact hacc.exists_createSystem hp (by omega) hfit
  · obtain ⟨hacc, hcount, hfit⟩ := acceptable_of_createSystem hp h
    obtain ⟨kind, network, memory, cs, t, n, v, -, -, hm, hcs, -, -, -, -, rfl⟩ :=
      (createSystem_eq_ok hp).mp h
    have hpop := TwoState.populates_of_controllers hcs
    exact ⟨hacc, hfit, hcount, hpop.sequencers_length, hpop.length_eq, size_of_range hm⟩
  · have hnodes := hN t ht
    obtain ⟨kind, memory, cs, -, -, -, hlayout⟩ := ht
    exact latenciesFit_of_nodeCount_le hlayout hnodes

/-- Two directories divide a memory of 1024 bytes between them, but not one of 1023. -/
theorem exists_createSystem_iff_halves :
    (∃ sys, createSystem { machine := { directories := 2 }, memory := { size := ⟨1024⟩ } }
      .builtin [] = .ok sys ∧ sys.ports.length = 1 ∧ sys.controllers.length = 3) ∧
    ¬∃ sys, createSystem { machine := { directories := 2 }, memory := { size := ⟨1023⟩ } }
      .builtin [] = .ok sys := by
  constructor
  · have hok : (createSystem { machine := { directories := 2 }, memory := { size := ⟨1024⟩ } }
      .builtin []).isOk = true := by decide +kernel
    cases h : createSystem { machine := { directories := 2 }, memory := { size := ⟨1024⟩ } }
      .builtin [] with
    | error e =>
      rw [h] at hok
      cases hok
    | ok sys =>
      obtain ⟨-, -, -, hports, hcontrollers, -⟩ := (exists_createSystem_iff rfl []).2.1 sys h
      exact ⟨sys, rfl, hports, hcontrollers⟩
  · intro h
    obtain ⟨hacc, -⟩ := ((exists_createSystem_iff rfl []).1 (by decide)).1.mp h
    exact absurd hacc.slices (by decide)

/-! ## Beyond 64 bits -/

/-- As many directories as there are bytes, and more than a list has room for. -/
def crowdedSettings : Settings where
  machine := { directories := 4611686018427387904 }
  memory := { size := ⟨4611686018427387904⟩ }

/-- A single row of routers that is too long for its slow links. -/
def longRowSettings : Settings where
  machine := { topology := "mesh", cpus := 17179869184 }
  network := { internalLatency := 4294967295 }

theorem crowdedSettings_acceptable : crowdedSettings.Acceptable [] where
  topology := by decide +kernel
  network := nofun
  memory := ⟨0, by decide +kernel, by decide, by decide⟩
  cpus := by decide
  directories := by decide
  slices := ⟨1, rfl⟩
  rows := .inl (by decide +kernel)
  buffers := .inl nofun
  verbosity := by decide +kernel

theorem longRowSettings_acceptable : longRowSettings.Acceptable [] where
  topology := by decide +kernel
  network := nofun
  memory := ⟨0, by decide +kernel, by decide, by decide⟩
  cpus := by decide
  directories := by decide
  slices := ⟨536870912, rfl⟩
  rows := .inr ⟨by decide, Nat.one_dvd _⟩
  buffers := .inl nofun
  verbosity := by decide +kernel

/-- The crowded settings stop at an overflow, whatever is to be debugged. -/
theorem createSystem_crowdedSettings (debug : DebugSettings) :
    createSystem { crowdedSettings with debug } .builtin [] = .error (.overflow .capacity) := by
  have hk : crowdedSettings.machine.topologyKind = .ok .crossbar := by decide +kernel
  have hget : Registry.builtin.get? crowdedSettings.machine.protocol = some TwoState.factory :=
    Registry.get?_insert TwoState.factory []
  obtain ⟨memory, hm⟩ := (exists_range_iff _).mpr crowdedSettings_acceptable.memory
  refine createSystem_eq_iff.mpr (.overflow hk rfl hm hget ?_)
  rw [TwoState.result_create]
  have hslice : TwoState.Sliceable crowdedSettings.machine memory := by
    rw [TwoState.Sliceable, size_of_range hm]
    decide
  have hcrowded : 2 ^ 57 ≤ crowdedSettings.population [] := by decide
  have hcount : crowdedSettings.population [] < 2 ^ 64 := by decide
  exact TwoState.controllers_of_crowded hslice hcrowded hcount

/-- Where the factory stops at an overflow, neither a system nor an error is returned,
although the verbosity has an error. -/
theorem crowded_not_returned :
    DebugSettings.verbosity? { verbosity := "loud" } = .error (.invalidVerbosity "loud") ∧
    (∀ sys, createSystem { crowdedSettings with debug := { verbosity := "loud" } } .builtin [] ≠
      .ok sys) ∧
    ∀ e, createSystem { crowdedSettings with debug := { verbosity := "loud" } } .builtin [] ≠
      .error (.refusal e) := by
  have h := createSystem_crowdedSettings { verbosity := "loud" }
  refine ⟨by decide +kernel, fun sys hsys => ?_, fun e he => ?_⟩
  · cases h.symm.trans hsys
  · cases h.symm.trans he

/-- The latencies along a row that is too long do not fit. -/
theorem not_latenciesFit_longRowSettings : ¬longRowSettings.LatenciesFit [] := by
  intro hfit
  have hacc := longRowSettings_acceptable
  have hk : longRowSettings.machine.topologyKind = .ok .mesh := by decide +kernel
  obtain ⟨memory, hm⟩ := (exists_range_iff _).mpr hacc.memory
  obtain ⟨cs, hcs⟩ := hacc.exists_controllers (by decide) hm
  obtain ⟨t, ht⟩ := hacc.exists_layout hk hcs
  have hpop := TwoState.populates_of_controllers hcs
  obtain ⟨g, hg, rfl⟩ := map_eq_ok.mp ht
  obtain ⟨hrows, hplaced⟩ := meshGrid_eq_ok hg
  obtain ⟨position, hw⟩ := meshOver_wiring .mesh hplaced longRowSettings.shape
  have hcolumns : g.columns = 2 ^ 34 + 1 := by
    have hone : g.rows = 1 := hrows
    rw [hpop.placed_length, Grid.positions, hone, Nat.one_mul] at hplaced
    exact hplaced.symm
  have hlong : 2 ^ 64 ≤ longRowSettings.shape.internalLatency.toNat * ((g.columns - 1) / 2) := by
    rw [hcolumns]
    decide
  have hcs' : 0 < cs.length := by
    rw [hpop.length_eq]
    decide
  exact not_latenciesFit_of_row hw hcs' hrows rfl hlong
    (hfit (by rintro _ ⟨⟩) _ ⟨.mesh, memory, cs, hk, hm, hcs, ht⟩)

/-- Acceptable settings of less than `2 ^ 64` controllers that no system is created of:
of the ones there are more than a list has room for, and of the others the latencies along
the row leave 64 bits. -/
theorem acceptable_not_created :
    (crowdedSettings.population [] < 2 ^ 64 ∧ crowdedSettings.Acceptable [] ∧
      createSystem crowdedSettings .builtin [] = .error (.overflow .capacity)) ∧
    (longRowSettings.population [] ≤ 2 ^ 55 ∧ longRowSettings.Acceptable [] ∧
      ¬∃ sys, createSystem longRowSettings .builtin [] = .ok sys) := by
  refine ⟨⟨by decide, crowdedSettings_acceptable, createSystem_crowdedSettings {}⟩,
    by decide, longRowSettings_acceptable, ?_⟩
  rintro ⟨sys, h⟩
  obtain ⟨-, -, hfit⟩ := acceptable_of_createSystem rfl h
  exact not_latenciesFit_longRowSettings hfit

end CoherentMemory
