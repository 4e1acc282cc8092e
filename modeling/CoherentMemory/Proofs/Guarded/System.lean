import CoherentMemory.Proofs.Guarded.Machine
import CoherentMemory.Proofs.Guarded.Network
import CoherentMemory.Proofs.System.Acceptance

/-!
# Guarded systems

The creation of a system of the built-in protocols in guarded operations, and what is
asked of the system afterwards. For machines of up to `2 ^ 30` controllers none of it ends
in a fault (`createSystem_faultless`): not a machine is too large for its words, whatever
the other settings are. So a creation without a system returns an error of its own.
-/

namespace CoherentMemory.Guarded

open Interconnect Network

/-! ## Creation -/

/-- The controllers that a built-in protocol makes. -/
def protocolControllers (machine : MachineSettings) (memory : Memory.Range)
    (devices : List Device) : Stage ProtocolError ControllerSet :=
  if machine.protocol = TwoState.name then controllers machine memory devices
  else throw (.unknown machine.protocol)

/-- Assembles a system. -/
def assemble (b : Blueprint) (cs : ControllerSet) : Stage AssemblyError MemorySystem := do
  let t ← (layout b.topology cs b.shape).adapt .topology
  let n ← (create b.network t b.params).adapt .network
  let size ← (validate cs b.memory).adapt .memory
  let ports ← count cs.sequencers
  let verbosity ← .mk (.ok (b.debug.verbosity?.mapError .config))
  return { systemOf b cs n size verbosity with profile := .start ports }

/-- Creates the system that settings describe. -/
def createSystem (s : Settings) (devices : List Device) : Stage AssemblyError MemorySystem := do
  let b ← .mk (.ok s.blueprint)
  let cs ← (protocolControllers s.machine b.memory devices).adapt .protocol
  assemble b cs

/-- An overview of a system. -/
def summary (s : MemorySystem) : Except Fault Summary := do
  return { s.summary with routers := ← count s.network.topology.routers }

/-- The first directory that owns an address. To compare the address with the ends of a
range takes no guard. -/
def directoryFor (s : MemorySystem) (address : UInt64) : Except Fault (Option Controller) :=
  s.controllers.directories.findM? fun c => pure (c.memory?.any (·.contains address))

/-! ## No faults -/

section System

variable {s : Settings} {devices : List Device}

theorem get?_builtin_eq_none {protocol : String} (h : protocol ≠ TwoState.name) :
    Registry.builtin.get? protocol = none :=
  Registry.get?_insert_ne h []

theorem protocolControllers_matches {machine : MachineSettings} (memory : Memory.Range)
    (hcount : machine.cpus.toNat + machine.directories.toNat + devices.length < 2 ^ 57) :
    (protocolControllers machine memory devices).Matches
      (Registry.builtin.create machine.protocol machine memory devices).result := by
  unfold protocolControllers
  split
  · rename_i hp
    rw [hp, TwoState.name, result_create_builtin]
    exact controllers_matches hcount
  · rename_i hp
    rw [Registry.create_of_get?_none (get?_builtin_eq_none hp)]
    exact ⟨.error _, rfl, rfl⟩

theorem assemble_matches {cs : ControllerSet} (hcs : cs.length ≤ 2 ^ 30) (b : Blueprint) :
    (assemble b cs).Matches (CoherentMemory.assemble b cs) := by
  have hports : cs.sequencers.length ≤ cs.length := List.length_filter_le ..
  rw [CoherentMemory.assemble_eq]
  refine (Stage.matches_adapt _ (layout_eq _ (by omega) _)).bind fun t ht => ?_
  have ht := mapError_eq_ok.mp ht
  have hN := nodeCount_layout_le ht
  refine ((create_matches ht (by omega) _ _).adapt _).bind fun n _ => ?_
  refine (Stage.matches_adapt _ (validate_eq (by omega) _)).bind fun size _ => ?_
  refine .lift_bind (count_eq (by omega)) ?_
  have hverbosity : Stage.Matches (.mk (.ok (b.debug.verbosity?.mapError .config)))
      (b.debug.verbosity?.mapError (.refusal ∘ AssemblyError.config)) :=
    ⟨_, rfl, (mapError_mapError ..).symm⟩
  exact hverbosity.bind fun verbosity _ => ⟨.ok _, rfl, rfl⟩

/-- What a built-in protocol makes of a machine is what the two-state protocol makes of
it. -/
theorem controllers_of_builtin {memory : Memory.Range}
    {r : Except (Failure ProtocolError) ControllerSet} {f : Factory}
    (hf : Registry.builtin.get? s.machine.protocol = some f)
    (h : (f.create s.machine memory devices).result = r) :
    TwoState.controllers s.machine memory devices = r := by
  have hp : s.machine.protocol = TwoState.name := by
    by_contra hp
    rw [get?_builtin_eq_none hp] at hf
    cases hf
  have hget : Registry.builtin.get? TwoState.name = some TwoState.factory :=
    Registry.get?_insert TwoState.factory []
  rw [hp, hget] at hf
  cases hf
  rw [← TwoState.result_create, h]

/-- The number of controllers is the population of the machine. -/
theorem length_of_builtin {memory : Memory.Range} {cs : ControllerSet}
    (h : (Registry.builtin.create s.machine.protocol s.machine memory devices).result = .ok cs) :
    cs.length = s.population devices := by
  cases hf : Registry.builtin.get? s.machine.protocol with
  | none =>
    rw [Registry.create_of_get?_none hf] at h
    cases h
  | some f =>
    rw [Registry.create_of_get? hf] at h
    exact (TwoState.populates_of_controllers (controllers_of_builtin hf h)).length_eq

/-- A creation in guarded operations has the outcome that it has in unguarded ones. -/
theorem createSystem_matches (h : s.population devices ≤ 2 ^ 30) :
    (createSystem s devices).Matches (CoherentMemory.createSystem s .builtin devices) := by
  have e : CoherentMemory.createSystem s .builtin devices =
      (s.blueprint.mapError .refusal).bind fun b =>
        ((Registry.builtin.create s.machine.protocol s.machine b.memory devices).result.mapError
          (.map AssemblyError.protocol)).bind (CoherentMemory.assemble b) := by
    simp only [CoherentMemory.createSystem, createSystemLogged, Logged.result_bind,
      Logged.result_ofExcept, Logged.result_mapError]
    rfl
  have hcount : s.machine.cpus.toNat + s.machine.directories.toNat + devices.length < 2 ^ 57 :=
    Nat.lt_of_le_of_lt h (by decide)
  have hblueprint : Stage.Matches (.mk (.ok s.blueprint)) (s.blueprint.mapError .refusal) :=
    ⟨_, rfl, rfl⟩
  rw [e]
  refine hblueprint.bind fun b _ => ?_
  refine ((protocolControllers_matches b.memory hcount).adapt _).bind fun cs hcs => ?_
  have hlen := length_of_builtin (mapError_eq_ok.mp hcs)
  exact assemble_matches (hlen ▸ h) b

/-- What is asked of a system has the same answer in guarded operations. -/
structure Answers (sys : MemorySystem) : Prop where
  summary_eq : summary sys = .ok sys.summary
  hopDistance_eq : ∀ a b, hopDistance sys.network.topology a b =
    .ok (sys.network.topology.hopDistance a b)
  attachment_eq : ∀ name, attachmentOf sys.network.topology name =
    .ok (sys.network.topology.attachmentOf? name)
  latency_eq : ∀ a b, ∃ l, sys.network.latency a b = .ok l ∧ latency sys.network a b = .ok l
  directoryFor_eq : ∀ address, directoryFor sys address = .ok (sys.directoryFor? address)

theorem answers_of_createSystem (h : s.population devices ≤ 2 ^ 30) {sys : MemorySystem}
    (hsys : CoherentMemory.createSystem s .builtin devices = .ok sys) : Answers sys := by
  cases createSystem_eq_iff.mp hsys with
  | assembly hk hn hm hf hcs hr =>
    obtain ⟨t, n, size, v, ht, hnet, -, -, rfl⟩ := assemble_eq_ok.mp hr.assemble_eq
    have hlen := (TwoState.populates_of_controllers (controllers_of_builtin hf hcs)).length_eq
    have hnodes := nodeCount_layout_le ht
    have hrouters := nodeCount_layout ht
    rw [Settings.population] at h
    have hN : t.nodeCount ≤ 2 ^ 31 := by omega
    have hcount : count t.routers = .ok t.routers.length := count_eq (by omega)
    obtain ⟨g, position, hw, -⟩ := layout_wiring ht
    obtain ⟨-, rfl⟩ := Network.kind_topology_of_create hnet
    exact {
      summary_eq := bind_eq_ok.mpr ⟨_, hcount, rfl⟩
      hopDistance_eq := hopDistance_eq hw.linksInRange (Nat.lt_of_le_of_lt hN (by decide))
      attachment_eq := attachmentOf_eq hw.linksInRange
      latency_eq := latency_eq ht hN hnet
      directoryFor_eq := fun address => List.findM?_pure .. }

/-- For up to `2 ^ 30` controllers no operation is without a result, whatever else the
settings say: a creation gives a system or refuses, and what is asked of the system
afterwards is answered, whichever nodes, names or addresses it is asked about. -/
theorem createSystem_faultless (h : s.population devices ≤ 2 ^ 30) :
    (∃ r, (createSystem s devices).run = .ok r ∧
      CoherentMemory.createSystem s .builtin devices = r.mapError .refusal) ∧
    (∀ e, CoherentMemory.createSystem s .builtin devices = .error e →
      ∃ error, e = .refusal error) ∧
    ∀ sys, CoherentMemory.createSystem s .builtin devices = .ok sys → Answers sys :=
  ⟨createSystem_matches h, fun _ => (createSystem_matches h).exists_refusal,
    fun _ => answers_of_createSystem h⟩

end System

/-- The slowest links, and a memory that ends with the address space. -/
def edgeSettings : Settings where
  machine := { topology := "mesh" }
  memory := { base := "0xffffffffffffff00", size := ⟨256⟩ }
  network := { externalLatency := 4294967295, internalLatency := 4294967295 }

/-- The two controllers of a machine at the edge of the address space are three links and
three times the largest latency apart. -/
theorem createSystem_faultless_edge : edgeSettings.population [] ≤ 2 ^ 30 ∧ ∃ sys,
    (createSystem edgeSettings []).run = .ok (.ok sys) ∧ summary sys = .ok sys.summary ∧
      hopDistance sys.network.topology 0 1 = .ok (some 3) ∧
        latency sys.network 0 1 = .ok (some (3 * 4294967295)) := by
  have h : edgeSettings.population [] ≤ 2 ^ 30 := by decide
  obtain ⟨⟨r, hrun, hcreate⟩, -, hanswers⟩ := createSystem_faultless h
  have hedge : ((CoherentMemory.createSystem edgeSettings .builtin []).toOption.map fun sys =>
      (sys.network.topology.hopDistance 0 1, (sys.network.latency 0 1).toOption)) =
        some (some 3, some (some (3 * 4294967295))) := by decide +kernel
  refine ⟨h, ?_⟩
  cases hsys : CoherentMemory.createSystem edgeSettings .builtin [] with
  | error e =>
    rw [hsys] at hedge
    cases hedge
  | ok sys =>
    have ha := hanswers sys hsys
    obtain ⟨l, hl, hlatency⟩ := ha.latency_eq 0 1
    rw [hsys] at hedge
    simp only [Except.toOption, Option.map_some, Option.some.injEq, Prod.mk.injEq, hl] at hedge
    obtain ⟨hhops, rfl⟩ := hedge
    have hr : r = .ok sys := mapError_eq_ok.mp (hcreate.symm.trans hsys)
    exact ⟨sys, hr ▸ hrun, ha.summary_eq, hhops ▸ ha.hopDistance_eq 0 1, hlatency⟩

end CoherentMemory.Guarded
