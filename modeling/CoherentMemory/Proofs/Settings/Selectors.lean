import CoherentMemory.Proofs.Success
import CoherentMemory.Settings.Basic

/-!
# What settings accept

The texts that select something are a few names, with or without blanks at their ends, and
each selects one thing (`topologyKind_eq_ok_iff`, `networkKind_eq_ok_iff`,
`verbosity?_eq_ok_iff`). Which texts are accepted follows (`exists_topologyKind_iff` and its
like). A physical memory is accepted exactly if its base address can be read and its bytes
end within the address space (`exists_range_iff`).
-/

namespace CoherentMemory

/-! ## Selectors -/

/-- The texts that select a topology. -/
def topologyTexts : List (String × Interconnect.Kind) :=
  [("crossbar", .crossbar), ("mesh", .mesh), ("mesh_dir_corner", .meshDirCorner)]

/-- The texts that select a network. -/
def networkTexts : List (String × Network.Kind) :=
  [("", .simple), ("none", .simple), ("simple", .simple), ("fixed", .fixedGarnet),
    ("fixed-garnet", .fixedGarnet), ("flexible", .flexibleGarnet),
    ("flexible-garnet", .flexibleGarnet)]

/-- The texts that select a verbosity, in lower case. -/
def verbosityTexts : List (String × Verbosity) :=
  [("none", .none), ("low", .low), ("med", .med), ("medium", .med), ("high", .high)]

theorem topologyKind_eq_ok_iff (m : MachineSettings) {k : Interconnect.Kind} :
    m.topologyKind = .ok k ↔ (Text.trimmed m.topology, k) ∈ topologyTexts := by
  simp only [MachineSettings.topologyKind, Interconnect.Kind.parse, topologyTexts]
  split <;> cases k <;> simp_all

theorem exists_topologyKind_iff (m : MachineSettings) : (∃ k, m.topologyKind = .ok k) ↔
    Text.trimmed m.topology ∈ ["crossbar", "mesh", "mesh_dir_corner"] := by
  simp [topologyKind_eq_ok_iff, topologyTexts, exists_or]

theorem topologyKind_eq_crossbar_iff (m : MachineSettings) :
    m.topologyKind = .ok .crossbar ↔ Text.trimmed m.topology = "crossbar" := by
  simp [topologyKind_eq_ok_iff, topologyTexts]

/-- A machine that names no network has the simple one. -/
theorem networkKind_eq_ok_iff (m : MachineSettings) {k : Network.Kind} :
    m.networkKind = .ok k ↔ (Text.trimmed (m.garnetNetwork.getD ""), k) ∈ networkTexts := by
  simp only [MachineSettings.networkKind, Network.Kind.ofOption, networkTexts]
  cases m.garnetNetwork with
  | none =>
    have hblank : Text.trimmed "" = "" := rfl
    cases k <;> simp [hblank]
  | some s =>
    simp only [Network.Kind.parse, Option.getD_some]
    split <;> cases k <;> simp_all

theorem exists_networkKind_iff (m : MachineSettings) : (∃ k, m.networkKind = .ok k) ↔
    ∀ s ∈ m.garnetNetwork, Text.trimmed s ∈
      ["", "none", "simple", "fixed", "fixed-garnet", "flexible", "flexible-garnet"] := by
  have hblank : Text.trimmed "" = "" := rfl
  cases h : m.garnetNetwork <;>
    simp [networkKind_eq_ok_iff, networkTexts, h, hblank, exists_or]

theorem networkKind_eq_simple_iff (m : MachineSettings) : m.networkKind = .ok .simple ↔
    ∀ s ∈ m.garnetNetwork, Text.trimmed s ∈ ["", "none", "simple"] := by
  have hblank : Text.trimmed "" = "" := rfl
  cases h : m.garnetNetwork <;> simp [networkKind_eq_ok_iff, networkTexts, h, hblank]

theorem verbosity?_eq_ok_iff (d : DebugSettings) {v : Verbosity} : d.verbosity? = .ok v ↔
    (String.ofList ((Text.trim d.verbosity.toList).map Char.toLower), v) ∈ verbosityTexts := by
  simp only [DebugSettings.verbosity?, Verbosity.parse, verbosityTexts]
  split <;> cases v <;> simp_all

theorem exists_verbosity_iff (d : DebugSettings) : (∃ v, d.verbosity? = .ok v) ↔
    String.ofList ((Text.trim d.verbosity.toList).map Char.toLower) ∈
      ["none", "low", "med", "medium", "high"] := by
  simp [verbosity?_eq_ok_iff, verbosityTexts, exists_or]

/-! ## Physical memory -/

namespace Memory.Range

/-- A range of some size ends within the address space. -/
theorem exists_ofSize_iff {base : UInt64} {size : Size} : (∃ r, ofSize base size = .ok r) ↔
    1 ≤ size.bytes.toNat ∧ base.toNat + size.bytes.toNat ≤ 2 ^ 64 := by
  have hlt := size.bytes.toNat_lt
  simp only [ofSize]
  by_cases h : 1 ≤ size.bytes.toNat ∧
      base.toNat + (size.bytes.toNat - 1) < 0x10000000000000000
  · have hlast : (base + size.bytes - 1).toNat = base.toNat + (size.bytes.toNat - 1) := by
      rw [UInt64.toNat_sub, UInt64.toNat_add, UInt64.toNat_one]
      omega
    have hbounds : base.toNat ≤ (base + size.bytes - 1).toNat ∧
        (base + size.bytes - 1).toNat - base.toNat + 1 < 0x10000000000000000 := by
      omega
    rw [if_pos h, ofBounds, dif_pos hbounds]
    exact ⟨fun _ => by omega, fun _ => ⟨_, rfl⟩⟩
  · rw [if_neg h]
    exact ⟨nofun, fun _ => by omega⟩

end Memory.Range

theorem exists_range_iff (m : PhysicalMemory) : (∃ r, m.range = .ok r) ↔
    ∃ base, m.baseAddress = .ok base ∧ 1 ≤ m.size.bytes.toNat ∧
      base.toNat + m.size.bytes.toNat ≤ 2 ^ 64 := by
  simp only [PhysicalMemory.range, bind_eq_ok, ← Memory.Range.exists_ofSize_iff]
  constructor
  · rintro ⟨r, base, hb, hr⟩
    exact ⟨base, hb, r, hr⟩
  · rintro ⟨base, hb, r, hr⟩
    exact ⟨r, base, hb, hr⟩

end CoherentMemory
