import CoherentMemory.Proofs.Memory.Cover
import CoherentMemory.Proofs.Success
import CoherentMemory.System.Assembly

/-!
# Who owns an address

An assembled system has the controllers that it was assembled from, and its
directories together are as large as the physical memory (`of_assemble_eq_ok`). This
does not make them divide it up: directories may share addresses and leave others
out (`assemble_overlapping`). When they do is the subject of `divides_iff`.
-/

namespace CoherentMemory

open Memory

/-- Whether a controller is a directory that owns an address. -/
def Controller.owns (c : Controller) (a : UInt64) : Bool :=
  c.memory?.any (·.contains a)

namespace MemorySystem

/-- The directories that own an address. -/
def owners (s : MemorySystem) (a : UInt64) : List Controller :=
  s.controllers.directories.filter (·.owns a)

/-- Every address of the memory has exactly one owner, any other has none. -/
def Divides (s : MemorySystem) (memory : Range) : Prop :=
  ∀ a, (s.owners a).length = if memory.contains a then 1 else 0

/-- Of several owners the first is found. -/
theorem directoryFor?_eq (s : MemorySystem) (a : UInt64) : s.directoryFor? a = (s.owners a).head? :=
  List.head?_filter.symm

/-- The owners of an address are counted by the ranges that hold it. -/
theorem length_owners (s : MemorySystem) (a : UInt64) :
    (s.owners a).length = holders (directoryRanges s.controllers) a := by
  rw [owners, ControllerSet.directories, List.filter_filter, ← List.countP_eq_length_filter,
    holders, directoryRanges, List.countP_filterMap]
  refine List.countP_congr fun c _ => ?_
  obtain ⟨name, version, duty⟩ := c
  cases duty <;> simp [Controller.owns, Controller.memory?, Controller.isDirectory,
    Controller.role, Duty.role]

theorem mem_owners {s : MemorySystem} {a : UInt64} {c : Controller} :
    c ∈ s.owners a ↔ c ∈ s.controllers.directories ∧ c.owns a = true :=
  List.mem_filter

theorem divides_iff_partitions (s : MemorySystem) (memory : Range) :
    s.Divides memory ↔ Partitions (directoryRanges s.controllers) memory := by
  simp only [Divides, length_owners, Partitions]

/-- Directories of the right total divide up a memory exactly when every address of
it has an owner. -/
theorem divides_iff_covers {s : MemorySystem} {memory : Range}
    (h : total s.controllers = memory.size.bytes.toNat) :
    s.Divides memory ↔ ∀ a, memory.contains a = true → s.owners a ≠ [] := by
  rw [s.divides_iff_partitions, partitions_iff_covers h]
  refine forall_congr' fun a => imp_congr_right fun _ => ?_
  rw [← List.length_pos_iff, s.length_owners, holders_pos]

end MemorySystem

variable {b : Blueprint} {cs : ControllerSet} {s : MemorySystem}

/-- What an assembly establishes about the controllers. -/
theorem of_assemble_eq_ok (h : assemble b cs = .ok s) :
    s.controllers = cs ∧ total cs = b.memory.size.bytes.toNat := by
  rw [assemble_eq] at h
  obtain ⟨t, -, h⟩ := bind_eq_ok.mp h
  obtain ⟨n, -, h⟩ := bind_eq_ok.mp h
  obtain ⟨size, hsize, h⟩ := bind_eq_ok.mp h
  obtain ⟨verbosity, -, h⟩ := bind_eq_ok.mp h
  cases h
  refine ⟨rfl, ?_⟩
  have hv := mapError_eq_ok.mp hsize
  unfold validate at hv
  split at hv
  · assumption
  · cases hv

/-- An assembled system divides up its physical memory exactly when its directories
lie in it and apart from each other; for this it is enough that every address of the
memory has an owner. -/
theorem divides_iff (h : assemble b cs = .ok s) :
    (s.Divides b.memory ↔ (directoryRanges cs).Pairwise Range.Apart ∧
      ∀ r ∈ directoryRanges cs, r.Within b.memory) ∧
    (s.Divides b.memory ↔
      ∀ a, b.memory.contains a = true → (s.directoryFor? a).isSome = true) := by
  obtain ⟨rfl, hsum⟩ := of_assemble_eq_ok h
  constructor
  · rw [s.divides_iff_partitions, partitions_iff_pairwise_apart hsum]
  · simp only [MemorySystem.divides_iff_covers hsum, s.directoryFor?_eq, List.isSome_head?]

/-- Two directories with one half of the memory each. -/
theorem divides_halves : ∃ s,
    assemble {
      topology := .crossbar
      network := .simple
      memory := ⟨0, 255, by decide, by decide⟩ }
      [.sequencer 0, .directory 0 ⟨0, 127, by decide, by decide⟩,
        .directory 1 ⟨128, 255, by decide, by decide⟩] = .ok s ∧
      s.Divides ⟨0, 255, by decide, by decide⟩ := by
  have h : assemble {
      topology := .crossbar
      network := .simple
      memory := ⟨0, 255, by decide, by decide⟩ }
      [.sequencer 0, .directory 0 ⟨0, 127, by decide, by decide⟩,
        .directory 1 ⟨128, 255, by decide, by decide⟩] = .ok _ := rfl
  exact ⟨_, h, (divides_iff h).1.mpr ⟨by decide, by decide⟩⟩

/-- Two directories with the same half of the memory: as large as all of it, but the
other half has no owner. -/
theorem assemble_overlapping : ∃ s,
    assemble {
      topology := .crossbar
      network := .simple
      memory := ⟨0, 255, by decide, by decide⟩ }
      [.sequencer 0, .directory 0 ⟨0, 127, by decide, by decide⟩,
        .directory 1 ⟨0, 127, by decide, by decide⟩] = .ok s ∧
      (s.owners 100).length = 2 ∧ s.directoryFor? 200 = none ∧
      ¬s.Divides ⟨0, 255, by decide, by decide⟩ := by
  refine ⟨_, rfl, by decide, by decide, fun h => ?_⟩
  have h200 := h 200
  exact absurd h200 (by decide)

end CoherentMemory
