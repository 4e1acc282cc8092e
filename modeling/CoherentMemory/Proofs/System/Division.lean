import CoherentMemory.Proofs.System.Machine

/-!
# How a machine divides its memory

The two-state protocol gives every directory a slice of physical memory. All slices have
the same size, follow each other from the first address on, and leave over less than one
byte for each directory (`Division`). No address of a slice leaves 64 bits, up to the end
of the address space. What can be refused is the machine itself, for lack of a processor,
of a directory or of a byte for each directory, or the list of its controllers, for
lack of room (`controllers_division`).
-/

namespace CoherentMemory.TwoState

open Memory

/-- The controllers are sequencers, directories and device controllers in turn, each
role numbered from zero, and the directories own a slice of the memory each. -/
structure Division (machine : MachineSettings) (memory : Range) (devices : List Device)
    (cs : ControllerSet) : Prop where
  roles_eq : cs = cs.sequencers ++ cs.directories ++ cs.dmaControllers
  sequencers_eq : cs.sequencers = (List.range machine.cpus.toNat).map Controller.sequencer
  directories_length : cs.directories.length = machine.directories.toNat
  dmaControllers_eq : cs.dmaControllers = devices.mapIdx deviceController
  version_eq : ∀ {role i} {c : Controller},
    (cs.filter fun c => c.role = role)[i]? = some c → c.version = i
  /-- Directory `i` owns exactly slice `i`. -/
  directory : ∀ {i}, i < machine.directories.toNat →
    ∃ r, cs.directories[i]? = some (.directory i r) ∧
      r.first.toNat = memory.first.toNat + i * sliceOf machine memory ∧
      r.last.toNat = memory.first.toNat + (i + 1) * sliceOf machine memory - 1
  tiles : Tiles memory.first.toNat (directoryRanges cs)
    (memory.first.toNat + machine.directories.toNat * sliceOf machine memory)
  pairwise_apart : (directoryRanges cs).Pairwise Range.Apart
  within : ∀ r ∈ directoryRanges cs, r.Within memory
  total_eq : total cs =
    memory.size.bytes.toNat - memory.size.bytes.toNat % machine.directories.toNat

variable {machine : MachineSettings} {memory : Range} {devices : List Device}

theorem Sliceable.sliceOf_pos (h : Sliceable machine memory) : 0 < sliceOf machine memory :=
  Nat.div_pos h.2.2 h.2.1

section Controllers

variable {cs : ControllerSet} (h : controllers machine memory devices = .ok cs)
include h

/-- The controllers are those of the roles in turn. -/
theorem roles_append_of_controllers :
    cs = cs.sequencers ++ cs.directories ++ cs.dmaControllers := by
  obtain ⟨hsequencers, hdirectories, hdmas⟩ := roles_of_controllers h
  obtain ⟨-, ds, hcs, hds⟩ := controllers_eq_ok h
  cases hds.symm.trans hdirectories
  rw [hsequencers, hdmas]
  exact hcs

/-- Each role is numbered from zero. -/
theorem version_eq_of_controllers {role : Role} {i : Nat} {c : Controller}
    (hc : (cs.filter fun c => c.role = role)[i]? = some c) : c.version = i := by
  obtain ⟨hsequencers, hds, hdmas⟩ := roles_of_controllers h
  cases role with
  | sequencer =>
    replace hc : cs.sequencers[i]? = some c := hc
    rw [hsequencers, List.getElem?_map, Option.map_eq_some_iff] at hc
    obtain ⟨j, hj, rfl⟩ := hc
    obtain ⟨hlt, rfl⟩ := List.getElem?_eq_some_iff.mp hj
    exact List.getElem_range hlt
  | directory =>
    replace hc : cs.directories[i]? = some c := hc
    have hi : i < machine.directories.toNat := by
      rw [← (length_of_mapM_eq_ok hds).trans List.length_range]
      exact (List.getElem?_eq_some_iff.mp hc).1
    obtain ⟨r, hr, -⟩ := exists_directory h hi
    cases hc.symm.trans hr
    rfl
  | dma =>
    replace hc : cs.dmaControllers[i]? = some c := hc
    rw [hdmas, List.getElem?_mapIdx, Option.map_eq_some_iff] at hc
    obtain ⟨device, -, rfl⟩ := hc
    rfl

theorem division_of_controllers : Division machine memory devices cs := by
  obtain ⟨hpos, hds⟩ := directories_of_controllers h
  obtain ⟨hsequencers, -, hdmas⟩ := roles_of_controllers h
  have htiles := tiles_controllers h
  exact {
    roles_eq := roles_append_of_controllers h
    sequencers_eq := hsequencers
    directories_length := (length_of_mapM_eq_ok hds).trans List.length_range
    dmaControllers_eq := hdmas
    version_eq := version_eq_of_controllers h
    directory := by
      intro i hi
      obtain ⟨r, hr, hslice⟩ := exists_directory h hi
      obtain ⟨_, ⟨⟩, -, hfirst, hlast⟩ := hslice.memory_eq
      exact ⟨r, hr, hfirst, Nat.eq_sub_of_add_eq hlast⟩
    tiles := htiles
    pairwise_apart := htiles.pairwise_apart
    within := by
      intro r hr
      have hbounds := htiles.bounds hr
      have hend := mul_sliceOf_le machine memory (Nat.le_refl _)
      have hle := memory.first_le_last
      rw [Range.toNat_size] at hend
      rw [Range.Within, UInt64.le_iff_toNat_le, UInt64.le_iff_toNat_le]
      omega
    total_eq := by
      have hdiv := Nat.div_add_mod memory.size.bytes.toNat machine.directories.toNat
      rw [total_controllers h, sliceOf]
      omega }

end Controllers

/-- A machine with a processor, a directory and a byte for each directory has
controllers, as long as a list has room for them, and any other machine is rejected. The
controllers divide the memory. Their addresses are computed without leaving 64 bits, and
no slice is refused a range. -/
theorem controllers_division (machine : MachineSettings) (memory : Range)
    (devices : List Device) :
    (machine.cpus.toNat + machine.directories.toNat + devices.length < 2 ^ 57 →
      ((∃ cs, controllers machine memory devices = .ok cs) ↔ Sliceable machine memory)) ∧
    (¬Sliceable machine memory →
      ∃ reason, controllers machine memory devices = .error (.refusal (.rejected name reason))) ∧
    (Sliceable machine memory →
      2 ^ 57 ≤ machine.cpus.toNat + machine.directories.toNat + devices.length →
      machine.cpus.toNat + machine.directories.toNat + devices.length < 2 ^ 64 →
      controllers machine memory devices = .error (.overflow .capacity)) ∧
    (∀ cs, controllers machine memory devices = .ok cs → Division machine memory devices cs) ∧
    (Sliceable machine memory → ∀ i < machine.directories.toNat,
      i * sliceOf machine memory < 2 ^ 64 ∧
      memory.first.toNat + i * sliceOf machine memory < 2 ^ 64 ∧
      ∃ r, Range.ofSize (.ofNat (memory.first.toNat + i * sliceOf machine memory))
        ⟨.ofNat (sliceOf machine memory)⟩ = .ok r) := by
  refine ⟨fun hcount => ?_, fun hnot => ?_, controllers_of_crowded,
    fun cs h => division_of_controllers h, fun hslice i hi => ?_⟩
  · rw [exists_controllers_iff]
    exact and_iff_left hcount
  · cases hs : sliceSize machine memory with
    | ok slice => exact absurd (exists_sliceSize_iff.mp ⟨slice, hs⟩) hnot
    | error e =>
      obtain ⟨reason, rfl⟩ := exists_rejection_of_sliceSize hs
      exact ⟨reason, controllers_of_sliceSize_error hs⟩
  · have hpos := hslice.sliceOf_pos
    have hend := mul_sliceOf_le machine memory (Nat.succ_le_of_lt hi)
    obtain ⟨hoffset, hbase, -⟩ := slice_fits hpos hend
    exact ⟨hoffset, hbase, exists_ofSize hpos hend⟩

/-- The last ten bytes of the address space, in three slices of three bytes; there are
not enough of them for eleven directories. -/
theorem controllers_division_top :
    (∃ cs, controllers { directories := 3 }
        ⟨18446744073709551606, 18446744073709551615, by decide, by decide⟩ [] = .ok cs ∧
      total cs = 9 ∧ ∃ r, cs.directories[2]? = some (.directory 2 r) ∧
        r.first.toNat = 18446744073709551612 ∧ r.last.toNat = 18446744073709551614) ∧
    ∃ reason, controllers { directories := 11 }
      ⟨18446744073709551606, 18446744073709551615, by decide, by decide⟩ [] =
        .error (.refusal (.rejected name reason)) := by
  obtain ⟨hok, -, -, hdivision, -⟩ := controllers_division { directories := 3 }
    ⟨18446744073709551606, 18446744073709551615, by decide, by decide⟩ []
  obtain ⟨-, hrejected, -⟩ := controllers_division { directories := 11 }
    ⟨18446744073709551606, 18446744073709551615, by decide, by decide⟩ []
  refine ⟨?_, hrejected (by rw [Sliceable]; decide)⟩
  obtain ⟨cs, hcs⟩ := (hok (by decide)).mpr (by rw [Sliceable]; decide)
  have hdiv := hdivision cs hcs
  exact ⟨cs, hcs, hdiv.total_eq, hdiv.directory (by decide)⟩

/-- As many directories as there are bytes in the range of `crowdedMemory`. -/
def crowdedMachine : MachineSettings where
  directories := 4611686018427387904

/-- The first `2 ^ 62` bytes of the address space. -/
def crowdedMemory : Range :=
  ⟨0, 4611686018427387903, by decide, by decide⟩

/-- There is a byte for each directory, and fewer than `2 ^ 64` controllers, but no list
has room for them. -/
theorem controllers_crowded :
    crowdedMachine.cpus.toNat + crowdedMachine.directories.toNat + ([] : List Device).length <
      2 ^ 64 ∧
    Sliceable crowdedMachine crowdedMemory ∧
    controllers crowdedMachine crowdedMemory [] = .error (.overflow .capacity) := by
  have hslice : Sliceable crowdedMachine crowdedMemory := by
    rw [Sliceable]
    decide
  exact ⟨by decide, hslice, controllers_of_crowded hslice (by decide) (by decide)⟩

end CoherentMemory.TwoState
