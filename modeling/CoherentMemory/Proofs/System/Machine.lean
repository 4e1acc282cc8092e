import CoherentMemory.Proofs.Settings.Selectors
import CoherentMemory.Proofs.System.Slices

/-!
# The controllers of a machine

When the two-state protocol has controllers for a machine (`exists_controllers_iff`),
and what they are (`Populates`): sequencers, directories, device controllers, as many of
each as there are processors, directories and devices. A slice can be cut off physical
memory as long as it ends within it, so that no directory is refused once there is
a byte for each of them (`Sliceable`). Other machines are rejected
(`exists_rejection_of_sliceSize`), and more controllers than a list has room for are
a failure of their own (`controllers_of_crowded`).
-/

namespace CoherentMemory.TwoState

open Memory

variable {machine : MachineSettings} {memory : Range} {devices : List Device}

/-! ## Slices -/

/-- What is computed of a slice that ends within the memory is a number of 64 bits. -/
theorem slice_fits {slice i : Nat} (hpos : 0 < slice)
    (hend : (i + 1) * slice ≤ memory.size.bytes.toNat) :
    i * slice < 2 ^ 64 ∧ memory.first.toNat + i * slice < 2 ^ 64 ∧
      memory.first.toNat + i * slice + slice ≤ 2 ^ 64 := by
  have hsize := memory.toNat_size
  have hle := memory.first_le_last
  have hlast := memory.last.toNat_lt
  rw [Nat.succ_mul] at hend
  omega

/-- A slice that ends within the memory has a range. -/
theorem sliceRange_eq {slice i : Nat} (hpos : 0 < slice)
    (hend : (i + 1) * slice ≤ memory.size.bytes.toNat) :
    sliceRange memory slice i =
      (Range.ofSize (.ofNat (memory.first.toNat + i * slice)) ⟨.ofNat slice⟩).mapError fun e =>
        .refusal (rejection e.message) := by
  obtain ⟨hi, hfirst, -⟩ := slice_fits hpos hend
  have hoffset : checkedMul i slice = .ok (i * slice) := checkedMul_eq_ok.mpr ⟨rfl, hi⟩
  have hbase : checkedAdd memory.first.toNat (i * slice) = .ok (memory.first.toNat + i * slice) :=
    checkedAdd_eq_ok.mpr ⟨rfl, hfirst⟩
  have e : sliceRange memory slice i =
      ((checkedMul i slice).mapError .overflow).bind fun offset =>
      ((checkedAdd memory.first.toNat offset).mapError .overflow).bind fun base =>
        (Range.ofSize (.ofNat base) ⟨.ofNat slice⟩).mapError fun e =>
          .refusal (rejection e.message) := rfl
  rw [e, hoffset]
  simp only [Except.mapError, Except.bind, hbase]

/-- A slice that ends within the memory is not refused a range. -/
theorem exists_ofSize {slice i : Nat} (hpos : 0 < slice)
    (hend : (i + 1) * slice ≤ memory.size.bytes.toNat) :
    ∃ r, Range.ofSize (.ofNat (memory.first.toNat + i * slice)) ⟨.ofNat slice⟩ = .ok r := by
  obtain ⟨-, hbase, hlast⟩ := slice_fits hpos hend
  have hslice : slice < 2 ^ 64 := by
    have := memory.size.bytes.toNat_lt
    rw [Nat.succ_mul] at hend
    omega
  have hfirst : (UInt64.ofNat (memory.first.toNat + i * slice)).toNat =
      memory.first.toNat + i * slice := UInt64.toNat_ofNat_of_lt' hbase
  have hbytes : (UInt64.ofNat slice).toNat = slice := UInt64.toNat_ofNat_of_lt' hslice
  refine Range.exists_ofSize_iff.mpr ?_
  show 1 ≤ (UInt64.ofNat slice).toNat ∧
    (UInt64.ofNat (memory.first.toNat + i * slice)).toNat + (UInt64.ofNat slice).toNat ≤ 2 ^ 64
  rw [hfirst, hbytes]
  omega

/-- A slice that ends within the memory has a directory. -/
theorem exists_directoryOf {slice i : Nat} (hpos : 0 < slice)
    (hend : (i + 1) * slice ≤ memory.size.bytes.toNat) :
    ∃ c, directoryOf memory slice i = .ok c := by
  obtain ⟨r, hr⟩ := exists_ofSize hpos hend
  refine ⟨.directory i r, map_eq_ok.mpr ⟨r, ?_, rfl⟩⟩
  rw [sliceRange_eq hpos hend, mapError_eq_ok]
  exact hr

theorem exists_directories {slice n : Nat} (hpos : 0 < slice)
    (hend : n * slice ≤ memory.size.bytes.toNat) :
    ∃ ds, (List.range n).mapM (directoryOf memory slice) = .ok ds := by
  refine exists_mapM_iff.mpr fun i hi => exists_directoryOf hpos (Nat.le_trans ?_ hend)
  exact Nat.mul_le_mul_right slice (List.mem_range.mp hi)

/-! ## Controllers -/

/-- Fewer than `2 ^ 64` controllers are counted, and then have to fit in a list. -/
theorem controllerCount_eq
    (hcount : machine.cpus.toNat + machine.directories.toNat + devices.length < 2 ^ 64) :
    controllerCount machine devices =
      checkedCapacity (machine.cpus.toNat + machine.directories.toNat + devices.length)
        controllerWidth := by
  have hplaced : checkedAdd machine.cpus.toNat machine.directories.toNat =
      .ok (machine.cpus.toNat + machine.directories.toNat) :=
    checkedAdd_eq_ok.mpr ⟨rfl, by omega⟩
  have hn : checkedAdd (machine.cpus.toNat + machine.directories.toNat) devices.length =
      .ok (machine.cpus.toNat + machine.directories.toNat + devices.length) :=
    checkedAdd_eq_ok.mpr ⟨rfl, hcount⟩
  rw [controllerCount, hplaced]
  show (checkedAdd _ _).bind _ = _
  rw [hn]
  rfl

/-- Controllers are counted as long as a list has room for them. -/
theorem controllerCount_eq_ok {n : Nat} : controllerCount machine devices = .ok n ↔
    machine.cpus.toNat + machine.directories.toNat + devices.length = n ∧ n < 2 ^ 57 := by
  have e : controllerCount machine devices =
      (checkedAdd machine.cpus.toNat machine.directories.toNat).bind fun placed =>
        (checkedAdd placed devices.length).bind fun n => checkedCapacity n controllerWidth := rfl
  simp only [e, bind_eq_ok, checkedAdd_eq_ok, checkedCapacity_eq_ok, controllerWidth]
  constructor
  · rintro ⟨_, ⟨rfl, -⟩, _, ⟨rfl, -⟩, rfl, h⟩
    exact ⟨rfl, by omega⟩
  · rintro ⟨rfl, h⟩
    exact ⟨_, ⟨rfl, by omega⟩, _, ⟨rfl, by omega⟩, rfl, by omega⟩

theorem toNat_eq_zero_iff {w : UInt64} : w.toNat = 0 ↔ w = 0 := by
  rw [← UInt64.toNat_inj]
  rfl

/-- There are a processor and a directory, and a byte for each directory. -/
def Sliceable (machine : MachineSettings) (memory : Range) : Prop :=
  1 ≤ machine.cpus.toNat ∧ 1 ≤ machine.directories.toNat ∧
    machine.directories.toNat ≤ memory.size.bytes.toNat

theorem exists_sliceSize_iff :
    (∃ slice, sliceSize machine memory = .ok slice) ↔ Sliceable machine memory := by
  simp only [Sliceable, sliceSize, ← toNat_eq_zero_iff]
  split
  · exact iff_of_false (by rintro ⟨_, ⟨⟩⟩) (by omega)
  split
  · exact iff_of_false (by rintro ⟨_, ⟨⟩⟩) (by omega)
  split
  · rename_i hd hs
    rw [Nat.div_eq_zero_iff] at hs
    exact iff_of_false (by rintro ⟨_, ⟨⟩⟩) (by omega)
  · rename_i hc hd hs
    refine ⟨fun _ => ⟨Nat.pos_of_ne_zero hc, Nat.pos_of_ne_zero hd, ?_⟩, fun _ => ⟨_, rfl⟩⟩
    exact Nat.le_of_not_lt fun hlt => hs (Nat.div_eq_of_lt hlt)

/-- The two-state protocol has controllers for a machine with a processor and a
directory, if there is a byte for each directory, and a list has room for all of them. -/
theorem exists_controllers_iff : (∃ cs, controllers machine memory devices = .ok cs) ↔
    Sliceable machine memory ∧
      machine.cpus.toNat + machine.directories.toNat + devices.length < 2 ^ 57 := by
  rw [← exists_sliceSize_iff]
  constructor
  · rintro ⟨cs, h⟩
    obtain ⟨slice, hslice, h⟩ := bind_eq_ok.mp h
    obtain ⟨n, hn, -⟩ := bind_eq_ok.mp h
    obtain ⟨rfl, hlt⟩ := controllerCount_eq_ok.mp (mapError_eq_ok.mp hn)
    exact ⟨⟨slice, mapError_eq_ok.mp hslice⟩, hlt⟩
  · rintro ⟨⟨slice, hslice⟩, hlt⟩
    obtain ⟨rfl, hpos⟩ := sliceSize_eq_ok hslice
    obtain ⟨ds, hds⟩ := exists_directories hpos
      (mul_sliceOf_le machine memory (Nat.le_refl machine.directories.toNat))
    have hcount := controllerCount_eq_ok.mpr ⟨rfl, hlt⟩
    exact ⟨_, bind_eq_ok.mpr ⟨_, mapError_eq_ok.mpr hslice, bind_eq_ok.mpr
      ⟨_, mapError_eq_ok.mpr hcount, bind_eq_ok.mpr ⟨ds, hds, rfl⟩⟩⟩⟩

/-- A machine that gets no slices is rejected. -/
theorem exists_rejection_of_sliceSize {e : ProtocolError}
    (h : sliceSize machine memory = .error e) : ∃ reason, e = rejection reason := by
  simp only [sliceSize] at h
  split at h
  · cases h
    exact ⟨_, rfl⟩
  split at h
  · cases h
    exact ⟨_, rfl⟩
  split at h
  · cases h
    exact ⟨_, rfl⟩
  · cases h

/-- Without slices there are no controllers, for the same reason. -/
theorem controllers_of_sliceSize_error {e : ProtocolError}
    (h : sliceSize machine memory = .error e) :
    controllers machine memory devices = .error (.refusal e) := by
  rw [controllers, h]
  rfl

/-- Where a list has no room for the controllers, there are none, although there are
slices. -/
theorem controllers_of_crowded (hslice : Sliceable machine memory)
    (hcrowded : 2 ^ 57 ≤ machine.cpus.toNat + machine.directories.toNat + devices.length)
    (hcount : machine.cpus.toNat + machine.directories.toNat + devices.length < 2 ^ 64) :
    controllers machine memory devices = .error (.overflow .capacity) := by
  obtain ⟨slice, hs⟩ := exists_sliceSize_iff.mpr hslice
  have hcapacity : controllerCount machine devices = .error .capacity := by
    rw [controllerCount_eq hcount, checkedCapacity, if_neg (by rw [controllerWidth]; omega)]
  rw [controllers, hs]
  show ((controllerCount machine devices).mapError Failure.overflow).bind _ = _
  rw [hcapacity]
  rfl

/-- As many sequencers, directories and device controllers as there are processors,
directories and devices. -/
structure Populates (machine : MachineSettings) (devices : List Device) (cs : ControllerSet) :
    Prop where
  length_eq : cs.length =
    machine.cpus.toNat + machine.directories.toNat + devices.length
  sequencers_length : cs.sequencers.length = machine.cpus.toNat
  placed_length : cs.placed.length = machine.cpus.toNat + machine.directories.toNat

theorem populates_of_controllers {cs : ControllerSet}
    (h : controllers machine memory devices = .ok cs) : Populates machine devices cs := by
  obtain ⟨-, ds, rfl, hds⟩ := controllers_eq_ok h
  have hlength := (length_of_mapM_eq_ok hds).trans List.length_range
  have count (q : Role → Bool) := congrArg List.length
    (filter_roles q (n := machine.cpus.toNat) devices (role_of_directories hds))
  refine ⟨?_, ?_, ?_⟩
  · rw [List.length_append, List.length_append, List.length_map, List.length_range, hlength,
      List.length_mapIdx]
  · exact (count fun r => r = .sequencer).trans (by simp)
  · rw [ControllerSet.length_placed, List.countP_eq_length_filter]
    exact (count fun r => !r = .dma).trans (by simp [hlength])

end CoherentMemory.TwoState
