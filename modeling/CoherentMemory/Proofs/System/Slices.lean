import CoherentMemory.Proofs.System.Ownership

/-!
# The slices of directories

In the two-state protocol directory `i` owns the `i`-th of as many equal slices as
there are directories. An address lies in one slice at most, that of the quotient of
its offset by the size of the slices (`Slice.version_eq`), and in one of them if it
lies below their total (`exists_owner`). The slices follow each other without a gap
(`tiles_controllers`), so that what the directories own in total is the number of slices
times their size (`total_controllers`).
-/

namespace CoherentMemory

open Memory

/-! ## Ranges by their size -/

/-- Only the directories own ranges. -/
theorem Memory.directoryRanges_directories (cs : ControllerSet) :
    directoryRanges cs.directories = directoryRanges cs := by
  rw [directoryRanges, ControllerSet.directories, List.filterMap_filter]
  refine List.filterMap_congr fun c _ => ?_
  split
  · rfl
  · rename_i hc
    rw [c.isDirectory_iff, Option.not_isSome_iff_eq_none] at hc
    exact hc.symm

theorem Memory.total_directories (cs : ControllerSet) : total cs.directories = total cs :=
  congrArg bytesIn (directoryRanges_directories cs)

theorem Memory.Range.ofSize_eq_ok {base : UInt64} {size : Size} {r : Range}
    (h : Range.ofSize base size = .ok r) :
    r.first = base ∧ r.last.toNat + 1 = base.toNat + size.bytes.toNat ∧ r.size = size := by
  simp only [Range.ofSize] at h
  split at h
  · rename_i hs
    simp only [Range.ofBounds] at h
    split at h
    · cases h
      have hlast : (base + size.bytes - 1).toNat + 1 = base.toNat + size.bytes.toNat := by
        rw [UInt64.toNat_sub, UInt64.toNat_add, UInt64.toNat_one]
        omega
      refine ⟨rfl, hlast, Size.ext ?_⟩
      rw [Range.toNat_size]
      show (base + size.bytes - 1).toNat - base.toNat + 1 = _
      omega
    · cases h
  · cases h

namespace TwoState

variable {machine : MachineSettings} {memory : Range} {slice : Nat}

/-- The size of slices; memory left over belongs to none. -/
def sliceOf (machine : MachineSettings) (memory : Range) : Nat :=
  memory.size.bytes.toNat / machine.directories.toNat

theorem sliceOf_lt (machine : MachineSettings) (memory : Range) :
    sliceOf machine memory < 2 ^ 64 :=
  Nat.lt_of_le_of_lt (Nat.div_le_self _ _) memory.size.bytes.toNat_lt

/-- As many slices as there are directories end within the memory. -/
theorem mul_sliceOf_le (machine : MachineSettings) (memory : Range) {n : Nat}
    (hn : n ≤ machine.directories.toNat) :
    n * sliceOf machine memory ≤ memory.size.bytes.toNat :=
  calc n * sliceOf machine memory
    _ ≤ machine.directories.toNat * sliceOf machine memory := Nat.mul_le_mul_right _ hn
    _ ≤ memory.size.bytes.toNat := Nat.mul_div_le ..

/-- `c` is directory `i`, and owns slice `i` of the memory above `first`. -/
structure Slice (first slice i : Nat) (c : Controller) : Prop where
  isDirectory_eq : c.isDirectory = true
  version_eq : c.version = i
  memory_eq : ∃ r, c.memory? = some r ∧ r.size.bytes.toNat = slice ∧
    r.first.toNat = first + i * slice ∧ r.last.toNat + 1 = first + (i + 1) * slice

namespace Slice

variable {first i : Nat} {c : Controller}

theorem first_le_of_owns (h : Slice first slice i c) {a : UInt64} (ha : c.owns a = true) :
    first ≤ a.toNat := by
  obtain ⟨r, hr, -, hfirst, -⟩ := h.memory_eq
  rw [Controller.owns, hr, Option.any_some, Range.contains_iff, hfirst] at ha
  exact Nat.le_trans (Nat.le_add_right ..) ha.1

/-- The quotient of its offset tells the slice of an address. -/
theorem owns_iff (h : Slice first slice i c) (hpos : 0 < slice) {a : UInt64}
    (ha : first ≤ a.toNat) : c.owns a = true ↔ (a.toNat - first) / slice = i := by
  obtain ⟨r, hr, -, hfirst, hlast⟩ := h.memory_eq
  rw [Controller.owns, hr, Option.any_some, Range.contains_iff, Nat.div_eq_iff hpos]
  rw [Nat.succ_mul] at hlast
  omega

end Slice

theorem directoryOf_eq_ok {i : Nat} {c : Controller} (h : directoryOf memory slice i = .ok c)
    (hslice : slice < 2 ^ 64) : Slice memory.first.toNat slice i c := by
  obtain ⟨r, hr, rfl⟩ := map_eq_ok.mp h
  obtain ⟨offset, ho, hr⟩ := bind_eq_ok.mp hr
  obtain ⟨base, hb, hr⟩ := bind_eq_ok.mp hr
  obtain ⟨rfl, -⟩ := checkedMul_eq_ok.mp (mapError_eq_ok.mp ho)
  obtain ⟨rfl, hlt⟩ := checkedAdd_eq_ok.mp (mapError_eq_ok.mp hb)
  obtain ⟨hfirst, hlast, hsize⟩ := Range.ofSize_eq_ok (mapError_eq_ok.mp hr)
  have hbase := UInt64.toNat_ofNat_of_lt' hlt
  have hbytes := UInt64.toNat_ofNat_of_lt' hslice
  refine ⟨rfl, rfl, r, rfl, ?_, ?_, ?_⟩
  · rw [hsize]
    exact hbytes
  · rw [hfirst]
    exact hbase
  · rw [hlast, hbase, Nat.succ_mul, ← Nat.add_assoc]
    exact congrArg _ hbytes

/-- What is asked of a machine before it gets slices. -/
theorem sliceSize_eq_ok (h : sliceSize machine memory = .ok slice) :
    slice = sliceOf machine memory ∧ 0 < slice := by
  simp only [sliceSize] at h
  split at h
  · cases h
  split at h
  · cases h
  split at h
  · cases h
  · rename_i hne
    cases h
    exact ⟨rfl, Nat.pos_of_ne_zero hne⟩

/-- The controllers are those of the three roles in turn. -/
theorem controllers_eq_ok {devices : List Device} {cs : ControllerSet}
    (h : controllers machine memory devices = .ok cs) : 0 < sliceOf machine memory ∧
      ∃ directories, cs = (List.range machine.cpus.toNat).map Controller.sequencer ++ directories ++
          devices.mapIdx deviceController ∧
        (List.range machine.directories.toNat).mapM (directoryOf memory (sliceOf machine memory)) =
          .ok directories := by
  obtain ⟨slice, hslice, h⟩ := bind_eq_ok.mp h
  obtain ⟨rfl, hpos⟩ := sliceSize_eq_ok (mapError_eq_ok.mp hslice)
  obtain ⟨-, -, h⟩ := bind_eq_ok.mp h
  obtain ⟨ds, hds, h⟩ := bind_eq_ok.mp h
  cases h
  exact ⟨hpos, ds, rfl, hds⟩

/-! ## Roles -/

theorem role_of_sequencers {n : Nat} :
    ∀ c ∈ (List.range n).map Controller.sequencer, c.role = .sequencer := by
  intro c hc
  obtain ⟨i, -, rfl⟩ := List.mem_map.mp hc
  rfl

theorem role_of_directories {ds : List Controller} {n : Nat}
    (hds : (List.range n).mapM (directoryOf memory slice) = .ok ds) :
    ∀ c ∈ ds, c.role = .directory := by
  intro c hc
  obtain ⟨i, -, hi⟩ := (mem_of_mapM_eq_ok hds).mp hc
  obtain ⟨r, -, rfl⟩ := map_eq_ok.mp hi
  rfl

theorem role_of_deviceControllers {devices : List Device} :
    ∀ c ∈ devices.mapIdx deviceController, c.role = .dma := by
  intro c hc
  obtain ⟨i, hi, rfl⟩ := List.mem_mapIdx.mp hc
  rfl

/-- Of controllers of one role a predicate on roles keeps all or none. -/
theorem filter_of_role (q : Role → Bool) {r : Role} {cs : List Controller}
    (h : ∀ c ∈ cs, c.role = r) : cs.filter (fun c => q c.role) = if q r then cs else [] := by
  split
  · rename_i hq
    exact List.filter_eq_self.mpr fun c hc => (h c hc).symm ▸ hq
  · rename_i hq
    exact List.filter_eq_nil_iff.mpr fun c hc => (h c hc).symm ▸ hq

/-- The controllers of each role, of those of the three roles in turn. -/
theorem filter_roles (q : Role → Bool) {n : Nat} {ds : List Controller} (devices : List Device)
    (hds : ∀ c ∈ ds, c.role = .directory) :
    ((List.range n).map Controller.sequencer ++ ds ++ devices.mapIdx deviceController).filter
        (fun c => q c.role) =
      (if q .sequencer then (List.range n).map Controller.sequencer else []) ++
        (if q .directory then ds else []) ++
          if q .dma then devices.mapIdx deviceController else [] := by
  rw [List.filter_append, List.filter_append, filter_of_role q role_of_sequencers,
    filter_of_role q hds, filter_of_role q role_of_deviceControllers]

/-- Of each role there are the controllers that were made for it, the directories for
the slices. -/
theorem roles_of_controllers {devices : List Device} {cs : ControllerSet}
    (h : controllers machine memory devices = .ok cs) :
    cs.sequencers = (List.range machine.cpus.toNat).map Controller.sequencer ∧
      (List.range machine.directories.toNat).mapM (directoryOf memory (sliceOf machine memory)) =
        .ok cs.directories ∧
      cs.dmaControllers = devices.mapIdx deviceController := by
  obtain ⟨-, ds, rfl, hds⟩ := controllers_eq_ok h
  have hroles := role_of_directories hds
  refine ⟨?_, hds.trans (congrArg _ (Eq.symm ?_)), ?_⟩
  · exact (filter_roles (fun r => r = .sequencer) devices hroles).trans (by simp)
  · exact (filter_roles (fun r => r = .directory) devices hroles).trans (by simp)
  · exact (filter_roles (fun r => r = .dma) devices hroles).trans (by simp)

/-- The directories of a machine are those of its slices. -/
theorem directories_of_controllers {devices : List Device} {cs : ControllerSet}
    (h : controllers machine memory devices = .ok cs) : 0 < sliceOf machine memory ∧
      (List.range machine.directories.toNat).mapM (directoryOf memory (sliceOf machine memory)) =
        .ok cs.directories :=
  ⟨(controllers_eq_ok h).1, (roles_of_controllers h).2.1⟩

/-- Slices that follow each other are owned by ranges that do. -/
theorem tiles_directories (hslice : slice < 2 ^ 64) {s n : Nat} {ds : List Controller}
    (h : (List.range' s n).mapM (directoryOf memory slice) = .ok ds) :
    Tiles (memory.first.toNat + s * slice) (directoryRanges ds)
      (memory.first.toNat + (s + n) * slice) := by
  induction n generalizing s ds with
  | zero =>
    cases h
    exact .nil _
  | succ n ih =>
    rw [List.range'_succ, List.mapM_cons] at h
    obtain ⟨c, hc, h⟩ := bind_eq_ok.mp h
    obtain ⟨ds, hds, h⟩ := bind_eq_ok.mp h
    cases h
    obtain ⟨r, hr, -, hfirst, hlast⟩ := (directoryOf_eq_ok hc hslice).memory_eq
    rw [directoryRanges, List.filterMap_cons_some hr, Nat.add_comm n 1, ← Nat.add_assoc s 1 n]
    exact .cons hfirst (hlast ▸ ih hds)

section Machine

variable {devices : List Device} {cs : ControllerSet}
variable (h : controllers machine memory devices = .ok cs)
include h

/-- Every directory owns a slice. -/
theorem exists_slice {c : Controller} (hc : c ∈ cs.directories) :
    ∃ i, Slice memory.first.toNat (sliceOf machine memory) i c := by
  obtain ⟨-, hds⟩ := directories_of_controllers h
  obtain ⟨i, -, hi⟩ := (mem_of_mapM_eq_ok hds).mp hc
  exact ⟨i, directoryOf_eq_ok hi (sliceOf_lt machine memory)⟩

/-- Directory `i` has the range of slice `i`. -/
theorem exists_directory {i : Nat} (hi : i < machine.directories.toNat) :
    ∃ r, cs.directories[i]? = some (.directory i r) ∧
      Slice memory.first.toNat (sliceOf machine memory) i (.directory i r) := by
  obtain ⟨-, hds⟩ := directories_of_controllers h
  obtain ⟨c, hc, hof⟩ := exists_of_mapM_eq_ok hds (List.getElem?_range hi)
  obtain ⟨r, -, rfl⟩ := map_eq_ok.mp hof
  exact ⟨r, hc, directoryOf_eq_ok hof (sliceOf_lt machine memory)⟩

/-- The ranges of the directories follow each other from the first address on. -/
theorem tiles_controllers : Tiles memory.first.toNat (directoryRanges cs)
    (memory.first.toNat + machine.directories.toNat * sliceOf machine memory) := by
  obtain ⟨-, hds⟩ := directories_of_controllers h
  rw [List.range_eq_range'] at hds
  have htiles := tiles_directories (sliceOf_lt machine memory) hds
  rwa [directoryRanges_directories, Nat.zero_mul, Nat.add_zero, Nat.zero_add] at htiles

/-- Together the directories own as much as the slices hold. -/
theorem total_controllers : total cs = machine.directories.toNat * sliceOf machine memory :=
  Nat.add_left_cancel (tiles_controllers h).add_bytesIn

/-- An address below the end of the slices is in one of them. -/
theorem exists_owner {a : UInt64} (hfirst : memory.first.toNat ≤ a.toNat)
    (hlast : a.toNat < memory.first.toNat + machine.directories.toNat * sliceOf machine memory) :
    ∃ c ∈ cs.directories, c.owns a = true := by
  obtain ⟨hpos, -⟩ := directories_of_controllers h
  have hlt : (a.toNat - memory.first.toNat) / sliceOf machine memory < machine.directories.toNat :=
    Nat.div_lt_of_lt_mul (by rw [Nat.mul_comm]; omega)
  obtain ⟨r, hr, hs⟩ := exists_directory h hlt
  exact ⟨_, List.mem_of_getElem? hr, (hs.owns_iff hpos hfirst).mpr rfl⟩

end Machine

end TwoState

/-! ## Created systems -/

/-- A system is created by the assembly of the controllers that its protocol makes. -/
theorem of_createSystem_eq_ok {s : Settings} {registry : Registry} {devices : List Device}
    {sys : MemorySystem} (h : createSystem s registry devices = .ok sys) :
    ∃ b cs, s.memory.range = .ok b.memory ∧
      (registry.create s.machine.protocol s.machine b.memory devices).result = .ok cs ∧
      assemble b cs = .ok sys := by
  simp only [createSystem, createSystemLogged, Logged.result_bind, Logged.result_ofExcept,
    Logged.result_mapError] at h
  obtain ⟨b, hb, h⟩ := bind_eq_ok.mp h
  obtain ⟨cs, hcs, h⟩ := bind_eq_ok.mp h
  obtain ⟨topology, -, hb⟩ := bind_eq_ok.mp (mapError_eq_ok.mp hb)
  obtain ⟨network, -, hb⟩ := bind_eq_ok.mp hb
  obtain ⟨memory, hmemory, hb⟩ := bind_eq_ok.mp hb
  cases hb
  exact ⟨_, cs, mapError_eq_ok.mp hmemory, mapError_eq_ok.mp hcs, h⟩

/-- The two-state protocol is one of those that come with the library. -/
theorem result_create_builtin (machine : MachineSettings) (memory : Range)
    (devices : List Device) :
    (Registry.builtin.create "MI_example" machine memory devices).result =
      TwoState.controllers machine memory devices := by
  have hget : Registry.builtin.get? "MI_example" = some TwoState.factory :=
    Registry.get?_insert TwoState.factory []
  rw [Registry.create, hget]
  exact TwoState.result_create machine memory devices

/-- In a system of the two-state protocol every address of the physical memory has
one owner, the directory of its slice, and any other address has none. -/
theorem owners_createSystem {s : Settings} (hp : s.machine.protocol = "MI_example")
    {devices : List Device} {sys : MemorySystem} (h : createSystem s .builtin devices = .ok sys) :
    ∃ memory, s.memory.range = .ok memory ∧ ∀ a : UInt64,
      (memory.contains a = true → ∃ c, sys.owners a = [c] ∧ sys.directoryFor? a = some c ∧
        c.version = (a.toNat - memory.first.toNat) /
          (memory.size.bytes.toNat / s.machine.directories.toNat)) ∧
      (memory.contains a = false → sys.owners a = [] ∧ sys.directoryFor? a = none) := by
  obtain ⟨b, cs, hrange, hcreate, hassemble⟩ := of_createSystem_eq_ok h
  rw [hp, result_create_builtin] at hcreate
  obtain ⟨rfl, htotal⟩ := of_assemble_eq_ok hassemble
  obtain ⟨hpos, -⟩ := TwoState.directories_of_controllers hcreate
  -- the check of the total leaves nothing over
  have hslices := (TwoState.total_controllers hcreate).symm.trans htotal
  have hdivides : sys.Divides b.memory := by
    refine (MemorySystem.divides_iff_covers htotal).mpr fun a ha => ?_
    rw [Range.contains_iff] at ha
    rw [Range.toNat_size] at hslices
    obtain ⟨c, hc, ho⟩ := TwoState.exists_owner hcreate ha.1 (by omega)
    exact List.ne_nil_of_mem (MemorySystem.mem_owners.mpr ⟨hc, ho⟩)
  refine ⟨b.memory, hrange, fun a => ⟨fun ha => ?_, fun ha => ?_⟩⟩
  · have hlen := hdivides a
    rw [if_pos ha] at hlen
    obtain ⟨c, hc⟩ := List.length_eq_one_iff.mp hlen
    obtain ⟨hmem, howns⟩ := MemorySystem.mem_owners.mp (hc ▸ List.mem_singleton_self c)
    obtain ⟨i, hi⟩ := TwoState.exists_slice hcreate hmem
    refine ⟨c, hc, by rw [sys.directoryFor?_eq, hc, List.head?_cons], ?_⟩
    rw [hi.version_eq]
    exact ((hi.owns_iff hpos (hi.first_le_of_owns howns)).mp howns).symm
  · have hlen := hdivides a
    rw [ha, if_neg Bool.false_ne_true] at hlen
    have hnil := List.eq_nil_of_length_eq_zero hlen
    exact ⟨hnil, by rw [sys.directoryFor?_eq, hnil, List.head?_nil]⟩

/-- Four directories that own a quarter of a memory of 1024 bytes each. -/
theorem owners_createSystem_quarters : ∃ sys c,
    createSystem { machine := { directories := 4 }, memory := { size := ⟨1024⟩ } } .builtin [] =
      .ok sys ∧ sys.owners 700 = [c] ∧ c.version = 2 ∧ sys.directoryFor? 1024 = none := by
  have hok : (createSystem { machine := { directories := 4 }, memory := { size := ⟨1024⟩ } }
    .builtin []).isOk = true := by decide +kernel
  have hrange : PhysicalMemory.range { size := ⟨1024⟩ } =
    .ok ⟨0, 1023, by decide, by decide⟩ := by decide +kernel
  cases h : createSystem { machine := { directories := 4 }, memory := { size := ⟨1024⟩ } }
    .builtin [] with
  | error e =>
    rw [h] at hok
    cases hok
  | ok sys =>
    obtain ⟨memory, hmemory, ha⟩ := owners_createSystem rfl h
    cases hrange.symm.trans hmemory
    obtain ⟨c, hc, -, hv⟩ := (ha 700).1 (by decide)
    exact ⟨sys, c, rfl, hc, hv, ((ha 1024).2 (by decide)).2⟩

end CoherentMemory
