import CoherentMemory.Proofs.Guarded.Words
import CoherentMemory.Proofs.System.Machine
import CoherentMemory.Proofs.System.Stages

/-!
# Guarded slices and sizes

The controllers of a machine and the check of their memory in guarded operations. Sizes
are differences and sums of addresses, the first address of a slice is a product and a
sum, and its size a quotient. All of them have results: for the sizes of ranges their
bounds see to it (`rangeSize_eq`), for slices that they end within physical memory
(`controllers_matches`), and for the total that there are not too many ranges (`validate_eq`).
-/

namespace CoherentMemory.Guarded

open Memory

/-! ## Sizes -/

/-- The number of bytes in a range. -/
def rangeSize (r : Range) : Except Fault Nat := do
  add (← sub r.last.toNat r.first.toNat) 1

theorem rangeSize_eq (r : Range) : rangeSize r = .ok r.size.bytes.toNat := by
  rw [rangeSize, sub_eq r.first_le_last, ok_bind, add_eq r.span_lt, r.toNat_size]

/-- The sum of sizes, which are added in 128 bits. -/
def sumWide (sizes : List Nat) : Except Fault Nat :=
  sizes.foldlM (fun n size =>
    if n + size < 2 ^ 128 then .ok (n + size) else .error (.overflow .addition)) 0

theorem sumWide_eq {sizes : List Nat} (h : sizes.sum < 2 ^ 128) :
    sumWide sizes = .ok sizes.sum := by
  have go (n : Nat) (h : n + sizes.sum < 2 ^ 128) :
      sizes.foldlM (fun n size => if n + size < 2 ^ 128 then Except.ok (n + size)
        else Except.error (Fault.overflow .addition)) n = .ok (n + sizes.sum) := by
    induction sizes generalizing n with
    | nil => rfl
    | cons size sizes ih =>
      rw [List.sum_cons] at h
      rw [List.foldlM_cons, if_pos (by omega), ok_bind, ih (by omega) _ (by omega), List.sum_cons,
        Nat.add_assoc]
  have hgo := go 0 (by omega)
  rwa [Nat.zero_add] at hgo

/-- The number of bytes that the directories own. -/
def total (cs : ControllerSet) : Except Fault Nat := do
  sumWide (← (directoryRanges cs).mapM rangeSize)

/-- The check of the directories against physical memory. -/
def validate (cs : ControllerSet) (memory : Range) : Stage Mismatch Size := do
  let expected ← rangeSize memory
  let actual ← total cs
  if actual = expected then return ⟨.ofNat expected⟩ else throw ⟨expected, actual⟩

theorem bytesIn_le (rs : List Range) : bytesIn rs ≤ rs.length * 2 ^ 64 := by
  induction rs with
  | nil => exact Nat.zero_le _
  | cons r rs ih =>
    have := r.size.bytes.toNat_lt
    rw [bytesIn_cons, List.length_cons, Nat.succ_mul]
    omega

theorem total_eq {cs : ControllerSet} (h : cs.length < 2 ^ 64) :
    total cs = .ok (Memory.total cs) := by
  have hlen : (directoryRanges cs).length ≤ cs.length := List.length_filterMap_le ..
  have hle := bytesIn_le (directoryRanges cs)
  have hsum : Memory.total cs = ((directoryRanges cs).map fun r => r.size.bytes.toNat).sum :=
    bytesIn_eq_sum _
  have hwide : Memory.total cs < 2 ^ 128 := by
    rw [Memory.total]
    omega
  rw [total, mapM_eq fun r _ => rangeSize_eq r, ok_bind, sumWide_eq (hsum ▸ hwide), hsum]

theorem validate_eq {cs : ControllerSet} (h : cs.length < 2 ^ 64) (memory : Range) :
    (validate cs memory).run = .ok (Memory.validate cs memory) := by
  refine Stage.lift_bind_eq (rangeSize_eq memory) (Stage.lift_bind_eq (total_eq h) ?_)
  rw [Memory.validate, UInt64.ofNat_toNat]
  split <;> rfl

/-! ## Controllers -/

variable {machine : MachineSettings} {memory : Range} {devices : List Device}

/-- The number of bytes in each slice. A machine that gets no slices is refused for the
reason that it is always refused for. -/
def sliceSize (machine : MachineSettings) (memory : Range) : Stage ProtocolError Nat :=
  let refusal : Stage ProtocolError Nat := .mk (.ok (TwoState.sliceSize machine memory))
  if machine.cpus = 0 ∨ machine.directories = 0 then refusal
  else do
    let slice ← div (← rangeSize memory) machine.directories.toNat
    if slice = 0 then refusal else return slice

/-- The range of slice `i`. -/
def sliceRange (memory : Range) (slice i : Nat) : Stage ProtocolError Range := do
  let base ← add memory.first.toNat (← mul i slice)
  .mk (.ok ((Range.ofSize (.ofNat base) ⟨.ofNat slice⟩).mapError fun e =>
    TwoState.rejection e.message))

/-- The directory that owns slice `i`. -/
def directoryOf (memory : Range) (slice i : Nat) : Stage ProtocolError Controller := do
  return .directory i (← sliceRange memory slice i)

/-- The number of controllers. -/
def controllerCount (machine : MachineSettings) (devices : List Device) : Except Fault Nat :=
  word (TwoState.controllerCount machine devices)

/-- The controllers of a machine with slices of a given size. -/
def controllersWith (machine : MachineSettings) (memory : Range) (devices : List Device)
    (slice : Nat) : Stage ProtocolError ControllerSet := do
  let _ ← controllerCount machine devices
  let directories ← (List.range machine.directories.toNat).mapM (directoryOf memory slice)
  return (List.range machine.cpus.toNat).map Controller.sequencer ++ directories ++
    devices.mapIdx TwoState.deviceController

/-- The controllers of a machine. -/
def controllers (machine : MachineSettings) (memory : Range) (devices : List Device) :
    Stage ProtocolError ControllerSet := do
  controllersWith machine memory devices (← sliceSize machine memory)

theorem sliceSize_eq (machine : MachineSettings) (memory : Range) :
    (sliceSize machine memory).run = .ok (TwoState.sliceSize machine memory) := by
  unfold sliceSize
  split
  · rfl
  · rename_i h
    rw [not_or] at h
    have hpos : 0 < machine.directories.toNat :=
      Nat.pos_of_ne_zero fun hz => h.2 (TwoState.toNat_eq_zero_iff.mp hz)
    refine Stage.lift_bind_eq (rangeSize_eq memory) (Stage.lift_bind_eq (div_eq hpos) ?_)
    split
    · rfl
    · rename_i hslice
      rw [TwoState.sliceSize, if_neg h.1, if_neg h.2, if_neg hslice]
      rfl

theorem sliceRange_matches {slice i : Nat} (hpos : 0 < slice)
    (hend : (i + 1) * slice ≤ memory.size.bytes.toNat) :
    (sliceRange memory slice i).Matches (TwoState.sliceRange memory slice i) := by
  obtain ⟨hoffset, hbase, -⟩ := TwoState.slice_fits hpos hend
  rw [TwoState.sliceRange_eq hpos hend]
  exact .lift_bind (mul_eq hoffset)
    (.lift_bind (add_eq hbase) ⟨_, rfl, (mapError_mapError _ _ _).symm⟩)

theorem directoryOf_matches {slice i : Nat} (hpos : 0 < slice)
    (hend : (i + 1) * slice ≤ memory.size.bytes.toNat) :
    (directoryOf memory slice i).Matches (TwoState.directoryOf memory slice i) := by
  have e : TwoState.directoryOf memory slice i =
      (TwoState.sliceRange memory slice i).bind fun r => .ok (.directory i r) := rfl
  rw [e]
  exact (sliceRange_matches hpos hend).bind fun _ _ => ⟨.ok _, rfl, rfl⟩

/-- The controllers of a machine, as long as a list has room for them. -/
theorem controllers_matches (hcount : machine.cpus.toNat + machine.directories.toNat +
    devices.length < 2 ^ 57) :
    (controllers machine memory devices).Matches
      (TwoState.controllers machine memory devices) := by
  have hsize : (sliceSize machine memory).Matches
      ((TwoState.sliceSize machine memory).mapError .refusal) :=
    ⟨_, sliceSize_eq machine memory, rfl⟩
  refine hsize.bind fun slice hslice => ?_
  obtain ⟨rfl, hpos⟩ := TwoState.sliceSize_eq_ok (mapError_eq_ok.mp hslice)
  have hcount := TwoState.controllerCount_eq_ok.mpr ⟨rfl, hcount⟩
  have hdirectories : ((List.range machine.directories.toNat).mapM
      (directoryOf memory (TwoState.sliceOf machine memory))).Matches
        ((List.range machine.directories.toNat).mapM
          (TwoState.directoryOf memory (TwoState.sliceOf machine memory))) :=
    .mapM fun i hi =>
      directoryOf_matches hpos (TwoState.mul_sliceOf_le machine memory (List.mem_range.mp hi))
  refine .lift_bind (word_eq hcount) ?_
  have e : TwoState.controllersWith machine memory devices (TwoState.sliceOf machine memory) =
      ((List.range machine.directories.toNat).mapM
        (TwoState.directoryOf memory (TwoState.sliceOf machine memory))).bind fun directories =>
          .ok ((List.range machine.cpus.toNat).map Controller.sequencer ++ directories ++
            devices.mapIdx TwoState.deviceController) := by
    rw [TwoState.controllersWith, hcount]
    rfl
  rw [e]
  exact hdirectories.bind fun _ _ => ⟨.ok _, rfl, rfl⟩

end CoherentMemory.Guarded
