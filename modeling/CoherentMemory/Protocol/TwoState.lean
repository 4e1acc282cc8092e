import CoherentMemory.Protocol.Factory

/-!
# The two-state protocol

The reference protocol: a sequencer for each processor, a number of directories
that divide physical memory into equal contiguous slices, and a controller for
each device. Directory `i` owns the slice that begins `i` slices above the first
address; what an uneven division leaves over belongs to no directory. The
controllers of devices carry the name of their device.
-/

namespace CoherentMemory.TwoState

/-- The name of the protocol. -/
def name : String := "MI_example"

/-- The rejection for a reason. -/
def rejection (reason : String) : ProtocolError :=
  .rejected name reason

/-- The number of bytes in each directory's slice. Without processors or
directories, or with less memory than directories, there are no slices. -/
def sliceSize (machine : MachineSettings) (memory : Memory.Range) : Except ProtocolError Nat :=
  let slice := memory.size.bytes.toNat / machine.directories.toNat
  if machine.cpus = 0 then .error (rejection "at least one cpu is required")
  else if machine.directories = 0 then
    .error (rejection "at least one directory is required")
  else if slice = 0 then
    .error (rejection ("physical memory of " ++ memory.size.render ++ " cannot be split across " ++
      toString machine.directories ++ " directories"))
  else .ok slice

/-- The range of slice `i`, computed in 64 bits. -/
def sliceRange (memory : Memory.Range) (slice i : Nat) :
    Except (Failure ProtocolError) Memory.Range := do
  let offset ← (checkedMul i slice).mapError .overflow
  let base ← (checkedAdd memory.first.toNat offset).mapError .overflow
  (Memory.Range.ofSize (UInt64.ofNat base) ⟨UInt64.ofNat slice⟩).mapError fun e =>
    .refusal (rejection e.message)

/-- The directory that owns slice `i`. -/
def directoryOf (memory : Memory.Range) (slice i : Nat) :
    Except (Failure ProtocolError) Controller :=
  (sliceRange memory slice i).map (Controller.directory i)

/-- The controller of the device at position `i`. -/
def deviceController (i : Nat) (device : Device) : Controller :=
  (Controller.dma i).withName ("dma_cntrl" ++ toString i ++ "_" ++ device.name)

/-- The number of bytes of a controller in a list. -/
def controllerWidth : Nat := 64

/-- The number of controllers, counted in 64 bits. Room for all of them is asked for before
any is made. -/
def controllerCount (machine : MachineSettings) (devices : List Device) : Except Overflow Nat := do
  let placed ← checkedAdd machine.cpus.toNat machine.directories.toNat
  let n ← checkedAdd placed devices.length
  checkedCapacity n controllerWidth

/-- The controllers of a machine with slices of a given size: sequencers,
directories, device controllers. -/
def controllersWith (machine : MachineSettings) (memory : Memory.Range) (devices : List Device)
    (slice : Nat) : Except (Failure ProtocolError) ControllerSet := do
  let _ ← (controllerCount machine devices).mapError .overflow
  let directories ← (List.range machine.directories.toNat).mapM (directoryOf memory slice)
  return (List.range machine.cpus.toNat).map Controller.sequencer ++ directories ++
    devices.mapIdx deviceController

/-- The controllers of a machine. -/
def controllers (machine : MachineSettings) (memory : Memory.Range) (devices : List Device) :
    Except (Failure ProtocolError) ControllerSet :=
  ((sliceSize machine memory).mapError .refusal).bind (controllersWith machine memory devices)

/-- The event that reports the controllers. -/
def createdEvent (machine : MachineSettings) (memory : Memory.Range) (devices : List Device) :
    Event where
  level := .debug
  target := "ruby_memsys::protocol::mi_example"
  fields := [("cpus", toString machine.cpus), ("dirs", toString machine.directories),
    ("dma", toString devices.length),
    ("slice", Memory.Size.renderBytes (memory.size.bytes.toNat / machine.directories.toNat)),
    ("message", "MI_example controllers created")]

/-- The factory of the protocol. -/
def factory : Factory where
  name := name
  create machine memory devices := do
    let cs ← .ofExcept (controllers machine memory devices)
    .emit (createdEvent machine memory devices)
    return cs

@[simp] theorem result_create (machine : MachineSettings) (memory : Memory.Range)
    (devices : List Device) :
    (factory.create machine memory devices).result = controllers machine memory devices := by
  simp only [factory, Logged.result_bind, Logged.result_ofExcept]
  cases controllers machine memory devices <;> rfl

end CoherentMemory.TwoState
