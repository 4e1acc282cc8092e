import CoherentMemory.Memory.Range

/-!
# Coherence controllers

A coherence protocol populates the memory system with controllers: sequencers,
where requests enter; directories, each owning a range of physical memory; and
controllers for devices with direct memory access. A `ControllerSet` lists them
in the order in which their endpoints are placed.
-/

namespace CoherentMemory

/-- The part a controller plays. -/
inductive Role where
  | sequencer
  | directory
  | dma
deriving DecidableEq, Repr

/-- The name of a role. -/
def Role.name : Role → String
  | .sequencer => "sequencer"
  | .directory => "directory_controller"
  | .dma => "dma_controller"

/-- What a controller does, and for a directory the memory it owns. -/
inductive Duty where
  | sequencer
  | directory (memory : Memory.Range)
  | dma
deriving DecidableEq

/-- The role of a controller with this duty. -/
def Duty.role : Duty → Role
  | .sequencer => .sequencer
  | .directory _ => .directory
  | .dma => .dma

/-- A controller; `version` counts the controllers of its role. -/
structure Controller where
  name : String
  version : Nat
  duty : Duty
deriving DecidableEq

namespace Controller

/-- The sequencer of a given version. -/
def sequencer (version : Nat) : Controller :=
  ⟨"l1_cntrl" ++ toString version, version, .sequencer⟩

/-- The directory of a given version, owning `memory`. -/
def directory (version : Nat) (memory : Memory.Range) : Controller :=
  ⟨"dir_cntrl" ++ toString version, version, .directory memory⟩

/-- The device controller of a given version. -/
def dma (version : Nat) : Controller :=
  ⟨"dma_cntrl" ++ toString version, version, .dma⟩

/-- The controller under another name. -/
def withName (c : Controller) (name : String) : Controller :=
  { c with name := name }

def role (c : Controller) : Role :=
  c.duty.role

/-- The memory that a directory owns. -/
def memory? (c : Controller) : Option Memory.Range :=
  match c.duty with
  | .directory memory => some memory
  | .sequencer | .dma => none

def isSequencer (c : Controller) : Bool :=
  c.role = .sequencer

def isDirectory (c : Controller) : Bool :=
  c.role = .directory

def isDma (c : Controller) : Bool :=
  c.role = .dma

/-- Whether a mesh has a router of its own for the controller. -/
def isPlaced (c : Controller) : Bool :=
  !c.isDma

end Controller

/-- The controllers of a system, in the order of their endpoints. -/
abbrev ControllerSet := List Controller

namespace ControllerSet

def sequencers (cs : ControllerSet) : List Controller :=
  cs.filter Controller.isSequencer

def directories (cs : ControllerSet) : List Controller :=
  cs.filter Controller.isDirectory

def dmaControllers (cs : ControllerSet) : List Controller :=
  cs.filter Controller.isDma

/-- The positions in the list of the controllers that satisfy `p`. -/
def positions (cs : ControllerSet) (p : Controller → Bool) : List Nat :=
  (cs.zipIdx.filter fun c => p c.1).map Prod.snd

/-- The positions in the list of the controllers that a mesh places. -/
def placed (cs : ControllerSet) : List Nat :=
  cs.positions Controller.isPlaced

/-- The positions in the list of the device controllers. -/
def unplaced (cs : ControllerSet) : List Nat :=
  cs.positions Controller.isDma

theorem mem_positions {cs : ControllerSet} {p : Controller → Bool} {i : Nat} :
    i ∈ cs.positions p ↔ ∃ c, cs[i]? = some c ∧ p c = true := by
  simp only [positions, List.mem_map, List.mem_filter, Prod.exists, List.mem_zipIdx_iff_getElem?]
  constructor
  · rintro ⟨c, j, ⟨h, hp⟩, rfl⟩; exact ⟨c, h, hp⟩
  · rintro ⟨c, h, hp⟩; exact ⟨c, i, ⟨h, hp⟩, rfl⟩

theorem length_positions (cs : ControllerSet) (p : Controller → Bool) :
    (cs.positions p).length = cs.countP p := by
  have h : cs = cs.zipIdx.map Prod.fst := by simp
  rw [positions, List.length_map, ← List.countP_eq_length_filter]
  conv => rhs; rw [h, List.countP_map]
  rfl

theorem length_placed (cs : ControllerSet) : cs.placed.length = cs.countP Controller.isPlaced :=
  cs.length_positions _

theorem length_placed_le (cs : ControllerSet) : cs.placed.length ≤ cs.length := by
  rw [length_placed]
  exact List.countP_le_length

end ControllerSet

theorem Controller.isDirectory_iff (c : Controller) : c.isDirectory = true ↔ c.memory?.isSome := by
  obtain ⟨name, version, duty⟩ := c
  cases duty <;> simp [isDirectory, role, Duty.role, memory?]

end CoherentMemory
