import CoherentMemory.Controller
import CoherentMemory.Event

/-!
# Directory memory against physical memory

The directories must own as many bytes as there is physical memory. Their sizes
are added as natural numbers, so that overlapping directories cannot make the
sum wrap around (`total`); a mismatch keeps both numbers.
-/

namespace CoherentMemory.Memory

/-- The directories own more or less than there is. -/
structure Mismatch where
  expected : Nat
  actual : Nat
deriving DecidableEq, Repr

/-- A number of bytes as a size, or as a plain number if it is no size. -/
def bytesText (n : Nat) : String :=
  if n < 0x10000000000000000 then Size.renderBytes n else toString n ++ "B"

/-- The wording of a mismatch. -/
def Mismatch.message (m : Mismatch) : String :=
  "directory memory mismatch: physical memory is " ++ bytesText m.expected ++
    " but directories total " ++ bytesText m.actual

/-- The ranges that the directories own. -/
def directoryRanges (cs : ControllerSet) : List Range :=
  cs.filterMap Controller.memory?

/-- The number of bytes in ranges, of which each counts for itself. -/
def bytesIn (rs : List Range) : Nat :=
  rs.foldr (fun r n => r.size.bytes.toNat + n) 0

/-- The number of bytes that the directories own. -/
def total (cs : ControllerSet) : Nat :=
  bytesIn (directoryRanges cs)

/-- The size of physical memory, if the directories own as much. -/
def validate (cs : ControllerSet) (memory : Range) : Except Mismatch Size :=
  if total cs = memory.size.bytes.toNat then .ok memory.size
  else .error ⟨memory.size.bytes.toNat, total cs⟩

/-- The event that reports a match. -/
def matchEvent (cs : ControllerSet) (memory : Range) : Event where
  level := .debug
  target := "ruby_memsys::system::memory"
  fields := [("directories", toString cs.directories.length), ("total", memory.size.render),
    ("message", "directory memory matches physical memory")]

/-- The check of the directories, with the event that reports a match. -/
def validateLogged (cs : ControllerSet) (memory : Range) : Logged Mismatch Size := do
  let size ← .ofExcept (validate cs memory)
  .emit (matchEvent cs memory)
  return size

@[simp] theorem result_validateLogged (cs : ControllerSet) (memory : Range) :
    (validateLogged cs memory).result = validate cs memory := by
  simp only [validateLogged, Logged.result_bind, Logged.result_ofExcept]
  cases validate cs memory <;> rfl

@[simp] theorem bytesIn_cons (r : Range) (rs : List Range) :
    bytesIn (r :: rs) = r.size.bytes.toNat + bytesIn rs :=
  rfl

theorem bytesIn_perm {rs ss : List Range} (h : rs.Perm ss) : bytesIn rs = bytesIn ss :=
  h.foldr_eq' (fun r _ s _ n => Nat.add_left_comm s.size.bytes.toNat r.size.bytes.toNat n) 0

/-- The order of the controllers does not matter for the total. -/
theorem total_perm {cs ds : ControllerSet} (h : cs.Perm ds) : total cs = total ds :=
  bytesIn_perm (h.filterMap _)

end CoherentMemory.Memory
