import CoherentMemory.Protocol.TwoState

/-!
# The protocol registry

Factories by name, in the order of the bytes of their names. Registering a
factory replaces the one that had its name. `get?_insert` and `get?_insert_ne`
say what a registration changes and what it leaves.
-/

namespace CoherentMemory

/-- The key by which names are ordered: the bytes of their UTF-8 form. -/
def byteKey (s : String) : List UInt8 :=
  s.toUTF8.data.toList

/-- Whether a name comes before another. -/
def nameLess (a b : String) : Bool :=
  byteKey a < byteKey b

/-- The registered factories, in the order of their names. -/
structure Registry where
  factories : List Factory

namespace Registry

/-- A registry without factories. -/
def empty : Registry :=
  ⟨[]⟩

/-- Factories with one more in its place. -/
def insert (f : Factory) : List Factory → List Factory
  | [] => [f]
  | g :: gs =>
    if f.name = g.name then f :: gs
    else if nameLess f.name g.name then f :: g :: gs
    else g :: insert f gs

/-- Registers a factory under its name. -/
def register (r : Registry) (f : Factory) : Registry :=
  ⟨insert f r.factories⟩

/-- The event that reports a registration. -/
def registeredEvent (f : Factory) : Event where
  level := .debug
  target := "ruby_memsys::protocol"
  fields := [("protocol", f.name), ("message", "registered coherence protocol")]

/-- The registry of the protocols that come with the library. -/
def builtin : Registry :=
  empty.register TwoState.factory

/-- The event that reports the making of `builtin`. -/
def builtinEvent : Event :=
  registeredEvent TwoState.factory

/-- The factory registered under a name. -/
def get? (r : Registry) (protocol : String) : Option Factory :=
  r.factories.find? fun f => f.name = protocol

/-- The registered names, in order. -/
def names (r : Registry) : List String :=
  r.factories.map Factory.name

/-- The controllers that the factory of a protocol makes. -/
def create (r : Registry) (protocol : String) (machine : MachineSettings) (memory : Memory.Range)
    (devices : List Device) : Logged (Failure ProtocolError) ControllerSet :=
  match r.get? protocol with
  | some f => f.create machine memory devices
  | none => .ofExcept (.error (.refusal (.unknown protocol)))

/-- The registered factory is found under its name. -/
theorem get?_insert (f : Factory) (gs : List Factory) :
    (insert f gs).find? (fun g => g.name = f.name) = some f := by
  induction gs with
  | nil => simp [insert]
  | cons g gs ih =>
    unfold insert
    split
    · simp
    · rename_i h
      split
      · simp
      · rw [List.find?_cons_of_neg (by simpa using Ne.symm h), ih]

/-- Other names keep their factories. -/
theorem get?_insert_ne {f : Factory} {name : String} (h : name ≠ f.name) (gs : List Factory) :
    (insert f gs).find? (fun g => g.name = name) = gs.find? fun g => g.name = name := by
  induction gs with
  | nil => simp [insert, Ne.symm h]
  | cons g gs ih =>
    unfold insert
    split
    · rename_i e
      rw [List.find?_cons_of_neg (by simpa using Ne.symm h),
        List.find?_cons_of_neg (by simpa using e ▸ Ne.symm h)]
    · split
      · rw [List.find?_cons_of_neg (by simpa using Ne.symm h)]
      · simp only [List.find?_cons, ih]

end Registry

end CoherentMemory
