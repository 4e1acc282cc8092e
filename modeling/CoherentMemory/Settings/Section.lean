import CoherentMemory.Data.Value

/-!
# Sections of a configuration

A section gives some of its fields, by name or by position in the order of their
declaration; a field that is not given has its default. Names that belong to no
field do not matter. `read` is the rule for one field.
-/

namespace CoherentMemory

open Data

/-- The formats of a configuration. Positions beyond the last field are refused
in JSON and do not matter in TOML. -/
inductive Format where
  | toml
  | json
deriving DecidableEq, Repr

/-- The given fields of a section. -/
inductive Section where
  | byName (fields : Fields)
  | byPosition (values : List Value)

namespace Section

/-- A value as a section of `count` fields. A date or time is a section that gives
none of them. -/
def ofValue? (format : Format) (count : Nat) : Value → Option Section
  | .record fields => some (.byName fields)
  | .moment => some (.byName [])
  | .list vs => if format = .json ∧ count < vs.length then none else some (.byPosition vs)
  | _ => none

/-- What is given for the field with a position and a name. -/
def get? (s : Section) (position : Nat) (name : String) : Option Value :=
  match s with
  | .byName fields => Fields.get? fields name
  | .byPosition vs => vs[position]?

/-- The field with a position and a name: its default, or what is given for it,
decoded. -/
def read {α : Type} (s : Section) (position : Nat) (name : String) (decode : Value → Option α)
    (default : α) : Option α :=
  match s.get? position name with
  | none => some default
  | some v => decode v

theorem read_of_get?_none {α : Type} {s : Section} {position : Nat} {name : String}
    {decode : Value → Option α} {default : α} (h : s.get? position name = none) :
    s.read position name decode default = some default := by
  simp only [read, h]

theorem read_of_get?_some {α : Type} {s : Section} {position : Nat} {name : String} {v : Value}
    {decode : Value → Option α} {default : α} (h : s.get? position name = some v) :
    s.read position name decode default = decode v := by
  simp only [read, h]

end Section

end CoherentMemory
