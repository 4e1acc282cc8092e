/-!
# Structured values

The values that configuration files and reports hold. Records keep their fields
in the order in which they were given, and `field?` finds the last one of a
name.
-/

namespace CoherentMemory.Data

/-- A structured value. -/
inductive Value where
  | null
  | bool (b : Bool)
  | integer (n : Int)
  | float (x : Float)
  | text (s : String)
  /-- A date, a time of day, or both. -/
  | moment
  | list (vs : List Value)
  | record (fields : List (String × Value))
deriving Inhabited

/-- Named values in order. -/
abbrev Fields := List (String × Value)

/-- The value of the last field with the given name. -/
def Fields.get? (fields : Fields) (name : String) : Option Value :=
  (fields.reverse.find? (·.1 = name)).map Prod.snd

namespace Value

/-- A natural number as a value. -/
def ofNat (n : Nat) : Value :=
  .integer n

/-- The value of a field of a record. -/
def field? (v : Value) (name : String) : Option Value :=
  match v with
  | .record fields => Fields.get? fields name
  | _ => none

def bool? : Value → Option Bool
  | .bool b => some b
  | _ => none

def text? : Value → Option String
  | .text s => some s
  | _ => none

def list? : Value → Option (List Value)
  | .list vs => some vs
  | _ => none

/-- An integer from zero to below `bound`. -/
def naturalBelow? (bound : Nat) : Value → Option Nat
  | .integer n => if 0 ≤ n ∧ n.toNat < bound then some n.toNat else none
  | _ => none

/-- A 64-bit natural number. -/
def word64? (v : Value) : Option UInt64 :=
  (v.naturalBelow? UInt64.size).map UInt64.ofNat

/-- A 32-bit natural number. -/
def word32? (v : Value) : Option UInt32 :=
  (v.naturalBelow? UInt32.size).map UInt32.ofNat

end Value

end CoherentMemory.Data
