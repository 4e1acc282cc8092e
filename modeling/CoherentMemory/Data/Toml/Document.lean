import CoherentMemory.Data.Toml.Expression

/-!
# Documents in TOML

The expressions of a document build one table. A table comes to be by its own
header, by the header of a table inside it (then it is implicit, and may get its
own header later), or by a key of several parts (then it belongs to that form,
and headers do not reopen it). Values, and with them inline tables, are closed.
`parse?` reads a document into a record.
-/

namespace CoherentMemory.Data.Toml

/-- What a name in a table stands for while the document is read. -/
inductive Item where
  /-- A value, complete as it stands. -/
  | closed (v : Value)
  /-- A table without a header of its own, or one made by the parts of a key. -/
  | table (implicit dotted : Bool) (items : List (String × Item))
  /-- An array of tables; the last one can still grow. -/
  | tables (done : List (List (String × Item))) (last : List (String × Item))

/-- The names in a table. -/
abbrev Items := List (String × Item)

namespace Items

def get? (items : Items) (name : String) : Option Item :=
  (items.find? (·.1 = name)).map Prod.snd

def set (items : Items) (name : String) (item : Item) : Items :=
  items.map fun i => if i.1 = name then (name, item) else i

def erase (items : Items) (name : String) : Items :=
  items.filter (·.1 ≠ name)

/-- Changes the table at the end of `path`, entering tables on the way and making
those that are missing. `f` is told whether the table was made by the parts of a
key. Keys (`byKey`) do not enter tables with a header of their own. -/
def update (byKey : Bool) (f : Bool → Items → Option Items) :
    List String → Bool → Items → Option Items
  | [], dotted, items => f dotted items
  | part :: parts, _, items =>
    match get? items part with
    | none =>
      (update byKey f parts byKey []).map fun inner => items ++ [(part, .table true byKey inner)]
    | some (.closed _) => none
    | some (.tables done last) =>
      (update byKey f parts false last).map fun last => set items part (.tables done last)
    | some (.table implicit dotted inner) =>
      if byKey && !implicit then none
      else
        (update byKey f parts dotted inner).map fun inner =>
          set items part (.table implicit dotted inner)

/-- Adds a value under a key. The last part is new in its table, and the table of
a key of several parts was made by such keys. -/
def addPair (path : List String) (name : String) (v : Value) (items : Items) : Option Items :=
  update true (fun dotted items =>
    if dotted == path.isEmpty || (get? items name).isSome then none
    else some (items ++ [(name, .closed v)])) path false items

end Items

/-- The lines under one header: keys with values. -/
abbrev Body := List (List String × String × Value)

/-- The items of a table with the lines of a body added. -/
def addBody (body : Body) (items : Items) : Option Items :=
  body.foldlM (fun items (path, name, v) => items.addPair path name v) items

/-- The lines up to the next header, and the expressions from there on. -/
def takeBody : List Expression → Body × List Expression
  | .pair path name v :: es =>
    let (body, rest) := takeBody es
    ((path, name, v) :: body, rest)
  | es => ([], es)

/-- Adds a table with a header. An implicit table of that name is taken over with
what it holds; any other name is new. -/
def addTable (path : List String) (name : String) (body : Body) (root : Items) : Option Items :=
  root.update false (fun _ items =>
    match items.get? name with
    | none => (addBody body []).map fun t => items ++ [(name, .table false false t)]
    | some (.table true false inner) =>
      (addBody body inner).map fun t => items.erase name ++ [(name, .table false false t)]
    | some _ => none) path false

/-- Adds an element to an array of tables. -/
def addElement (path : List String) (name : String) (body : Body) (root : Items) : Option Items :=
  root.update false (fun _ items =>
    match items.get? name with
    | none => (addBody body []).map fun t => items ++ [(name, .tables [] t)]
    | some (.tables done last) =>
      (addBody body []).map fun t => items.set name (.tables (done ++ [last]) t)
    | some _ => none) path false

/-- Adds the tables of the expressions that follow the first header; `fuel`
bounds their number. -/
def addSections : Nat → List Expression → Items → Option Items
  | 0, _, _ => none
  | _, [], root => some root
  | fuel + 1, e :: es, root =>
    let (body, rest) := takeBody es
    match e with
    | .table path name => (addTable path name body root).bind (addSections fuel rest)
    | .element path name => (addElement path name body root).bind (addSections fuel rest)
    | .pair .. => none

mutual

/-- The value that an item stands for. -/
def Item.toValue : Item → Value
  | .closed v => v
  | .table _ _ items => .record (fieldsOf items)
  | .tables done last => .list (recordsOf done ++ [.record (fieldsOf last)])

/-- The fields that the items of a table stand for. -/
def fieldsOf : List (String × Item) → Fields
  | [] => []
  | (name, item) :: items => (name, item.toValue) :: fieldsOf items

/-- The records that tables stand for. -/
def recordsOf : List (List (String × Item)) → List Value
  | [] => []
  | items :: tables => .record (fieldsOf items) :: recordsOf tables

end

/-- The record that a document stands for. -/
def parse? (s : String) : Option Value := do
  let es ← expressions? s
  let (body, rest) := takeBody es
  let root ← addBody body []
  let root ← addSections (rest.length + 1) rest root
  return .record (fieldsOf root)

end CoherentMemory.Data.Toml
