/-!
# Events

What the program reports while it works: an event has a level, the part of the
program it comes from, and named texts. A computation that reports events and
may fail is a `Logged`: its events and its result are values, and `bind` runs
the second computation only if the first succeeds (`result_bind`). Events
reported before a failure are kept.
-/

namespace CoherentMemory

/-- How important an event is. -/
inductive Level where
  | trace
  | debug
  | info
deriving DecidableEq, Repr

/-- The name of a level. -/
def Level.name : Level → String
  | .trace => "TRACE"
  | .debug => "DEBUG"
  | .info => "INFO"

/-- A reported event. -/
structure Event where
  level : Level
  target : String
  fields : List (String × String)
deriving DecidableEq, Repr

/-- The events of a computation and its result. -/
structure Logged (ε α : Type) where
  events : List Event
  result : Except ε α

namespace Logged

variable {ε ε' α β : Type}

/-- The computation that reports nothing. -/
def ofExcept (r : Except ε α) : Logged ε α :=
  ⟨[], r⟩

/-- The computation that reports one event. -/
def emit (e : Event) : Logged ε Unit :=
  ⟨[e], .ok ()⟩

/-- Both computations in turn, as long as none fails. -/
def bind (x : Logged ε α) (f : α → Logged ε β) : Logged ε β :=
  match x.result with
  | .ok a => ⟨x.events ++ (f a).events, (f a).result⟩
  | .error e => ⟨x.events, .error e⟩

/-- The same computation with its failure in other terms. -/
def mapError (f : ε → ε') (x : Logged ε α) : Logged ε' α :=
  ⟨x.events, x.result.mapError f⟩

instance : Monad (Logged ε) where
  pure a := ⟨[], .ok a⟩
  bind := Logged.bind

@[simp] theorem result_pure (a : α) : (pure a : Logged ε α).result = .ok a :=
  rfl

@[simp] theorem result_ofExcept (r : Except ε α) : (ofExcept r).result = r :=
  rfl

@[simp] theorem result_emit (e : Event) : (emit e : Logged ε Unit).result = .ok () :=
  rfl

@[simp] theorem result_mapError (f : ε → ε') (x : Logged ε α) :
    (x.mapError f).result = x.result.mapError f :=
  rfl

/-- The result of two computations in turn does not depend on their events. -/
@[simp] theorem result_bind (x : Logged ε α) (f : α → Logged ε β) :
    (x >>= f).result = x.result.bind fun a => (f a).result := by
  obtain ⟨es, r⟩ := x
  cases r <;> rfl

end Logged

end CoherentMemory
