import CoherentMemory.Overflow
import CoherentMemory.Proofs.Success

/-!
# Guarded operations

The operations that a machine has no result for at some of its operands: sums and
products beyond 64 bits, differences below zero, divisions by zero, entries at positions
that a list does not have. Here they end in a `Fault` there. A computation that is made
of them and ends with a result has met none of these operands (`add_eq`, `sub_eq`,
`div_eq`, `entry_some` and so on say where they have their results).

A `Stage` may refuse what it is given besides, which is no fault. `Stage.bind_eq` and
`Stage.mapM_eq` compose stages whose outcome is known. An operation that might overflow
does not where a stage matches it (`Stage.Matches`), and the stages that do compose alike.
-/

namespace CoherentMemory

/-- What a computation stops at. -/
inductive Fault where
  | overflow (cause : Overflow)
  | underflow
  | zeroDivisor
  /-- A position that a list does not have. -/
  | outOfRange
  /-- A loop that is not at its end after the rounds that were allowed for it. -/
  | unfinished
deriving DecidableEq, Repr

/-- A stage ends in a fault, or with a result or a refusal. -/
abbrev Stage (ε : Type) :=
  ExceptT ε (Except Fault)

namespace Guarded

variable {ε α β : Type}

/-- A number that was checked for its width. -/
def word (x : Except Overflow α) : Except Fault α :=
  x.mapError .overflow

/-- The sum, if it fits in 64 bits. -/
def add (a b : Nat) : Except Fault Nat :=
  word (checkedAdd a b)

/-- The product, if it fits in 64 bits. -/
def mul (a b : Nat) : Except Fault Nat :=
  word (checkedMul a b)

/-- The difference, if there is one. -/
def sub (a b : Nat) : Except Fault Nat :=
  if b ≤ a then .ok (a - b) else .error .underflow

/-- The quotient, if the divisor is not zero. -/
def div (a b : Nat) : Except Fault Nat :=
  if b = 0 then .error .zeroDivisor else .ok (a / b)

/-- The remainder, if the divisor is not zero. -/
def rem (a b : Nat) : Except Fault Nat :=
  if b = 0 then .error .zeroDivisor else .ok (a % b)

/-- What a look-up found, if the position exists. -/
def entry (found : Option α) : Except Fault α :=
  match found with
  | some a => .ok a
  | none => .error .outOfRange

/-- Writes the entry at a position that exists. -/
def set (xs : Array α) (i : Nat) (x : α) : Except Fault (Array α) :=
  if i < xs.size then .ok (xs.setIfInBounds i x) else .error .outOfRange

/-- The number of elements, counted one by one in 64 bits. -/
def count (xs : List α) : Except Fault Nat :=
  xs.foldlM (fun n _ => add n 1) 0

/-! ## Operands with a result -/

@[simp] theorem ok_bind (a : α) (f : α → Except ε β) : (Except.ok a >>= f) = f a :=
  rfl

theorem word_eq {x : Except Overflow α} {a : α} (h : x = .ok a) : word x = .ok a :=
  mapError_eq_ok.mpr h

theorem add_eq {a b : Nat} (h : a + b < 2 ^ 64) : add a b = .ok (a + b) :=
  word_eq (checkedAdd_eq_ok.mpr ⟨rfl, h⟩)

theorem mul_eq {a b : Nat} (h : a * b < 2 ^ 64) : mul a b = .ok (a * b) :=
  word_eq (checkedMul_eq_ok.mpr ⟨rfl, h⟩)

theorem sub_eq {a b : Nat} (h : b ≤ a) : sub a b = .ok (a - b) :=
  if_pos h

theorem div_eq {a b : Nat} (h : 0 < b) : div a b = .ok (a / b) :=
  if_neg (Nat.ne_of_gt h)

theorem rem_eq {a b : Nat} (h : 0 < b) : rem a b = .ok (a % b) :=
  if_neg (Nat.ne_of_gt h)

@[simp] theorem entry_some (a : α) : entry (some a) = .ok a :=
  rfl

theorem set_eq {xs : Array α} {i : Nat} (h : i < xs.size) (x : α) :
    set xs i x = .ok (xs.setIfInBounds i x) :=
  if_pos h

theorem count_eq {xs : List α} (h : xs.length < 2 ^ 64) : count xs = .ok xs.length := by
  have go (n : Nat) (h : n + xs.length < 2 ^ 64) :
      xs.foldlM (fun n _ => add n 1) n = .ok (n + xs.length) := by
    induction xs generalizing n with
    | nil => rfl
    | cons x xs ih =>
      rw [List.length_cons] at h
      rw [List.foldlM_cons, add_eq (by omega), ok_bind, ih (by omega) _ (by omega),
        List.length_cons]
      congr 1
      omega
  have hgo := go 0 (by omega)
  rwa [Nat.zero_add] at hgo

/-! ## Traversals -/

/-- Looking up each of some positions that exist. -/
theorem mapM_entry {f : β → Option α} {xs : List β} {ys : List α} (h : xs.map f = ys.map some) :
    xs.mapM (fun x => entry (f x)) = .ok ys := by
  rw [mapM_eq_ok]
  have he := congrArg (List.map entry) h
  rwa [List.map_map, List.map_map] at he

theorem findM?_eq {p : α → Except ε Bool} {q : α → Bool} {xs : List α}
    (h : ∀ x ∈ xs, p x = .ok (q x)) : xs.findM? p = .ok (xs.find? q) := by
  induction xs with
  | nil => rfl
  | cons x xs ih =>
    rw [List.forall_mem_cons] at h
    rw [List.findM?, h.1, ok_bind, List.find?_cons]
    cases q x with
    | true => rfl
    | false => exact ih h.2

end Guarded

namespace Stage

variable {ε ε' α β : Type}

theorem bind_eq {x : Stage ε α} {r : Except ε α} {k : α → Stage ε β} {f : α → Except ε β}
    (hx : x.run = .ok r) (hk : ∀ a, r = .ok a → (k a).run = .ok (f a)) :
    (x >>= k).run = .ok (r.bind f) := by
  rw [ExceptT.run_bind, hx]
  cases r with
  | error e => rfl
  | ok a => exact hk a rfl

/-- A computation that cannot refuse. -/
theorem lift_eq {x : Except Fault α} {a : α} (h : x = .ok a) :
    (liftM x : Stage ε α).run = .ok (.ok a) := by
  rw [h]
  rfl

theorem lift_bind_eq {x : Except Fault α} {a : α} {k : α → Stage ε β} {r : Except ε β}
    (h : x = .ok a) (hk : (k a).run = .ok r) : ((liftM x : Stage ε α) >>= k).run = .ok r := by
  rw [ExceptT.run_bind, lift_eq h]
  exact hk

theorem adapt_eq {x : Stage ε α} {r : Except ε α} (f : ε → ε') (h : x.run = .ok r) :
    (x.adapt f).run = .ok (r.mapError f) := by
  have e : (x.adapt f).run = x.run.map fun r => r.mapError f := rfl
  rw [e, h]
  rfl

theorem mapM_eq {f : α → Stage ε β} {g : α → Except ε β} {xs : List α}
    (h : ∀ x ∈ xs, (f x).run = .ok (g x)) : (xs.mapM f).run = .ok (xs.mapM g) := by
  induction xs with
  | nil => rfl
  | cons x xs ih =>
    rw [List.forall_mem_cons] at h
    rw [List.mapM_cons, List.mapM_cons]
    exact bind_eq h.1 fun y _ => bind_eq (ih h.2) fun ys _ => rfl

/-! ## Operations that might overflow -/

/-- The stage meets no fault, and what it has for a result or refuses is what comes of the
operation; so this does not overflow either. -/
def Matches (x : Stage ε α) (y : Except (Failure ε) α) : Prop :=
  ∃ r : Except ε α, x.run = .ok r ∧ y = r.mapError .refusal

/-- What fails where a stage matches it, refuses. -/
theorem Matches.exists_refusal {x : Stage ε α} {y : Except (Failure ε) α} (h : x.Matches y)
    {e : Failure ε} (he : y = .error e) : ∃ error, e = .refusal error := by
  obtain ⟨r, -, rfl⟩ := h
  obtain ⟨error, -, rfl⟩ := mapError_eq_error.mp he
  exact ⟨error, rfl⟩

theorem Matches.bind {x : Stage ε α} {y : Except (Failure ε) α} {k : α → Stage ε β}
    {f : α → Except (Failure ε) β} (h : x.Matches y) (hk : ∀ a, y = .ok a → (k a).Matches (f a)) :
    (x >>= k).Matches (y.bind f) := by
  obtain ⟨r, hr, rfl⟩ := h
  cases r with
  | error e => exact ⟨.error e, by rw [ExceptT.run_bind, hr]; rfl, rfl⟩
  | ok a =>
    obtain ⟨r, hka, hf⟩ := hk a rfl
    exact ⟨r, by rw [ExceptT.run_bind, hr]; exact hka, hf⟩

theorem Matches.lift_bind {x : Except Fault α} {a : α} {k : α → Stage ε β}
    {y : Except (Failure ε) β} (h : x = .ok a) (hk : (k a).Matches y) :
    ((liftM x : Stage ε α) >>= k).Matches y := by
  obtain ⟨r, hr, rfl⟩ := hk
  exact ⟨r, lift_bind_eq h hr, rfl⟩

theorem Matches.adapt {x : Stage ε α} {y : Except (Failure ε) α} (f : ε → ε') (h : x.Matches y) :
    Matches (x.adapt f) (y.mapError (.map f)) := by
  obtain ⟨r, hr, rfl⟩ := h
  exact ⟨_, adapt_eq f hr, by rw [mapError_mapError, mapError_mapError]; rfl⟩

/-- A stage with a known outcome, with its refusals in other terms. -/
theorem matches_adapt {x : Stage ε α} {r : Except ε α} (f : ε → ε') (h : x.run = .ok r) :
    Matches (x.adapt f) (r.mapError (.refusal ∘ f)) :=
  ⟨_, adapt_eq f h, (mapError_mapError r f _).symm⟩

theorem Matches.mapM {f : α → Stage ε β} {g : α → Except (Failure ε) β} {xs : List α}
    (h : ∀ x ∈ xs, (f x).Matches (g x)) : (xs.mapM f).Matches (xs.mapM g) := by
  induction xs with
  | nil => exact ⟨.ok [], rfl, rfl⟩
  | cons x xs ih =>
    rw [List.forall_mem_cons] at h
    rw [List.mapM_cons, List.mapM_cons]
    exact h.1.bind fun y _ => (ih h.2).bind fun ys _ => ⟨.ok (y :: ys), rfl, rfl⟩

end Stage

end CoherentMemory
