import CoherentMemory.Protocol.Registry
import Mathlib.Tactic.ByContra

/-!
# Registrations

What a registry holds after any number of registrations. It is said of their history, the
factories in the order in which they were registered: the names come in the order of their
bytes, each once, and under each name is the factory that was registered last
(`Registry.Records`). One more registration keeps this (`Records.register`), whatever name
it is for and wherever that name falls among the others, so it holds after every run
(`Records.registerAll`), from an empty registry and from the one that comes with the
library (`registerAll_records`).
-/

namespace CoherentMemory

/-! ## The order of names -/

/-- Names with the same bytes are the same. -/
theorem byteKey_inj {a b : String} : byteKey a = byteKey b ↔ a = b := by
  rw [byteKey, byteKey, Array.toList_inj, ← ByteArray.ext_iff]
  exact String.toByteArray_inj

theorem nameLess_iff {a b : String} : nameLess a b = true ↔ byteKey a < byteKey b :=
  decide_eq_true_iff

/-- Of two different names one comes before the other. -/
theorem byteKey_lt_of_ne {a b : String} (h : a ≠ b) (hn : ¬byteKey a < byteKey b) :
    byteKey b < byteKey a := by
  by_contra hb
  exact h (byteKey_inj.mp (List.le_antisymm (List.not_lt.mp hb) (List.not_lt.mp hn)))

namespace Registry

/-- Names in strictly increasing order of their bytes. -/
def Increasing (names : List String) : Prop :=
  names.Pairwise fun a b => byteKey a < byteKey b

/-- The factory that comes last under a name. -/
def lastUnder? (name : String) (history : List Factory) : Option Factory :=
  (history.filter fun f => f.name = name).getLast?

/-- Registers factories one after the other. -/
def registerAll (r : Registry) (fs : List Factory) : Registry :=
  fs.foldl register r

variable {r : Registry} {f : Factory} {gs history : List Factory} {name : String}

/-! ## One registration -/

theorem mem_names_insert : name ∈ (insert f gs).map Factory.name ↔
    name = f.name ∨ name ∈ gs.map Factory.name := by
  induction gs with
  | nil => simp [insert]
  | cons g gs ih =>
    unfold insert
    split
    · rename_i e
      simp [e]
    · split
      · simp
      · rw [List.map_cons, List.mem_cons, ih, List.map_cons, List.mem_cons]
        exact or_left_comm

/-- A factory is entered where its name belongs. -/
theorem increasing_insert (h : Increasing (gs.map Factory.name)) :
    Increasing ((insert f gs).map Factory.name) := by
  induction gs with
  | nil => exact List.pairwise_singleton _ _
  | cons g gs ih =>
    obtain ⟨hg, hgs⟩ := List.pairwise_cons.mp h
    unfold insert
    split
    · rename_i e
      rw [List.map_cons, e]
      exact h
    · rename_i hne
      split
      · rename_i hless
        have hfg := nameLess_iff.mp hless
        refine List.pairwise_cons.mpr ⟨fun b hb => ?_, h⟩
        rcases List.mem_cons.mp hb with rfl | hb
        · exact hfg
        · exact List.lt_trans hfg (hg b hb)
      · rename_i hless
        have hgf : byteKey g.name < byteKey f.name :=
          byteKey_lt_of_ne hne fun hlt => hless (nameLess_iff.mpr hlt)
        refine List.pairwise_cons.mpr ⟨fun b hb => ?_, ih hgs⟩
        rcases mem_names_insert.mp hb with rfl | hb
        · exact hgf
        · exact hg b hb

/-- A registration decides what is found under its own name, and under no other. -/
theorem get?_register (r : Registry) (f : Factory) (name : String) :
    (r.register f).get? name = if name = f.name then some f else r.get? name := by
  by_cases h : name = f.name
  · subst h
    rw [if_pos rfl]
    exact get?_insert f r.factories
  · rw [if_neg h]
    exact get?_insert_ne h r.factories

theorem lastUnder?_concat (name : String) (history : List Factory) (f : Factory) :
    lastUnder? name (history ++ [f]) =
      if name = f.name then some f else lastUnder? name history := by
  rw [lastUnder?, List.filter_append]
  by_cases h : name = f.name
  · simp [h]
  · simp [h, Ne.symm h, lastUnder?]

theorem lastUnder?_eq_none : lastUnder? name history = none ↔ ∀ f ∈ history, f.name ≠ name := by
  simp [lastUnder?]

/-! ## Any number of registrations -/

/-- What is known of a registry after the registrations of its history. -/
structure Records (r : Registry) (history : List Factory) : Prop where
  /-- The names come in strictly increasing order of their bytes. -/
  increasing : Increasing r.names
  /-- They are the names that were registered. -/
  mem_names : ∀ name, name ∈ r.names ↔ ∃ f ∈ history, f.name = name
  /-- A look-up finds the factory that was registered last. -/
  get?_eq : ∀ name, r.get? name = lastUnder? name history
  /-- A registration leaves what is found under other names. -/
  get?_register_of_ne : ∀ f name, name ≠ f.name → (r.register f).get? name = r.get? name
  /-- The controllers are those of the factory that was registered last. -/
  create_eq : ∀ name machine memory devices, r.create name machine memory devices =
    (lastUnder? name history).elim (.ofExcept (.error (.refusal (.unknown name))))
      fun f => f.create machine memory devices

/-- The order of the names and what is found under each decide the rest. -/
theorem Records.of_get? (hnames : Increasing r.names)
    (hget : ∀ name, r.get? name = lastUnder? name history) : r.Records history := by
  refine ⟨hnames, fun name => ?_, hget, fun f name h => ?_, fun name machine memory devices => ?_⟩
  · have hnone : r.get? name = none ↔ name ∉ r.names := by
      simp [get?, names]
    rw [← not_iff_not, ← hnone, hget, lastUnder?_eq_none]
    simp
  · rw [get?_register, if_neg h]
  · rw [create, hget]
    cases lastUnder? name history <;> rfl

theorem records_empty : empty.Records [] :=
  .of_get? List.Pairwise.nil fun _ => rfl

/-- One more registration is one more in the history. -/
theorem Records.register (h : r.Records history) (f : Factory) :
    (r.register f).Records (history ++ [f]) := by
  refine .of_get? (increasing_insert h.increasing) fun name => ?_
  rw [get?_register, lastUnder?_concat, h.get?_eq]

theorem Records.registerAll (h : r.Records history) (fs : List Factory) :
    (r.registerAll fs).Records (history ++ fs) := by
  induction fs generalizing r history with
  | nil =>
    rw [List.append_nil]
    exact h
  | cons f fs ih =>
    have hall := ih (h.register f)
    rwa [List.append_assoc] at hall

/-- However often and under whatever names factories are registered, the names of the
registry are those of the history in the order of their bytes, each look-up finds the
factory that was registered last under its name, and the controllers of a protocol are
made by that factory, or by none if there is none. The registry that comes with the
library begins with the factory of its own protocol. -/
theorem registerAll_records (fs : List Factory) :
    (empty.registerAll fs).Records fs ∧
      (builtin.registerAll fs).Records (TwoState.factory :: fs) :=
  ⟨records_empty.registerAll fs, (records_empty.register TwoState.factory).registerAll fs⟩

/-- A name comes before its extensions, and other letters after those of ASCII. -/
example : (empty.registerAll (["b", "é", "ab", "a", "b"].map fun name =>
    ⟨name, fun _ _ _ => .ofExcept (.ok [])⟩)).names = ["a", "ab", "b", "é"] := by
  decide +kernel

end Registry

end CoherentMemory
