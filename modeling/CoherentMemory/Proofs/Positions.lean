import CoherentMemory.Controller
import Mathlib

/-!
# Positions of controllers

Which controller of a kind stands where in the list. The `j`-th controller that satisfies a
condition is the one with `j` such controllers before it (`getElem?_positions_iff`); a
selection of the list has it at that place (`getElem?_filter_of_getElem?`), after the
selected ones of those before it (`take_filter`).
-/

namespace CoherentMemory

/-- An element of a list stands between what comes before it and what comes after it. -/
theorem eq_take_append_cons {α : Type} {xs : List α} {i : Nat} {x : α} (h : xs[i]? = some x) :
    xs = xs.take i ++ x :: xs.drop (i + 1) := by
  obtain ⟨hi, rfl⟩ := List.getElem?_eq_some_iff.mp h
  rw [← List.drop_eq_getElem_cons hi, List.take_append_drop]

section Selection

variable {α : Type} {p : α → Bool} {xs : List α} {i : Nat} {x : α}

/-- A selection has an element at the number of selected elements before it. -/
theorem getElem?_filter_of_getElem? (h : xs[i]? = some x) (hx : p x = true) :
    (xs.filter p)[(xs.take i).countP p]? = some x := by
  have e : xs.filter p = (xs.take i).filter p ++ x :: (xs.drop (i + 1)).filter p := by
    conv => lhs; rw [eq_take_append_cons h]
    rw [List.filter_append, List.filter_cons_of_pos hx]
  rw [e, List.countP_eq_length_filter, List.getElem?_append_right (Nat.le_refl _), Nat.sub_self]
  rfl

theorem take_filter (p : α → Bool) (xs : List α) (i : Nat) :
    (xs.filter p).take ((xs.take i).countP p) = (xs.take i).filter p := by
  have e : xs.filter p = (xs.take i).filter p ++ (xs.drop i).filter p := by
    rw [← List.filter_append, List.take_append_drop]
  rw [e, List.countP_eq_length_filter, List.take_left]

/-- Elements are counted at their places. -/
theorem countP_eq_countP_range {q : Nat → Bool} (h : ∀ j x, xs[j]? = some x → p x = q j) :
    xs.countP p = (List.range xs.length).countP q := by
  have hfst : xs.countP p = xs.zipIdx.countP fun e => p e.1 := by
    conv => lhs; rw [← List.zipIdx_map_fst 0 xs, List.countP_map]
    rfl
  have hsnd : (List.range xs.length).countP q = xs.zipIdx.countP fun e => q e.2 := by
    rw [List.range_eq_range', ← List.zipIdx_map_snd, List.countP_map]
    rfl
  rw [hfst, hsnd]
  refine List.countP_congr fun e he => ?_
  rw [h e.2 e.1 (List.mem_zipIdx_iff_getElem?.mp he)]

end Selection

namespace ControllerSet

variable {cs : ControllerSet} {p : Controller → Bool}

/-- Positions come in the order of the list. -/
theorem pairwise_positions (cs : ControllerSet) (p : Controller → Bool) :
    (cs.positions p).Pairwise (· < ·) := by
  have hsub : (cs.positions p).Sublist (cs.zipIdx.map Prod.snd) := List.filter_sublist.map _
  rw [List.zipIdx_map_snd, ← List.range_eq_range'] at hsub
  exact List.pairwise_lt_range.sublist hsub

theorem nodup_positions (cs : ControllerSet) (p : Controller → Bool) : (cs.positions p).Nodup :=
  (cs.pairwise_positions p).imp Nat.ne_of_lt

theorem positions_append (cs ds : ControllerSet) (p : Controller → Bool) :
    (cs ++ ds).positions p = cs.positions p ++ (ds.positions p).map (cs.length + ·) := by
  have shift : ds.zipIdx cs.length = ds.zipIdx.map fun e => (e.1, cs.length + e.2) :=
    List.zipIdx_eq_map_add
  simp only [positions, List.zipIdx_append, List.filter_append, List.map_append, Nat.zero_add,
    shift, List.filter_map, List.map_map]
  rfl

/-- The `j`-th controller that satisfies a condition has `j` such controllers before it. -/
theorem getElem?_positions_iff {i j : Nat} : (cs.positions p)[j]? = some i ↔
    (∃ c, cs[i]? = some c ∧ p c = true) ∧ (cs.take i).countP p = j := by
  have place {c : Controller} (hc : cs[i]? = some c) (hp : p c = true) :
      (cs.positions p)[(cs.take i).countP p]? = some i := by
    have hi : i < cs.length := (List.getElem?_eq_some_iff.mp hc).1
    have hlen : (cs.take i).length = i := by
      rw [List.length_take]
      exact Nat.min_eq_left (Nat.le_of_lt hi)
    have e : cs.positions p = positions (cs.take i) p ++
        (positions (c :: cs.drop (i + 1)) p).map (i + ·) := by
      conv => lhs; rw [eq_take_append_cons hc, positions_append, hlen]
    rw [e, ← length_positions, List.getElem?_append_right (Nat.le_refl _), Nat.sub_self]
    simp [positions, List.zipIdx_cons, hp]
  constructor
  · intro h
    obtain ⟨c, hc, hp⟩ := mem_positions.mp (List.mem_of_getElem? h)
    refine ⟨⟨c, hc, hp⟩, ?_⟩
    obtain ⟨hlt, -⟩ := List.getElem?_eq_some_iff.mp h
    have e := h.trans (place hc hp).symm
    exact ((List.getElem?_inj hlt (cs.nodup_positions p)).mp e).symm
  · rintro ⟨⟨c, hc, hp⟩, rfl⟩
    exact place hc hp

/-- Controllers of all kinds, mixed: two directories, four sequencers and a device controller. -/
def mixed : ControllerSet :=
  [.directory 0 ⟨0, 63, by decide, by decide⟩, .sequencer 0, .dma 0, .sequencer 1,
    .directory 1 ⟨64, 127, by decide, by decide⟩, .sequencer 2, .sequencer 3]

example : mixed.positions Controller.isSequencer = [1, 3, 5, 6] := by decide

end ControllerSet

end CoherentMemory
