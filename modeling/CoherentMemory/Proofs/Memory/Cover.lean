import CoherentMemory.Memory.Coverage
import Mathlib.Algebra.BigOperators.Group.Finset.Piecewise
import Mathlib.Algebra.Order.BigOperators.Group.Finset
import Mathlib.Order.Interval.Finset.Nat

/-!
# Ranges that divide up a memory

Ranges divide up a memory when every address of it lies in exactly one of them, and
any other address in none (`Partitions`). Their sizes then add up to that of the
memory, but this alone does not suffice. The sum of the sizes counts each address as
often as it is held (`sum_holders`), so that of two further conditions each one makes
up for what is missing: the ranges lie in the memory and apart
(`partitions_iff_pairwise_apart`), or together they cover it (`partitions_iff_covers`).

Ranges that follow each other without a gap (`Tiles`) lie apart, and hold all addresses
from the first to the last.
-/

namespace CoherentMemory.Memory

/-- The number of ranges that hold an address. -/
def holders (rs : List Range) (a : UInt64) : Nat :=
  rs.countP (·.contains a)

/-- Every address of the memory lies in exactly one range, any other in none. -/
def Partitions (rs : List Range) (memory : Range) : Prop :=
  ∀ a, holders rs a = if memory.contains a then 1 else 0

namespace Range

/-- The ranges have no address in common. -/
def Apart (r s : Range) : Prop :=
  r.last < s.first ∨ s.last < r.first

/-- All addresses of the one range lie in the other. -/
def Within (r s : Range) : Prop :=
  s.first ≤ r.first ∧ r.last ≤ s.last

instance (r s : Range) : Decidable (r.Apart s) :=
  inferInstanceAs (Decidable (_ ∨ _))

instance (r s : Range) : Decidable (r.Within s) :=
  inferInstanceAs (Decidable (_ ∧ _))

theorem contains_first (r : Range) : r.contains r.first = true :=
  (r.contains_iff _).mpr ⟨Nat.le_refl _, r.first_le_last⟩

theorem contains_last (r : Range) : r.contains r.last = true :=
  (r.contains_iff _).mpr ⟨r.first_le_last, Nat.le_refl _⟩

theorem apart_iff (r s : Range) :
    r.Apart s ↔ ∀ a, ¬(r.contains a = true ∧ s.contains a = true) := by
  simp only [Apart, UInt64.lt_iff_toNat_lt, contains_iff]
  constructor
  · intro h a ha
    omega
  · intro h
    -- a common address would be the first of the one or of the other
    have hr := h r.first
    have hs := h s.first
    have := r.first_le_last
    have := s.first_le_last
    omega

theorem within_iff (r s : Range) :
    r.Within s ↔ ∀ a, r.contains a = true → s.contains a = true := by
  simp only [Within, UInt64.le_iff_toNat_le]
  constructor
  · intro h a ha
    rw [contains_iff] at ha ⊢
    omega
  · intro h
    exact ⟨((s.contains_iff _).mp (h _ r.contains_first)).1,
      ((s.contains_iff _).mp (h _ r.contains_last)).2⟩

end Range

/-! ## Counting -/

/-- The range holds as many addresses as it has bytes. -/
theorem sum_contains (r : Range) :
    ∑ n ∈ Finset.range UInt64.size, (if r.contains (.ofNat n) then 1 else 0) =
      r.size.bytes.toNat := by
  have e : (Finset.range UInt64.size).filter (fun n => r.contains (.ofNat n) = true) =
      Finset.Icc r.first.toNat r.last.toNat := by
    ext n
    rw [Finset.mem_filter, Finset.mem_range, Finset.mem_Icc]
    constructor
    · rintro ⟨hn, h⟩
      rwa [Range.contains_iff, UInt64.toNat_ofNat_of_lt' hn] at h
    · intro h
      have hn : n < UInt64.size := Nat.lt_of_le_of_lt h.2 r.last.toNat_lt_size
      rw [Range.contains_iff, UInt64.toNat_ofNat_of_lt' hn]
      exact ⟨hn, h⟩
  have hle := r.first_le_last
  rw [← Finset.card_filter, e, Nat.card_Icc, Range.toNat_size]
  omega

theorem holders_cons (r : Range) (rs : List Range) (a : UInt64) :
    holders (r :: rs) a = holders rs a + if r.contains a then 1 else 0 := by
  rw [holders, List.countP_cons]
  rfl

/-- The sizes of ranges count each address as often as it is held. -/
theorem sum_holders (rs : List Range) :
    ∑ n ∈ Finset.range UInt64.size, holders rs (.ofNat n) = bytesIn rs := by
  induction rs with
  | nil => exact Finset.sum_const_zero
  | cons r rs ih =>
    simp only [holders_cons, Finset.sum_add_distrib, ih, sum_contains, bytesIn_cons]
    exact Nat.add_comm _ _

section Total

variable {rs : List Range} {memory : Range}
variable (hsum : bytesIn rs = memory.size.bytes.toNat)
include hsum

theorem partitions_of_forall_le (h : ∀ a, holders rs a ≤ if memory.contains a then 1 else 0) :
    Partitions rs memory := by
  rw [← sum_holders, ← sum_contains] at hsum
  intro a
  have ha := (Finset.sum_eq_sum_iff_of_le fun n _ => h (.ofNat n)).mp hsum a.toNat
    (Finset.mem_range.mpr a.toNat_lt)
  rwa [UInt64.ofNat_toNat] at ha

theorem partitions_of_forall_ge (h : ∀ a, (if memory.contains a then 1 else 0) ≤ holders rs a) :
    Partitions rs memory := by
  rw [← sum_holders, ← sum_contains] at hsum
  intro a
  have ha := (Finset.sum_eq_sum_iff_of_le fun n _ => h (.ofNat n)).mp hsum.symm a.toNat
    (Finset.mem_range.mpr a.toNat_lt)
  rw [UInt64.ofNat_toNat] at ha
  exact ha.symm

end Total

/-! ## Conditions -/

theorem holders_pos {rs : List Range} {a : UInt64} :
    0 < holders rs a ↔ ∃ r ∈ rs, r.contains a = true :=
  List.countP_pos_iff

/-- No address is held twice by ranges that lie apart. -/
theorem pairwise_apart_iff {rs : List Range} :
    rs.Pairwise Range.Apart ↔ ∀ a, holders rs a ≤ 1 := by
  induction rs with
  | nil => exact ⟨fun _ _ => Nat.zero_le 1, fun _ => .nil⟩
  | cons r rs ih =>
    rw [List.pairwise_cons, ih]
    constructor
    · rintro ⟨hr, hrs⟩ a
      rw [holders_cons]
      by_cases ha : r.contains a = true
      · have hz : ¬0 < holders rs a := by
          rw [holders_pos]
          rintro ⟨s, hs, hsa⟩
          exact (r.apart_iff s).mp (hr s hs) a ⟨ha, hsa⟩
        rw [if_pos ha]
        omega
      · rw [if_neg ha]
        exact hrs a
    · intro h
      refine ⟨fun s hs => (r.apart_iff s).mpr fun a ha => ?_, fun a => ?_⟩
      · have hpos := holders_pos.mpr ⟨s, hs, ha.2⟩
        have hle := h a
        rw [holders_cons, if_pos ha.1] at hle
        omega
      · have hle := h a
        rw [holders_cons] at hle
        omega

theorem Partitions.pairwise_apart {rs : List Range} {memory : Range} (h : Partitions rs memory) :
    rs.Pairwise Range.Apart := by
  refine pairwise_apart_iff.mpr fun a => ?_
  rw [h a]
  split <;> decide

theorem Partitions.within {rs : List Range} {memory : Range} (h : Partitions rs memory) {r : Range}
    (hr : r ∈ rs) : r.Within memory := by
  refine (r.within_iff memory).mpr fun a ha => ?_
  have hpos := holders_pos.mpr ⟨r, hr, ha⟩
  by_contra hm
  rw [h a, if_neg hm] at hpos
  cases hpos

/-- Ranges with the right total divide up a memory exactly when they lie in it and
apart from each other. -/
theorem partitions_iff_pairwise_apart {rs : List Range} {memory : Range}
    (hsum : bytesIn rs = memory.size.bytes.toNat) :
    Partitions rs memory ↔ rs.Pairwise Range.Apart ∧ ∀ r ∈ rs, r.Within memory := by
  refine ⟨fun h => ⟨h.pairwise_apart, fun r hr => h.within hr⟩, fun ⟨hapart, hin⟩ => ?_⟩
  refine partitions_of_forall_le hsum fun a => ?_
  split
  · exact pairwise_apart_iff.mp hapart a
  · rename_i hm
    by_contra hpos
    obtain ⟨r, hr, ha⟩ := holders_pos.mp (Nat.lt_of_not_le hpos)
    exact hm ((r.within_iff memory).mp (hin r hr) a ha)

/-- Ranges with the right total divide up a memory exactly when they cover it. -/
theorem partitions_iff_covers {rs : List Range} {memory : Range}
    (hsum : bytesIn rs = memory.size.bytes.toNat) :
    Partitions rs memory ↔ ∀ a, memory.contains a = true → ∃ r ∈ rs, r.contains a = true := by
  constructor
  · intro h a ha
    rw [← holders_pos, h a, if_pos ha]
    exact Nat.one_pos
  · intro h
    refine partitions_of_forall_ge hsum fun a => ?_
    split
    · rename_i ha
      exact holders_pos.mpr (h a ha)
    · exact Nat.zero_le _

/-! ## Ranges in a row -/

/-- The ranges follow each other without a gap, from `a` up to `b`. -/
inductive Tiles : Nat → List Range → Nat → Prop
  | nil (a : Nat) : Tiles a [] a
  | cons {a b : Nat} {r : Range} {rs : List Range} : r.first.toNat = a →
      Tiles (r.last.toNat + 1) rs b → Tiles a (r :: rs) b

namespace Tiles

variable {a b : Nat} {rs : List Range}

/-- The ranges hold all addresses from `a` up to `b`. -/
theorem add_bytesIn (h : Tiles a rs b) : a + bytesIn rs = b := by
  induction h with
  | nil a => exact Nat.add_zero a
  | @cons a b r rs hfirst _ ih =>
    have := r.first_le_last
    rw [bytesIn_cons, Range.toNat_size]
    omega

theorem bounds (h : Tiles a rs b) {r : Range} (hr : r ∈ rs) :
    a ≤ r.first.toNat ∧ r.last.toNat < b := by
  induction h with
  | nil a => cases hr
  | @cons a b s rs hfirst htail ih =>
    have := s.first_le_last
    have := htail.add_bytesIn
    rcases List.mem_cons.mp hr with rfl | hr
    · omega
    · have := ih hr
      omega

theorem pairwise_apart (h : Tiles a rs b) : rs.Pairwise Range.Apart := by
  induction h with
  | nil a => exact .nil
  | cons _ htail ih =>
    refine List.pairwise_cons.mpr ⟨fun s hs => .inl ?_, ih⟩
    exact UInt64.lt_iff_toNat_lt.mpr (htail.bounds hs).1

end Tiles

end CoherentMemory.Memory
