import CoherentMemory.Memory.Coverage
import CoherentMemory.Proofs.Memory.SizeGrammar
import CoherentMemory.Proofs.Settings.Contents
import CoherentMemory.System.Summary

/-!
# What written sizes tell

A written size is a decimal and the name of the largest unit that divides the number of
bytes exactly (`exists_renderBytes`). Such a text denotes the number of bytes
(`denotes_written`), has no blanks and no mark of base sixteen, and is therefore read back as
it was written (`render_roundTrip`). No two numbers of bytes have the same text, numbers
beyond 64 bits included (`bytesText_injective`).
-/

namespace CoherentMemory.Memory

open Text

namespace Size

/-- The units of written sizes, the byte among them. -/
def writtenUnits : List (String × Nat) :=
  [("TiB", 2 ^ 40), ("GiB", 2 ^ 30), ("MiB", 2 ^ 20), ("KiB", 2 ^ 10), ("B", 1)]

/-- `u` is the largest unit that divides `n` bytes exactly; no bytes are counted in bytes. -/
structure IsLargestUnit (n : Nat) (u : String × Nat) : Prop where
  mem : u ∈ writtenUnits
  dvd : u.2 ∣ n
  largest : n ≠ 0 → ∀ v ∈ writtenUnits, v.2 ∣ n → v.2 ≤ u.2
  eq_byte : n = 0 → u = ("B", 1)

/-! ## The unit -/

theorem mem_writtenUnits_iff {u : String × Nat} :
    u ∈ writtenUnits ↔ (u.2, u.1) ∈ units ∨ u = ("B", 1) := by
  obtain ⟨name, unit⟩ := u
  simp only [writtenUnits, units, tib, gib, mib, kib, List.mem_cons, List.not_mem_nil,
    Prod.mk.injEq]
  grind

theorem pairwise_units : units.Pairwise fun u v => v.1 < u.1 := by
  decide

/-- The first unit that divides is the largest, since the units descend. -/
theorem le_of_find?_units {p : Nat × String → Bool} {u v : Nat × String}
    (hu : units.find? p = some u) (hv : v ∈ units) (hp : p v = true) : v.1 ≤ u.1 := by
  obtain ⟨-, before, after, heq, hbefore⟩ := List.find?_eq_some_iff_append.mp hu
  have hdesc := pairwise_units
  rw [heq] at hv hdesc
  have hafter := (List.pairwise_cons.mp (List.pairwise_append.mp hdesc).2.1).1
  rcases List.mem_append.mp hv with hv | hv
  · have hnot := hbefore v hv
    rw [hp] at hnot
    cases hnot
  · rcases List.mem_cons.mp hv with rfl | hv
    · exact Nat.le_refl _
    · exact Nat.le_of_lt (hafter v hv)

theorem exists_renderBytes (n : Nat) :
    ∃ u, IsLargestUnit n u ∧ renderBytes n = toString (n / u.2) ++ u.1 := by
  unfold renderBytes
  split
  · rename_i unit name h
    have hp : n ≠ 0 ∧ n % unit = 0 := by simpa using List.find?_some h
    have hunit := Nat.dvd_of_mod_eq_zero hp.2
    refine ⟨(name, unit), ⟨?_, hunit, fun _ v hv hdvd => ?_, fun h0 => absurd h0 hp.1⟩, rfl⟩
    · exact mem_writtenUnits_iff.mpr (.inl (List.mem_of_find?_eq_some h))
    · rcases mem_writtenUnits_iff.mp hv with hv | rfl
      · have hmod := Nat.mod_eq_zero_of_dvd hdvd
        exact le_of_find?_units h hv (by simp [hp.1, hmod])
      · exact Nat.pos_of_dvd_of_pos hunit (Nat.pos_of_ne_zero hp.1)
  · rename_i h
    have hno : ∀ u ∈ units, n ≠ 0 → ¬n % u.1 = 0 := by simpa using List.find?_eq_none.mp h
    refine ⟨("B", 1), ⟨by decide, Nat.one_dvd n, fun h0 v hv hdvd => ?_, fun _ => rfl⟩, ?_⟩
    · rcases mem_writtenUnits_iff.mp hv with hv | rfl
      · exact absurd (Nat.mod_eq_zero_of_dvd hdvd) (hno _ hv h0)
      · exact Nat.le_refl 1
    · rw [Nat.div_one]

/-! ## The text -/

theorem toList_written (k : Nat) (u : String × Nat) :
    (toString k ++ u.1).toList = decimal k ++ u.1.toList := by
  rw [String.toList_append, toList_toString]

/-- The names of the units are spellings of them, without digits at the beginning. -/
theorem name_of_mem_writtenUnits : ∀ u ∈ writtenUnits, (u.1.toList, u.2) ∈ unitNames ∧
    u.1.toList.head?.all (!·.isDigit) = true ∧
    u.1.toList.all (fun c => !isBlank c && c != 'x' && c != 'X') = true := by
  decide +kernel

/-- A unit is known by its name. -/
theorem eq_of_name_eq : ∀ u ∈ writtenUnits, ∀ v ∈ writtenUnits, u.1 = v.1 → u = v := by
  decide

section Written

variable {u : String × Nat} (hu : u ∈ writtenUnits) (k : Nat)
include hu

theorem isDigit_head?_name : ∀ c ∈ u.1.toList.head?, c.isDigit = false := by
  have h := (name_of_mem_writtenUnits u hu).2.1
  simpa only [Option.all_eq_true, Option.mem_def, Bool.not_eq_true'] using h

/-- Nothing in a written size is a blank or the letter of a mark of base sixteen. -/
theorem plain_of_mem_written {c : Char} (hc : c ∈ decimal k ++ u.1.toList) :
    isBlank c = false ∧ c ≠ 'x' ∧ c ≠ 'X' := by
  rcases List.mem_append.mp hc with hc | hc
  · have hdigit := isDigit_of_mem_decimal hc
    refine ⟨(numeral_decimal k).isBlank_eq_false hc, ?_, ?_⟩
    · rintro rfl
      cases hdigit
    · rintro rfl
      cases hdigit
  · have hname := List.all_eq_true.mp (name_of_mem_writtenUnits u hu).2.2 c hc
    simpa [and_assoc] using hname

theorem trim_written : trim (decimal k ++ u.1.toList) = decimal k ++ u.1.toList :=
  trim_eq_self fun _ hc => (plain_of_mem_written hu k hc).1

/-- A number of units denotes that many bytes. -/
theorem denotes_written : Denotes (decimal k ++ u.1.toList) (k * u.2) := by
  show Denotes (decimal k ++ ([] ++ u.1.toList)) (k * u.2)
  exact .scaled (numeral_decimal k) (List.forall_mem_nil _) (name_of_mem_writtenUnits u hu).1
    fun _ hmark => not_isMark_of_forall (fun _ hc => (plain_of_mem_written hu k hc).2) hmark

end Written

/-- What is written is read back. -/
theorem parse_render (s : Size) : parse s.render = .ok s := by
  obtain ⟨u, hu, hrender⟩ := exists_renderBytes s.bytes.toNat
  rw [parse_eq_ok_iff, render, hrender, toList_written, trim_written hu.mem]
  have hdenotes := denotes_written hu.mem (s.bytes.toNat / u.2)
  rwa [Nat.div_mul_cancel hu.dvd] at hdenotes

/-- A size is read back from its text, which is also what a report gives for it, and from its
number of bytes. Its text counts the largest unit that divides it exactly. -/
theorem render_roundTrip (s : Size) :
    parse s.render = .ok s ∧ s.toValue = .text s.render ∧ ofValue s.toValue = .ok s ∧
    ofValue (.ofNat s.bytes.toNat) = .ok s ∧
    ∃ u, IsLargestUnit s.bytes.toNat u ∧ s.render = toString (s.bytes.toNat / u.2) ++ u.1 := by
  refine ⟨parse_render s, rfl, ?_, ?_, exists_renderBytes s.bytes.toNat⟩
  · exact ofValue_eq_ok_iff.mpr (.inr ⟨s.render, rfl, parse_render s⟩)
  · exact ofValue_eq_ok_iff.mpr (.inl rfl)

/-- The largest size ends below the next gibibyte. -/
example : render ⟨18446744073709551615⟩ = "18446744073709551615B" ∧
    render ⟨18446744072635809792⟩ = "17179869183GiB" := by
  decide +kernel

end Size

/-! ## Numbers of bytes -/

open Size

/-- Numbers of bytes beyond 64 bits are written in bytes, as if no other unit divided them. -/
theorem exists_bytesText (n : Nat) :
    ∃ u ∈ writtenUnits, u.2 ∣ n ∧ (bytesText n).toList = decimal (n / u.2) ++ u.1.toList := by
  unfold bytesText
  split
  · obtain ⟨u, hu, hrender⟩ := exists_renderBytes n
    exact ⟨u, hu.mem, hu.dvd, by rw [hrender, toList_written]⟩
  · refine ⟨("B", 1), by decide, Nat.one_dvd n, ?_⟩
    rw [Nat.div_one]
    exact toList_written n ("B", 1)

/-- The digits of a text tell how many units there are, and what follows them tells the unit. -/
theorem bytesText_injective : Function.Injective bytesText := by
  intro m n h
  obtain ⟨u, hu, hm, htext⟩ := exists_bytesText m
  obtain ⟨v, hv, hn, htext'⟩ := exists_bytesText n
  rw [h, htext'] at htext
  have hcount : n / v.2 = m / u.2 :=
    decimal_append_inj htext (isDigit_head?_name hv) (isDigit_head?_name hu)
  have hname : v.1 = u.1 := by
    rw [hcount] at htext
    exact String.toList_inj.mp (List.append_cancel_left htext)
  have hunit : v = u := eq_of_name_eq v hv u hu hname
  calc m = m / u.2 * u.2 := (Nat.div_mul_cancel hm).symm
    _ = n / v.2 * v.2 := by rw [hcount, hunit]
    _ = n := Nat.div_mul_cancel hn

theorem isBlank_of_mem_bytesText {n : Nat} {c : Char} (hc : c ∈ (bytesText n).toList) :
    isBlank c = false := by
  obtain ⟨u, hu, -, htext⟩ := exists_bytesText n
  rw [htext] at hc
  exact (plain_of_mem_written hu _ hc).1

end CoherentMemory.Memory
