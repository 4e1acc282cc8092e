import CoherentMemory.Proofs.Guarded.Machine
import CoherentMemory.Proofs.Settings.Selectors
import CoherentMemory.Proofs.System.Slices
import CoherentMemory.Proofs.Text.Numerals

/-!
# Ranges of physical memory

A base address is a decimal numeral, or one in base sixteen after its mark
(`DenotesAddress`), and whatever is written as an address is read back
(`parseAddress_decimal`, `parseAddress_hexadecimal`). A range has a result exactly if it holds
an address and ends within the address space, whether it is given by its bounds
(`ofBounds_eq_ok_iff`) or by its first address and size (`ofSize_eq_ok_iff`). The bounds and
sizes are exact numbers here, so that nothing wraps around at the last address.
-/

namespace CoherentMemory

open Text

/-- The text stands for the address `n`. -/
inductive DenotesAddress : List Char → Nat → Prop
  | decimal {sign digits n} : IsSign sign → Numeral 10 digits n →
      DenotesAddress (sign ++ digits) n
  | hexadecimal {mark sign digits n} : IsMark mark → IsSign sign → Numeral 16 digits n →
      DenotesAddress (mark ++ (sign ++ digits)) n

/-! ## Addresses -/

/-- The letter of a mark is no part of a decimal numeral. -/
theorem not_isMark_decimal {mark sign digits : List Char} {n : Nat} (hmark : IsMark mark)
    (hsign : IsSign sign) (hdigits : Numeral 10 digits n) : ¬mark <+: sign ++ digits := by
  refine not_isMark_of_forall (fun c hc => ?_) hmark
  have hc : c = '+' ∨ c.isDigit = true := by
    rcases List.mem_append.mp hc with hc | hc
    · rcases hsign with rfl | rfl
      · cases hc
      · exact .inl (List.mem_singleton.mp hc)
    · obtain ⟨d, hd⟩ := hdigits.exists_isDigit hc
      exact .inr hd.isDigit
  constructor
  · rintro rfl
    exact absurd hc (by decide)
  · rintro rfl
    exact absurd hc (by decide)

/-- After a mark a numeral in base sixteen is expected. -/
theorem denotesAddress_mark_iff {mark cs : List Char} (hmark : IsMark mark) {n : Nat} :
    DenotesAddress (mark ++ cs) n ↔
      ∃ sign digits, cs = sign ++ digits ∧ IsSign sign ∧ Numeral 16 digits n := by
  constructor
  · intro h
    generalize htext : mark ++ cs = text at h
    cases h with
    | decimal hsign hdigits => exact absurd ⟨cs, htext⟩ (not_isMark_decimal hmark hsign hdigits)
    | @hexadecimal mark' sign digits n hmark' hsign hdigits =>
      have hlen := hmark.length_eq.trans hmark'.length_eq.symm
      exact ⟨sign, digits, (List.append_inj htext hlen).2, hsign, hdigits⟩
  · rintro ⟨sign, digits, rfl, hsign, hdigits⟩
    exact .hexadecimal hmark hsign hdigits

/-- Without a mark a decimal numeral is expected. -/
theorem denotesAddress_of_no_mark_iff {cs : List Char}
    (hno : ∀ mark, IsMark mark → ¬mark <+: cs) {n : Nat} :
    DenotesAddress cs n ↔
      ∃ sign digits, cs = sign ++ digits ∧ IsSign sign ∧ Numeral 10 digits n := by
  constructor
  · intro h
    cases h with
    | @decimal sign digits n hsign hdigits => exact ⟨sign, digits, rfl, hsign, hdigits⟩
    | @hexadecimal mark sign digits n hmark => exact absurd ⟨_, rfl⟩ (hno mark hmark)
  · rintro ⟨sign, digits, rfl, hsign, hdigits⟩
    exact .decimal hsign hdigits

theorem parseAddress_eq_ok_iff {s : String} {b : UInt64} :
    parseAddress s = .ok b ↔ DenotesAddress (trim s.toList) b.toNat := by
  unfold parseAddress
  cases hbody : hexadecimalBody? (trim s.toList) with
  | some ds =>
    obtain ⟨mark, hmark, htext⟩ := hexadecimalBody?_eq_some_iff.mp hbody
    rw [htext, denotesAddress_mark_iff hmark, ← word?_eq_some_iff]
    cases hw : word? 16 ds <;> simp [hbody, hw, ← htext]
  | none =>
    rw [denotesAddress_of_no_mark_iff (hexadecimalBody?_eq_none_iff.mp hbody),
      ← word?_eq_some_iff]
    cases hw : word? 10 (trim s.toList) <;> simp [hbody, hw]

theorem parseAddress_eq_error_iff {s : String} {e : ConfigError} :
    parseAddress s = .error e ↔ (¬∃ b, parseAddress s = .ok b) ∧
      e = .unreadable ("invalid address " ++ quoted (trimmed s)) := by
  unfold parseAddress trimmed
  dsimp only
  split <;> simp_all [eq_comm]

/-- An address that is written in decimal is read back. -/
theorem parseAddress_decimal (b : UInt64) : parseAddress (toString b.toNat) = .ok b := by
  have hdigits := numeral_decimal b.toNat
  have htrim : trim (decimal b.toNat) = decimal b.toNat :=
    trim_eq_self fun _ hc => hdigits.isBlank_eq_false hc
  rw [parseAddress_eq_ok_iff, toList_toString, htrim]
  exact .decimal (.inl rfl) hdigits

/-- So is one that is written in base sixteen. -/
theorem parseAddress_hexadecimal (b : UInt64) :
    parseAddress (String.ofList (hexadecimal b.toNat)) = .ok b := by
  have hdigits : Numeral 16 (Nat.toDigits 16 b.toNat) b.toNat :=
    numeral_toDigits (by decide) (by decide) _
  have htrim : trim (hexadecimal b.toNat) = hexadecimal b.toNat := by
    refine trim_eq_self fun c hc => ?_
    have hc : c ∈ ['0', 'x'] ++ Nat.toDigits 16 b.toNat := hc
    rcases List.mem_append.mp hc with hc | hc
    · rcases List.mem_pair.mp hc with rfl | rfl <;> decide
    · exact hdigits.isBlank_eq_false hc
  rw [parseAddress_eq_ok_iff, String.toList_ofList, htrim]
  exact .hexadecimal (.inl rfl) (.inl rfl) hdigits

/-! ## Bounds -/

namespace Memory.Range

/-- The range holds the `n` addresses from `base` on. -/
structure Extends (r : Range) (base n : Nat) : Prop where
  first : r.first.toNat = base
  last : r.last.toNat = base + n - 1
  size : r.size.bytes.toNat = n
  contains (x : UInt64) : r.contains x = true ↔ base ≤ x.toNat ∧ x.toNat < base + n

theorem extends_of_bounds {r : Range} {base n : Nat} (hn : 1 ≤ n) (hfirst : r.first.toNat = base)
    (hlast : r.last.toNat = base + n - 1) : r.Extends base n where
  first := hfirst
  last := hlast
  size := by
    rw [toNat_size]
    omega
  contains x := by
    rw [contains_iff]
    omega

theorem ofBounds_eq_ok_iff {first last : UInt64} {r : Range} :
    ofBounds first last = .ok r ↔ (first.toNat ≤ last.toNat ∧
      ¬(first.toNat = 0 ∧ last.toNat = 2 ^ 64 - 1)) ∧ r.first = first ∧ r.last = last := by
  have hlt := last.toNat_lt
  unfold ofBounds
  split
  · rename_i h
    obtain ⟨rfirst, rlast, hle, hspan⟩ := r
    simp only [Except.ok.injEq, mk.injEq]
    constructor
    · rintro ⟨rfl, rfl⟩
      exact ⟨⟨h.1, by omega⟩, rfl, rfl⟩
    · rintro ⟨-, rfl, rfl⟩
      exact ⟨rfl, rfl⟩
  · rename_i h
    exact iff_of_false (by rintro ⟨⟩) fun hbounds => h (by omega)

theorem ofBounds_eq_error_iff {first last : UInt64} {e : ConfigError} :
    ofBounds first last = .error e ↔ ¬(first.toNat ≤ last.toNat ∧
      ¬(first.toNat = 0 ∧ last.toNat = 2 ^ 64 - 1)) ∧ e = .invalidRange first last := by
  have hlt := last.toNat_lt
  unfold ofBounds
  split
  · rename_i h
    exact iff_of_false (by rintro ⟨⟩) fun hno => hno.1 (by omega)
  · rename_i h
    rw [Except.error.injEq, eq_comm, iff_and_self]
    intro _ hbounds
    exact h (by omega)

theorem ofSize_eq_ok_iff {base : UInt64} {size : Size} {r : Range} :
    ofSize base size = .ok r ↔ (1 ≤ size.bytes.toNat ∧
      base.toNat + size.bytes.toNat ≤ 2 ^ 64) ∧ r.Extends base.toNat size.bytes.toNat := by
  constructor
  · intro h
    obtain ⟨hfirst, hlast, -⟩ := ofSize_eq_ok h
    have hfits := exists_ofSize_iff.mp ⟨r, h⟩
    exact ⟨hfits, extends_of_bounds hfits.1 (by rw [hfirst]) (by omega)⟩
  · rintro ⟨hfits, hr⟩
    obtain ⟨r', h⟩ := exists_ofSize_iff.mpr hfits
    obtain ⟨hfirst, hlast, -⟩ := ofSize_eq_ok h
    have hfirst' : r'.first = r.first := by
      rw [hfirst]
      exact UInt64.toNat_inj.mp hr.first.symm
    have hlast' : r'.last = r.last := by
      apply UInt64.toNat_inj.mp
      rw [hr.last]
      omega
    obtain ⟨first, last, hle, hspan⟩ := r
    obtain ⟨first', last', hle', hspan'⟩ := r'
    cases hfirst'
    cases hlast'
    exact h

/-- A size of zero, and bytes beyond the last address, are reported by the bounds that
64-bit arithmetic gives them. -/
theorem eq_invalidRange_of_ofSize {base : UInt64} {size : Size} {e : ConfigError}
    (h : ofSize base size = .error e) : e = .invalidRange base (base + size.bytes - 1) := by
  unfold ofSize at h
  dsimp only at h
  split at h
  · exact (ofBounds_eq_error_iff.mp h).2
  · exact (Except.error.inj h).symm

theorem ofSize_eq_error_iff {base : UInt64} {size : Size} {e : ConfigError} :
    ofSize base size = .error e ↔ ¬(1 ≤ size.bytes.toNat ∧
      base.toNat + size.bytes.toNat ≤ 2 ^ 64) ∧ e = .invalidRange base (base + size.bytes - 1) := by
  rw [← exists_ofSize_iff]
  constructor
  · intro h
    exact ⟨by simp [h], eq_invalidRange_of_ofSize h⟩
  · rintro ⟨hno, rfl⟩
    cases h : ofSize base size with
    | ok r => exact absurd ⟨r, h⟩ hno
    | error e => rw [eq_invalidRange_of_ofSize h]

/-- Every range is the one of its size from its first address on. -/
theorem ofSize_size (r : Range) : ofSize r.first r.size = .ok r := by
  have hle := r.first_le_last
  have hlast := r.last.toNat_lt
  have hsize := r.toNat_size
  rw [ofSize_eq_ok_iff]
  exact ⟨by omega, extends_of_bounds (by omega) rfl (by omega)⟩

end Memory.Range

/-! ## Physical memory -/

theorem range_eq_ok_iff {m : PhysicalMemory} {r : Memory.Range} :
    m.range = .ok r ↔ ∃ b < 2 ^ 64, DenotesAddress (trim m.base.toList) b ∧
      (1 ≤ m.size.bytes.toNat ∧ b + m.size.bytes.toNat ≤ 2 ^ 64) ∧
      r.Extends b m.size.bytes.toNat := by
  simp only [PhysicalMemory.range, PhysicalMemory.baseAddress, bind_eq_ok, parseAddress_eq_ok_iff,
    Memory.Range.ofSize_eq_ok_iff]
  constructor
  · rintro ⟨b, hb, h⟩
    exact ⟨b.toNat, b.toNat_lt, hb, h⟩
  · rintro ⟨b, hlt, hb, h⟩
    refine ⟨.ofNatLT b hlt, ?_⟩
    rw [UInt64.toNat_ofNatLT]
    exact ⟨hb, h⟩

theorem range_eq_error_iff {m : PhysicalMemory} {e : ConfigError} :
    m.range = .error e ↔
      (¬∃ b < 2 ^ 64, DenotesAddress (trim m.base.toList) b) ∧
        e = .unreadable ("invalid address " ++ quoted (trimmed m.base)) ∨
      ∃ b : UInt64, DenotesAddress (trim m.base.toList) b.toNat ∧
        ¬(1 ≤ m.size.bytes.toNat ∧ b.toNat + m.size.bytes.toNat ≤ 2 ^ 64) ∧
        e = .invalidRange b (b + m.size.bytes - 1) := by
  have hexists : (∃ b < 2 ^ 64, DenotesAddress (trim m.base.toList) b) ↔
      ∃ b, parseAddress m.base = .ok b := by
    simp only [parseAddress_eq_ok_iff]
    constructor
    · rintro ⟨b, hlt, hb⟩
      exact ⟨.ofNatLT b hlt, by rwa [UInt64.toNat_ofNatLT]⟩
    · rintro ⟨b, hb⟩
      exact ⟨b.toNat, b.toNat_lt, hb⟩
  rw [hexists]
  simp only [PhysicalMemory.range, PhysicalMemory.baseAddress, bind_eq_error,
    parseAddress_eq_error_iff, ← parseAddress_eq_ok_iff, Memory.Range.ofSize_eq_error_iff]

/-- Physical memory has a range exactly if its base denotes an address of 64 bits, it is not
empty, and it ends within the address space; the range holds as many addresses as the size
says, from the base on. A base that cannot be read and a size that does not fit are reported
in this order. What is written as an address denotes it. Bounds are those of a range exactly if
they are in order and not the whole address space, whose size alone would not fit; no
arithmetic fails in the size of a range, and the size gives the range back. -/
theorem range_exact :
    (∀ (m : PhysicalMemory) (r : Memory.Range), m.range = .ok r ↔
      ∃ b < 2 ^ 64, DenotesAddress (trim m.base.toList) b ∧
        (1 ≤ m.size.bytes.toNat ∧ b + m.size.bytes.toNat ≤ 2 ^ 64) ∧
        r.Extends b m.size.bytes.toNat) ∧
    (∀ (m : PhysicalMemory) (e : ConfigError), m.range = .error e ↔
      (¬∃ b < 2 ^ 64, DenotesAddress (trim m.base.toList) b) ∧
        e = .unreadable ("invalid address " ++ quoted (trimmed m.base)) ∨
      ∃ b : UInt64, DenotesAddress (trim m.base.toList) b.toNat ∧
        ¬(1 ≤ m.size.bytes.toNat ∧ b.toNat + m.size.bytes.toNat ≤ 2 ^ 64) ∧
        e = .invalidRange b (b + m.size.bytes - 1)) ∧
    (∀ b : UInt64, parseAddress (toString b.toNat) = .ok b ∧
      parseAddress (String.ofList (hexadecimal b.toNat)) = .ok b) ∧
    (∀ first last : UInt64,
      (∀ r, Memory.Range.ofBounds first last = .ok r ↔ (first.toNat ≤ last.toNat ∧
        ¬(first.toNat = 0 ∧ last.toNat = 2 ^ 64 - 1)) ∧ r.first = first ∧ r.last = last) ∧
      ∀ e, Memory.Range.ofBounds first last = .error e ↔ ¬(first.toNat ≤ last.toNat ∧
        ¬(first.toNat = 0 ∧ last.toNat = 2 ^ 64 - 1)) ∧ e = .invalidRange first last) ∧
    ∀ r : Memory.Range, Guarded.rangeSize r = .ok r.size.bytes.toNat ∧
      r.size.bytes.toNat = r.last.toNat - r.first.toNat + 1 ∧
      Memory.Range.ofSize r.first r.size = .ok r := by
  refine ⟨fun _ _ => range_eq_ok_iff, fun _ _ => range_eq_error_iff, fun b => ?_,
    fun _ _ => ⟨fun _ => Memory.Range.ofBounds_eq_ok_iff, fun _ =>
      Memory.Range.ofBounds_eq_error_iff⟩, fun r => ?_⟩
  · exact ⟨parseAddress_decimal b, parseAddress_hexadecimal b⟩
  · exact ⟨Guarded.rangeSize_eq r, r.toNat_size, Memory.Range.ofSize_size r⟩

/-- The last address is a range of its own, and there is no address after it. -/
example : PhysicalMemory.range ⟨" 0X+ffffffffffffffff ", ⟨1⟩⟩ =
      .ok ⟨18446744073709551615, 18446744073709551615, by decide, by decide⟩ ∧
    PhysicalMemory.range ⟨"18446744073709551615", ⟨2⟩⟩ =
      .error (.invalidRange 18446744073709551615 0) := by
  decide +kernel

end CoherentMemory
