import CoherentMemory.Memory.Size
import CoherentMemory.Proofs.Text.Numerals

/-!
# Which texts are sizes

A size is written in base sixteen after its mark, or in decimal with an optional unit, with or
without blanks in between (`Denotes`). A text is accepted exactly if it denotes a number of
64 bits once the blanks at its ends are trimmed, and is otherwise reported as it was given
(`parse_grammar`).
-/

namespace CoherentMemory.Memory.Size

open Text

/-- The spellings of the units, each with its number of bytes. -/
def unitNames : List (List Char × Nat) :=
  [([], 1), (['B'], 1),
    (['k'], 2 ^ 10), (['k', 'B'], 2 ^ 10), (['K', 'B'], 2 ^ 10), (['K', 'i', 'B'], 2 ^ 10),
    (['M'], 2 ^ 20), (['M', 'B'], 2 ^ 20), (['M', 'i', 'B'], 2 ^ 20),
    (['G'], 2 ^ 30), (['G', 'B'], 2 ^ 30), (['G', 'i', 'B'], 2 ^ 30),
    (['T'], 2 ^ 40), (['T', 'B'], 2 ^ 40), (['T', 'i', 'B'], 2 ^ 40)]

/-- The text stands for a number of bytes. -/
inductive Denotes : List Char → Nat → Prop
  | hexadecimal {mark sign digits n} : IsMark mark → IsSign sign → Numeral 16 digits n →
      Denotes (mark ++ (sign ++ digits)) n
  | scaled {digits blanks unit n m} : Numeral 10 digits n → (∀ c ∈ blanks, isBlank c = true) →
      (unit, m) ∈ unitNames → (∀ mark, IsMark mark → ¬mark <+: digits ++ (blanks ++ unit)) →
      Denotes (digits ++ (blanks ++ unit)) (n * m)

/-! ## Units -/

theorem multiplier?_of_mem : ∀ u ∈ unitNames, multiplier? u.1 = some u.2 := by
  decide +kernel

theorem multiplier?_eq_some_iff {cs : List Char} {m : Nat} :
    multiplier? cs = some m ↔ (cs, m) ∈ unitNames := by
  constructor
  · intro h
    have hcs : (String.ofList cs).toList = cs := String.toList_ofList
    unfold multiplier? at h
    split at h <;> cases h
    all_goals
      rename_i e
      rw [e] at hcs
      subst hcs
      decide +kernel
  · exact fun h => multiplier?_of_mem _ h

theorem all_ends_unitNames : ∀ u ∈ unitNames,
    u.1.head?.all (!·.isDigit) = true ∧ u.1.head?.all (!isBlank ·) = true ∧
      u.1.getLast?.all (!isBlank ·) = true := by
  decide +kernel

/-- The spelling of a unit begins neither with a digit nor with a blank, and does not end with
a blank. -/
theorem ends_of_mem_unitNames {u : List Char × Nat} (hu : u ∈ unitNames) :
    (∀ c ∈ u.1.head?, c.isDigit = false) ∧ (∀ c ∈ u.1.head?, isBlank c = false) ∧
      ∀ c ∈ u.1.getLast?, isBlank c = false := by
  have h := all_ends_unitNames u hu
  simpa only [Option.all_eq_true, Option.mem_def, Bool.not_eq_true'] using h

section Suffix

variable {blanks unit : List Char} {m : Nat}
variable (hblanks : ∀ c ∈ blanks, isBlank c = true) (hunit : (unit, m) ∈ unitNames)
include hblanks hunit

theorem isDigit_head?_suffix : ∀ c ∈ (blanks ++ unit).head?, c.isDigit = false := by
  cases blanks with
  | nil => exact (ends_of_mem_unitNames hunit).1
  | cons b blanks =>
    rintro c ⟨⟩
    exact isDigit_eq_false_of_isBlank (hblanks b List.mem_cons_self)

theorem trim_suffix : trim (blanks ++ unit) = unit := by
  obtain ⟨-, hfirst, hlast⟩ := ends_of_mem_unitNames hunit
  exact trim_append hblanks hfirst hlast

end Suffix

/-! ## The two forms -/

/-- After a mark a numeral in base sixteen is expected. -/
theorem denotes_mark_iff {mark cs : List Char} (hmark : IsMark mark) {n : Nat} :
    Denotes (mark ++ cs) n ↔
      ∃ sign digits, cs = sign ++ digits ∧ IsSign sign ∧ Numeral 16 digits n := by
  constructor
  · intro h
    generalize htext : mark ++ cs = text at h
    cases h with
    | @hexadecimal mark' sign digits n hmark' hsign hdigits =>
      have hlen := hmark.length_eq.trans hmark'.length_eq.symm
      exact ⟨sign, digits, (List.append_inj htext hlen).2, hsign, hdigits⟩
    | scaled _ _ _ hno => exact absurd ⟨cs, htext⟩ (hno mark hmark)
  · rintro ⟨sign, digits, rfl, hsign, hdigits⟩
    exact .hexadecimal hmark hsign hdigits

/-- Without a mark a decimal numeral is expected, and the spelling of a unit among blanks. -/
theorem denotes_of_no_mark_iff {cs : List Char} (hlast : ∀ c ∈ cs.getLast?, isBlank c = false)
    (hno : ∀ mark, IsMark mark → ¬mark <+: cs) {n : Nat} :
    Denotes cs n ↔ ∃ k m, Numeral 10 (cs.takeWhile Char.isDigit) k ∧
      (trim (cs.dropWhile Char.isDigit), m) ∈ unitNames ∧ k * m = n := by
  constructor
  · intro h
    cases h with
    | @hexadecimal mark sign digits n hmark => exact absurd ⟨_, rfl⟩ (hno mark hmark)
    | @scaled digits blanks unit k m hdigits hblanks hunit =>
      obtain ⟨htake, hdrop⟩ := hdigits.takeWhile_dropWhile (isDigit_head?_suffix hblanks hunit)
      rw [htake, hdrop, trim_suffix hblanks hunit]
      exact ⟨k, m, hdigits, hunit, rfl⟩
  · rintro ⟨k, m, hdigits, hunit, rfl⟩
    have hcs : cs.takeWhile Char.isDigit ++ cs.dropWhile Char.isDigit = cs :=
      List.takeWhile_append_dropWhile
    -- the blanks in the suffix stand before the unit, since what ends the text is no blank
    rw [← hcs] at hlast
    have hsuffix := takeWhile_append_trim (isBlank_getLast?_of_append hlast)
    have hblanks : ∀ c ∈ (cs.dropWhile Char.isDigit).takeWhile isBlank, isBlank c = true :=
      fun c => List.mem_takeWhile_imp
    have hdenotes := Denotes.scaled hdigits hblanks hunit
    rw [hsuffix, hcs] at hdenotes
    exact hdenotes hno

theorem ofChars?_eq_some_iff {cs : List Char} (hlast : ∀ c ∈ cs.getLast?, isBlank c = false)
    {v : Size} : ofChars? cs = some v ↔ Denotes cs v.bytes.toNat := by
  unfold ofChars?
  split
  · rename_i ds hds
    obtain ⟨mark, hmark, rfl⟩ := hexadecimalBody?_eq_some_iff.mp hds
    rw [denotes_mark_iff hmark, ← word?_eq_some_iff, Option.map_eq_some_iff]
    constructor
    · rintro ⟨w, hw, rfl⟩
      exact hw
    · exact fun hw => ⟨v.bytes, hw, rfl⟩
  · rename_i hnone
    rw [denotes_of_no_mark_iff hlast (hexadecimalBody?_eq_none_iff.mp hnone)]
    simp only [Option.bind_eq_some_iff, natural?_eq_some_iff, multiplier?_eq_some_iff, scaled?,
      ofNat?_eq_some]
    constructor
    · rintro ⟨k, hk, m, hm, e⟩
      exact ⟨k, m, hk, hm, e.symm⟩
    · rintro ⟨k, m, hk, hm, e⟩
      exact ⟨k, hk, m, hm, e.symm⟩

theorem parse_eq_ok_iff {s : String} {v : Size} :
    parse s = .ok v ↔ Denotes (trim s.toList) v.bytes.toNat := by
  rw [← ofChars?_eq_some_iff (isBlank_getLast?_trim s.toList), parse]
  split
  · rename_i size h
    rw [h, Option.some.injEq, Except.ok.injEq]
  · rename_i h
    rw [h]
    exact iff_of_false (by rintro ⟨⟩) (by rintro ⟨⟩)

theorem exists_parse_iff {s : String} :
    (∃ v, parse s = .ok v) ↔ ∃ n < 2 ^ 64, Denotes (trim s.toList) n := by
  simp only [parse_eq_ok_iff]
  constructor
  · rintro ⟨v, h⟩
    exact ⟨_, v.toNat_bytes_lt, h⟩
  · rintro ⟨n, hn, h⟩
    refine ⟨⟨.ofNatLT n hn⟩, ?_⟩
    rwa [UInt64.toNat_ofNatLT]

theorem parse_eq_error_iff {s : String} :
    parse s = .error (.invalidSize s) ↔ ¬∃ v, parse s = .ok v := by
  unfold parse
  split
  · rename_i v h
    exact iff_of_false (by rintro ⟨⟩) fun hno => hno ⟨v, rfl⟩
  · exact iff_of_true rfl (by rintro ⟨v, ⟨⟩⟩)

/-- A text is accepted as a size exactly if, without the blanks at its ends, it denotes a number
of 64 bits; the size is that number of bytes. Any other text is reported as it was given. -/
theorem parse_grammar (s : String) :
    (∀ v, parse s = .ok v ↔ Denotes (trim s.toList) v.bytes.toNat) ∧
    ((¬∃ n < 2 ^ 64, Denotes (trim s.toList) n) ↔ parse s = .error (.invalidSize s)) := by
  refine ⟨fun v => parse_eq_ok_iff, ?_⟩
  rw [parse_eq_error_iff, exists_parse_iff]

/-- A sign is accepted after the mark only, and a number is not cut off at 64 bits. -/
example : parse " 0x+fF" = .ok ⟨255⟩ ∧ parse "+255" = .error (.invalidSize "+255") ∧
    parse "16777216 TiB" = .error (.invalidSize "16777216 TiB") := by
  decide +kernel

end CoherentMemory.Memory.Size
