import CoherentMemory.Text.Blank
import CoherentMemory.Text.Numeral
import Mathlib

/-!
# What numerals denote

A numeral is one or more digits, and stands for the number that they write in its base
(`Numeral`). The readers accept exactly the numerals, with leading zeros or without:
`natural?_eq_some_iff` for digits alone, `unsigned?_eq_some_iff` after at most one plus
sign, `word?_eq_some_iff` for the numbers of 64 bits, `hexadecimalBody?_eq_some_iff` for the
mark of base sixteen. What is written is a numeral (`numeral_toDigits`). A numeral ends where
something follows that is no digit (`Numeral.takeWhile_dropWhile`), so that no two numbers have
the same decimal, whatever follows it (`decimal_append_inj`).
-/

namespace CoherentMemory.Text

/-- The digits of the bases up to sixteen, with letters in lower case. -/
def lowerDigits : List Char :=
  ['0', '1', '2', '3', '4', '5', '6', '7', '8', '9', 'a', 'b', 'c', 'd', 'e', 'f']

/-- The digits of the bases up to sixteen, with letters in upper case. -/
def upperDigits : List Char :=
  ['0', '1', '2', '3', '4', '5', '6', '7', '8', '9', 'A', 'B', 'C', 'D', 'E', 'F']

/-- `c` is the digit of value `d` in a base. -/
def IsDigit (base : Nat) (c : Char) (d : Nat) : Prop :=
  d < base ∧ (lowerDigits[d]? = some c ∨ upperDigits[d]? = some c)

/-- The digits write the number `n`: one digit, or those of a number and one more. -/
inductive Numeral (base : Nat) : List Char → Nat → Prop
  | digit {c d} : IsDigit base c d → Numeral base [c] d
  | concat {cs n c d} : Numeral base cs n → IsDigit base c d →
      Numeral base (cs ++ [c]) (base * n + d)

/-- At most one plus sign. -/
def IsSign (cs : List Char) : Prop :=
  cs = [] ∨ cs = ['+']

/-- The mark before a numeral in base sixteen. -/
def IsMark (cs : List Char) : Prop :=
  cs = ['0', 'x'] ∨ cs = ['0', 'X']

/-! ## Digits -/

variable {base : Nat}

theorem isDigit_of_digit?_ofNat : ∀ n < 128, ∀ d < 16, digit? 16 (Char.ofNat n) = some d →
    lowerDigits[d]? = some (Char.ofNat n) ∨ upperDigits[d]? = some (Char.ofNat n) := by
  decide +kernel

theorem digit?_getElem? : ∀ d < 16, lowerDigits[d]?.bind (digit? 16) = some d ∧
    upperDigits[d]?.bind (digit? 16) = some d := by
  decide

/-- The base only decides how many of the digits there are. -/
theorem digit?_eq_some {c : Char} {d : Nat} :
    digit? base c = some d ↔ d < base ∧ digit? 16 c = some d := by
  simp only [digit?]
  grind

theorem digit?_eq_some_iff {c : Char} {d : Nat} : digit? base c = some d ↔ IsDigit base c d := by
  rw [digit?_eq_some, IsDigit]
  refine and_congr_right fun _ => ?_
  constructor
  · intro h
    have hd : d < 16 := (digit?_eq_some.mp h).1
    have hc : c.toNat < 128 := by
      simp only [digit?] at h
      grind
    have hof := isDigit_of_digit?_ofNat c.toNat hc d hd
    rw [Char.ofNat_toNat] at hof
    exact hof h
  · intro h
    have hd : d < 16 := by
      rcases h with h | h <;> exact (List.getElem?_eq_some_iff.mp h).1
    obtain ⟨hlower, hupper⟩ := digit?_getElem? d hd
    rcases h with h | h
    · rwa [h] at hlower
    · rwa [h] at hupper

theorem isDigit_iff_toNat {c : Char} : c.isDigit = true ↔ 48 ≤ c.toNat ∧ c.toNat ≤ 57 := by
  simp only [Char.isDigit, Bool.and_eq_true, decide_eq_true_eq]
  exact Iff.rfl

/-- The digits of base ten follow each other in the order of characters. -/
theorem isDigit_ten_iff {c : Char} {d : Nat} :
    IsDigit 10 c d ↔ c.isDigit = true ∧ c.toNat - '0'.toNat = d := by
  have hzero : '0'.toNat = 48 := rfl
  rw [← digit?_eq_some_iff, isDigit_iff_toNat, hzero, digit?]
  grind

theorem IsDigit.isDigit {c : Char} {d : Nat} (h : IsDigit 10 c d) : c.isDigit = true :=
  (isDigit_ten_iff.mp h).1

/-- The plus sign is no digit. -/
theorem IsDigit.ne_plus {c : Char} {d : Nat} (h : IsDigit base c d) : c ≠ '+' := by
  rintro rfl
  cases (digit?_eq_some.mp (digit?_eq_some_iff.mpr h)).2

theorem isBlank_getElem? : ∀ d < 16, lowerDigits[d]?.any isBlank = false ∧
    upperDigits[d]?.any isBlank = false := by
  decide

/-- A digit is no blank. -/
theorem IsDigit.isBlank_eq_false {c : Char} {d : Nat} (h : IsDigit base c d) :
    isBlank c = false := by
  have hd : d < 16 := (digit?_eq_some.mp (digit?_eq_some.mp (digit?_eq_some_iff.mpr h)).2).1
  obtain ⟨hlower, hupper⟩ := isBlank_getElem? d hd
  rcases h.2 with h | h
  · rwa [h] at hlower
  · rwa [h] at hupper

/-! ## Numerals -/

theorem Numeral.ne_nil {cs : List Char} {n : Nat} (h : Numeral base cs n) : cs ≠ [] := by
  cases h with
  | digit => exact List.cons_ne_nil _ _
  | concat => exact List.append_ne_nil_of_right_ne_nil _ (List.cons_ne_nil _ _)

/-- Every character of a numeral is a digit. -/
theorem Numeral.exists_isDigit {cs : List Char} {n : Nat} (h : Numeral base cs n) {c : Char}
    (hc : c ∈ cs) : ∃ d, IsDigit base c d := by
  induction h with
  | digit hd => exact List.mem_singleton.mp hc ▸ ⟨_, hd⟩
  | concat _ hd ih =>
    rcases List.mem_append.mp hc with hc | hc
    · exact ih hc
    · exact List.mem_singleton.mp hc ▸ ⟨_, hd⟩

/-- Nothing in a numeral is a blank. -/
theorem Numeral.isBlank_eq_false {cs : List Char} {n : Nat} (h : Numeral base cs n) {c : Char}
    (hc : c ∈ cs) : isBlank c = false := by
  obtain ⟨d, hd⟩ := h.exists_isDigit hc
  exact hd.isBlank_eq_false

theorem natural?_of_ne_nil {cs : List Char} (h : cs ≠ []) :
    natural? base cs = valueFrom? base 0 cs := by
  cases cs with
  | nil => exact absurd rfl h
  | cons c cs => rfl

theorem valueFrom?_concat_eq_some {acc n : Nat} {cs : List Char} {c : Char} :
    valueFrom? base acc (cs ++ [c]) = some n ↔
      ∃ m d, valueFrom? base acc cs = some m ∧ IsDigit base c d ∧ base * m + d = n := by
  simp only [valueFrom?_append, valueFrom?, Option.bind_eq_some_iff, Option.some.injEq,
    digit?_eq_some_iff]
  constructor
  · rintro ⟨m, hm, d, hd, e⟩
    exact ⟨m, d, hm, hd, e⟩
  · rintro ⟨m, d, hm, hd, e⟩
    exact ⟨m, hm, d, hd, e⟩

theorem Numeral.valueFrom?_eq {cs : List Char} {n : Nat} (h : Numeral base cs n) :
    valueFrom? base 0 cs = some n := by
  induction h with
  | @digit c d hd =>
    have e : base * 0 + d = d := by rw [Nat.mul_zero, Nat.zero_add]
    show valueFrom? base 0 ([] ++ [c]) = some d
    exact valueFrom?_concat_eq_some.mpr ⟨0, d, rfl, hd, e⟩
  | concat _ hd ih => exact valueFrom?_concat_eq_some.mpr ⟨_, _, ih, hd, rfl⟩

theorem numeral_of_valueFrom? {cs : List Char} {n : Nat} (hne : cs ≠ [])
    (h : valueFrom? base 0 cs = some n) : Numeral base cs n := by
  induction cs using List.reverseRecOn generalizing n with
  | nil => exact absurd rfl hne
  | append_singleton cs c ih =>
    obtain ⟨m, d, hm, hd, rfl⟩ := valueFrom?_concat_eq_some.mp h
    by_cases e : cs = []
    · subst e
      cases hm
      rw [Nat.mul_zero, Nat.zero_add]
      exact .digit hd
    · exact .concat (ih e hm) hd

/-- Digits alone are read exactly if they are a numeral. -/
theorem natural?_eq_some_iff {cs : List Char} {n : Nat} :
    natural? base cs = some n ↔ Numeral base cs n := by
  by_cases e : cs = []
  · subst e
    exact ⟨nofun, fun h => absurd rfl h.ne_nil⟩
  · rw [natural?_of_ne_nil e]
    exact ⟨numeral_of_valueFrom? e, Numeral.valueFrom?_eq⟩

/-- Before a numeral at most one plus sign is accepted. -/
theorem unsigned?_eq_some_iff {cs : List Char} {n : Nat} : unsigned? base cs = some n ↔
    ∃ sign digits, cs = sign ++ digits ∧ IsSign sign ∧ Numeral base digits n := by
  constructor
  · intro h
    unfold unsigned? at h
    split at h
    · exact ⟨['+'], _, rfl, .inr rfl, natural?_eq_some_iff.mp h⟩
    · exact ⟨[], _, rfl, .inl rfl, natural?_eq_some_iff.mp h⟩
  · rintro ⟨sign, digits, rfl, rfl | rfl, h⟩
    · rw [List.nil_append, unsigned?]
      · exact natural?_eq_some_iff.mpr h
      · rintro cs rfl
        obtain ⟨d, hd⟩ := h.exists_isDigit List.mem_cons_self
        exact hd.ne_plus rfl
    · exact natural?_eq_some_iff.mpr h

theorem word?_eq_some_iff {cs : List Char} {w : UInt64} : word? base cs = some w ↔
    ∃ sign digits, cs = sign ++ digits ∧ IsSign sign ∧ Numeral base digits w.toNat := by
  rw [← unsigned?_eq_some_iff, word?, Option.bind_eq_some_iff]
  constructor
  · rintro ⟨n, hn, h⟩
    split at h
    · cases h
      rw [UInt64.toNat_ofNatLT]
      exact hn
    · cases h
  · intro h
    refine ⟨_, h, ?_⟩
    rw [dif_pos w.toNat_lt_size]
    exact congrArg some (UInt64.toNat_inj.mp UInt64.toNat_ofNatLT)

/-- In base ten the numerals are the runs of digits, each for the number that they add up to. -/
theorem numeral_ten_iff {cs : List Char} {n : Nat} : Numeral 10 cs n ↔
    cs ≠ [] ∧ (∀ c ∈ cs, c.isDigit = true) ∧ Nat.ofDigitChars 10 cs 0 = n := by
  constructor
  · intro h
    refine ⟨h.ne_nil, fun c hc => ?_, ?_⟩
    · obtain ⟨d, hd⟩ := h.exists_isDigit hc
      exact hd.isDigit
    · induction h with
      | digit hd =>
        rw [Nat.ofDigitChars_cons, Nat.ofDigitChars_nil, (isDigit_ten_iff.mp hd).2, Nat.mul_zero,
          Nat.zero_add]
      | concat _ hd ih =>
        rw [Nat.ofDigitChars_append, ih, Nat.ofDigitChars_cons, Nat.ofDigitChars_nil,
          (isDigit_ten_iff.mp hd).2]
  · rintro ⟨hne, hdigits, rfl⟩
    induction cs using List.reverseRecOn with
    | nil => exact absurd rfl hne
    | append_singleton cs c ih =>
      have hc := isDigit_ten_iff.mpr ⟨hdigits c (by simp), rfl⟩
      rw [Nat.ofDigitChars_append, Nat.ofDigitChars_cons, Nat.ofDigitChars_nil]
      by_cases e : cs = []
      · subst e
        rw [Nat.ofDigitChars_nil, Nat.mul_zero, Nat.zero_add]
        exact .digit hc
      · exact .concat (ih e fun c hc => hdigits c (List.mem_append_left _ hc)) hc

/-! ## Written numerals -/

theorem getElem?_lowerDigits : ∀ d < 16, lowerDigits[d]? = some d.digitChar := by
  decide

theorem isDigit_digitChar {d : Nat} (h : d < base) (hbase : base ≤ 16) :
    IsDigit base d.digitChar d :=
  ⟨h, .inl (getElem?_lowerDigits d (Nat.lt_of_lt_of_le h hbase))⟩

/-- The written digits of a number are a numeral for it. -/
theorem numeral_toDigits (h : 1 < base) (hbase : base ≤ 16) (n : Nat) :
    Numeral base (Nat.toDigits base n) n := by
  induction n using Nat.strongRecOn with
  | ind n ih =>
    by_cases hn : n < base
    · rw [Nat.toDigits_of_lt_base hn]
      exact .digit (isDigit_digitChar hn hbase)
    · have hpos : 0 < base := Nat.zero_lt_of_lt h
      have hlast := isDigit_digitChar (Nat.mod_lt n hpos) hbase
      have hdigits := Numeral.concat (ih (n / base) (Nat.div_lt_self (by omega) h)) hlast
      rw [Nat.div_add_mod] at hdigits
      rwa [Nat.toDigits_eq_if h, if_neg hn]

theorem numeral_decimal (n : Nat) : Numeral 10 (decimal n) n :=
  numeral_toDigits (by decide) (by decide) n

theorem toList_toString (n : Nat) : (toString n).toList = decimal n := by
  rw [Nat.toString_eq_repr, Nat.toList_repr]
  rfl

/-! ## Marks -/

theorem IsMark.length_eq {mark : List Char} (h : IsMark mark) : mark.length = 2 := by
  rcases h with rfl | rfl <;> rfl

/-- A text without the letter of the mark does not begin with one. -/
theorem not_isMark_of_forall {cs : List Char} (h : ∀ c ∈ cs, c ≠ 'x' ∧ c ≠ 'X')
    {mark : List Char} (hmark : IsMark mark) : ¬mark <+: cs := by
  intro hm
  rcases hmark with rfl | rfl
  · exact (h 'x' (hm.subset (by simp))).1 rfl
  · exact (h 'X' (hm.subset (by simp))).2 rfl

theorem hexadecimalBody?_eq_some_iff {cs ds : List Char} :
    hexadecimalBody? cs = some ds ↔ ∃ mark, IsMark mark ∧ cs = mark ++ ds := by
  constructor
  · intro h
    unfold hexadecimalBody? at h
    split at h
    · cases h
      exact ⟨_, .inl rfl, rfl⟩
    · cases h
      exact ⟨_, .inr rfl, rfl⟩
    · cases h
  · rintro ⟨mark, rfl | rfl, rfl⟩ <;> rfl

theorem hexadecimalBody?_eq_none_iff {cs : List Char} :
    hexadecimalBody? cs = none ↔ ∀ mark, IsMark mark → ¬mark <+: cs := by
  rw [Option.eq_none_iff_forall_ne_some]
  constructor
  · rintro h mark hmark ⟨ds, rfl⟩
    exact h ds (hexadecimalBody?_eq_some_iff.mpr ⟨mark, hmark, rfl⟩)
  · intro h ds hds
    obtain ⟨mark, hmark, rfl⟩ := hexadecimalBody?_eq_some_iff.mp hds
    exact h mark hmark ⟨ds, rfl⟩

/-! ## Runs of digits -/

/-- A run of characters ends where another kind of character follows. -/
theorem takeWhile_dropWhile_append {p : Char → Bool} {cs ds : List Char}
    (hcs : ∀ c ∈ cs, p c = true) (hds : ∀ d ∈ ds.head?, p d = false) :
    (cs ++ ds).takeWhile p = cs ∧ (cs ++ ds).dropWhile p = ds := by
  rw [List.takeWhile_append_of_pos hcs, List.dropWhile_append_of_pos hcs]
  cases ds with
  | nil => exact ⟨List.append_nil cs, rfl⟩
  | cons d ds =>
    have hd : ¬p d = true := Bool.eq_false_iff.mp (hds d rfl)
    rw [List.takeWhile_cons_of_neg hd, List.dropWhile_cons_of_neg hd]
    exact ⟨List.append_nil cs, rfl⟩

/-- Blanks before a text that neither begins nor ends with one are trimmed. -/
theorem trim_append {blanks cs : List Char} (hblanks : ∀ c ∈ blanks, isBlank c = true)
    (hfirst : ∀ c ∈ cs.head?, isBlank c = false) (hlast : ∀ c ∈ cs.getLast?, isBlank c = false) :
    trim (blanks ++ cs) = cs := by
  rw [trim, trimStart, (takeWhile_dropWhile_append hblanks hfirst).2, trimEnd_eq_self hlast]

theorem Numeral.takeWhile_dropWhile {digits cs : List Char} {n : Nat} (h : Numeral 10 digits n)
    (hcs : ∀ c ∈ cs.head?, c.isDigit = false) :
    (digits ++ cs).takeWhile Char.isDigit = digits ∧
      (digits ++ cs).dropWhile Char.isDigit = cs := by
  refine takeWhile_dropWhile_append (fun c hc => ?_) hcs
  obtain ⟨d, hd⟩ := h.exists_isDigit hc
  exact hd.isDigit

/-- A blank is no digit. -/
theorem isDigit_eq_false_of_isBlank {c : Char} (h : isBlank c = true) : c.isDigit = false := by
  rw [Bool.eq_false_iff]
  intro hd
  obtain ⟨hlow, hhigh⟩ := isDigit_iff_toNat.mp hd
  simp only [isBlank, blankRanges, List.any_cons, List.any_nil, Bool.or_false, Bool.or_eq_true,
    Bool.and_eq_true, decide_eq_true_eq] at h
  omega

theorem decimal_inj {m n : Nat} (h : decimal m = decimal n) : m = n := by
  have hm := natural?_decimal m
  rw [h, natural?_decimal] at hm
  exact (Option.some.inj hm).symm

theorem takeWhile_decimal_append (n : Nat) {cs : List Char}
    (h : ∀ c ∈ cs.head?, c.isDigit = false) :
    (decimal n ++ cs).takeWhile Char.isDigit = decimal n :=
  (takeWhile_dropWhile_append (fun _ => isDigit_of_mem_decimal) h).1

/-- A decimal tells its number, whatever follows that is no digit. -/
theorem decimal_append_inj {m n : Nat} {cs ds : List Char} (h : decimal m ++ cs = decimal n ++ ds)
    (hcs : ∀ c ∈ cs.head?, c.isDigit = false) (hds : ∀ d ∈ ds.head?, d.isDigit = false) :
    m = n := by
  apply decimal_inj
  rw [← takeWhile_decimal_append m hcs, h, takeWhile_decimal_append n hds]

end CoherentMemory.Text
