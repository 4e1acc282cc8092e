import CoherentMemory.Clock
import CoherentMemory.Proofs.Decimal.Nearest
import CoherentMemory.Proofs.Text.Numerals

/-!
# Which texts are clocks

A clock is written as a number and the spelling of a unit, with or without blanks in between
(`Denotes`). The number has digits and at most one point (`Number`), and stands for the value
that it is rounded to; the unit tells the frequency, as so many hertz or as the inverse of so
much time (`unitRates`). A text is accepted exactly if, once the blanks at its ends are trimmed,
it denotes a positive finite frequency (`parse_eq_ok_iff`).
-/

namespace CoherentMemory.Clock

open Text

/-- The text writes the number `x` in digits, with at most one point before, among or after
them. -/
inductive Number : List Char → ℚ → Prop
  | whole {digits n} : Numeral 10 digits n → Number digits n
  | pointed {whole fraction n} : Numeral 10 (whole ++ fraction) n →
      Number (whole ++ '.' :: fraction) (n / 10 ^ fraction.length)

/-- The spellings of the units, each with the frequency in hertz that a number of them stands
for. -/
def unitRates : List (String × (Float → Float)) :=
  [("Hz", fun x => x), ("kHz", (· * 1.0e3)), ("MHz", (· * 1.0e6)), ("GHz", (· * 1.0e9)),
    ("s", (1.0 / ·)), ("ms", (1.0e3 / ·)), ("us", (1.0e6 / ·)), ("ns", (1.0e9 / ·)),
    ("ps", (1.0e12 / ·))]

/-- The text stands for a frequency in hertz. -/
inductive Denotes : List Char → Float → Prop
  | mk {number blanks x value unit rate} : Number number x → Decimal.RoundsTo x value →
      (∀ c ∈ blanks, isBlank c = true) → (unit, rate) ∈ unitRates →
      Denotes (number ++ (blanks ++ unit.toList)) (rate value)

/-! ## Units -/

/-- A number of units stands for the frequency that the table gives for its unit. -/
theorem hertzOf?_eq_some_iff {value hertz : Float} {cs : List Char} :
    hertzOf? value cs = some hertz ↔
      ∃ unit rate, (unit, rate) ∈ unitRates ∧ unit.toList = cs ∧ rate value = hertz := by
  have hcs : ∀ unit : String, unit.toList = cs ↔ String.ofList cs = unit := by
    intro unit
    rw [← String.toList_inj, String.toList_ofList, eq_comm]
  simp only [unitRates, List.mem_cons, List.not_mem_nil, or_false, Prod.mk.injEq, hcs,
    or_and_right, exists_or, and_assoc, exists_and_left, exists_eq_left]
  unfold hertzOf?
  -- the spelling is one of the table, or different from all of them
  split <;> simp_all

/-- Digits and points, which the number of a clock consists of. -/
def isNumeric (c : Char) : Bool :=
  c.isDigit || c == '.'

theorem all_head?_unitRates : ∀ u ∈ unitRates.map Prod.fst,
    u.toList.head?.all (fun c => !isNumeric c && !isBlank c) = true ∧
      u.toList.getLast?.all (!isBlank ·) = true := by
  decide +kernel

/-- The spelling of a unit begins neither with a part of a number nor with a blank, and does not
end with a blank. -/
theorem ends_of_mem_unitRates {unit : String} {rate : Float → Float}
    (h : (unit, rate) ∈ unitRates) :
    (∀ c ∈ unit.toList.head?, isNumeric c = false ∧ isBlank c = false) ∧
      ∀ c ∈ unit.toList.getLast?, isBlank c = false := by
  have hends := all_head?_unitRates unit (List.mem_map_of_mem h)
  simpa only [Option.all_eq_true, Option.mem_def, Bool.and_eq_true, Bool.not_eq_true'] using hends

/-- A blank is no part of a number. -/
theorem isNumeric_eq_false_of_isBlank {c : Char} (h : isBlank c = true) :
    isNumeric c = false := by
  have hpoint : c ≠ '.' := by
    rintro rfl
    cases h
  rw [isNumeric, isDigit_eq_false_of_isBlank h, Bool.false_or, beq_eq_false_iff_ne]
  exact hpoint

section Suffix

variable {blanks : List Char} {unit : String} {rate : Float → Float}
variable (hblanks : ∀ c ∈ blanks, isBlank c = true) (hunit : (unit, rate) ∈ unitRates)
include hblanks hunit

theorem isNumeric_head?_suffix : ∀ c ∈ (blanks ++ unit.toList).head?, isNumeric c = false := by
  cases blanks with
  | nil => exact fun c hc => ((ends_of_mem_unitRates hunit).1 c hc).1
  | cons b blanks =>
    rintro c ⟨⟩
    exact isNumeric_eq_false_of_isBlank (hblanks b List.mem_cons_self)

theorem trim_suffix : trim (blanks ++ unit.toList) = unit.toList := by
  obtain ⟨hfirst, hlast⟩ := ends_of_mem_unitRates hunit
  exact trim_append hblanks (fun c hc => (hfirst c hc).2) hlast

end Suffix

/-! ## Numbers -/

theorem Number.isNumeric {cs : List Char} {x : ℚ} (h : Number cs x) :
    ∀ c ∈ cs, isNumeric c = true := by
  cases h with
  | whole hdigits =>
    intro c hc
    rw [Clock.isNumeric, (numeral_ten_iff.mp hdigits).2.1 c hc, Bool.true_or]
  | @pointed whole fraction n hdigits =>
    intro c hc
    rw [Clock.isNumeric, Bool.or_eq_true, beq_iff_eq]
    have hmem : c ∈ whole ++ fraction ∨ c = '.' := by
      rw [List.mem_append, List.mem_cons] at hc
      rw [List.mem_append]
      tauto
    exact hmem.imp_left ((numeral_ten_iff.mp hdigits).2.1 c)

/-- The digits before the point and those after it are read as one numeral. -/
theorem number?_append {whole rest : List Char} (hwhole : ∀ c ∈ whole, c.isDigit = true)
    (hrest : ∀ c ∈ rest.head?, c.isDigit = false) {value : Float} :
    number? (whole ++ rest) = some value ↔
      ∃ n : Nat, Numeral 10 (whole ++ rest.drop 1) n ∧
        Decimal.RoundsTo (n / 10 ^ (rest.drop 1).length) value := by
  obtain ⟨htake, hdrop⟩ := takeWhile_dropWhile_append hwhole hrest
  simp only [number?, htake, hdrop]
  generalize rest.drop 1 = fraction
  split
  · rename_i h
    refine iff_of_false (by rintro ⟨⟩) ?_
    rintro ⟨n, hn, -⟩
    obtain ⟨hne, hdigits, -⟩ := numeral_ten_iff.mp hn
    rw [Bool.or_eq_true, List.isEmpty_iff, Bool.not_eq_true', List.all_eq_false] at h
    obtain ⟨c, hc, hno⟩ := h.resolve_left hne
    exact hno (hdigits c (List.mem_append_right _ hc))
  · rename_i h
    rw [Bool.not_eq_true, Bool.or_eq_false_iff, Bool.not_eq_false', List.all_eq_true,
      List.isEmpty_eq_false_iff] at h
    have hdigits : ∀ c ∈ whole ++ fraction, c.isDigit = true := fun c hc =>
      (List.mem_append.mp hc).elim (hwhole c) (h.2 c)
    rw [Option.some.injEq, Decimal.nearestDecimal_eq_iff, zpow_neg, zpow_natCast,
      ← div_eq_mul_inv]
    constructor
    · exact fun hround => ⟨_, numeral_ten_iff.mpr ⟨h.1, hdigits, rfl⟩, hround⟩
    · rintro ⟨n, hn, hround⟩
      rwa [(numeral_ten_iff.mp hn).2.2]

/-- What is read of digits and points is a number, and it is rounded. -/
theorem exists_number_of_number? {cs : List Char} (hcs : ∀ c ∈ cs, isNumeric c = true)
    {value : Float} (h : number? cs = some value) :
    ∃ x, Number cs x ∧ Decimal.RoundsTo x value := by
  have hsplit : cs.takeWhile Char.isDigit ++ cs.dropWhile Char.isDigit = cs :=
    List.takeWhile_append_dropWhile
  have hwhole : ∀ c ∈ cs.takeWhile Char.isDigit, c.isDigit = true :=
    fun c => List.mem_takeWhile_imp
  have hrest : ∀ c ∈ (cs.dropWhile Char.isDigit).head?, c.isDigit = false := by
    intro c hc
    have hhead := List.head?_dropWhile_not Char.isDigit cs
    rw [hc] at hhead
    exact hhead
  rw [← hsplit] at h hcs ⊢
  generalize cs.takeWhile Char.isDigit = whole at h hcs hwhole
  generalize cs.dropWhile Char.isDigit = rest at h hcs hrest
  obtain ⟨n, hn, hround⟩ := (number?_append hwhole hrest).mp h
  cases rest with
  | nil =>
    refine ⟨n, ?_, by simpa using hround⟩
    rw [List.drop_nil, List.append_nil] at hn
    rw [List.append_nil]
    exact .whole hn
  | cons c fraction =>
    have hnumeric := hcs c (List.mem_append_right _ List.mem_cons_self)
    rw [isNumeric, hrest c rfl, Bool.false_or, beq_iff_eq] at hnumeric
    subst hnumeric
    exact ⟨_, .pointed hn, hround⟩

/-- Every number is read, and rounded. -/
theorem Number.number?_eq {cs : List Char} {x : ℚ} (h : Number cs x) {value : Float}
    (hround : Decimal.RoundsTo x value) : number? cs = some value := by
  cases h with
  | whole hdigits =>
    rw [← List.append_nil cs, number?_append (numeral_ten_iff.mp hdigits).2.1 (by simp)]
    exact ⟨_, by rwa [List.drop_nil, List.append_nil], by simpa using hround⟩
  | @pointed whole fraction n hdigits =>
    have hwhole : ∀ c ∈ whole, c.isDigit = true := fun c hc =>
      (numeral_ten_iff.mp hdigits).2.1 c (List.mem_append_left _ hc)
    rw [number?_append hwhole (by rintro c ⟨⟩; rfl)]
    exact ⟨n, hdigits, hround⟩

theorem number?_eq_some_iff {cs : List Char} (hcs : ∀ c ∈ cs, isNumeric c = true)
    {value : Float} :
    number? cs = some value ↔ ∃ x, Number cs x ∧ Decimal.RoundsTo x value := by
  refine ⟨exists_number_of_number? hcs, ?_⟩
  rintro ⟨x, hnumber, hround⟩
  exact hnumber.number?_eq hround

/-! ## Clocks -/

theorem hertzOfChars?_eq_some_iff {cs : List Char}
    (hlast : ∀ c ∈ cs.getLast?, isBlank c = false) {hertz : Float} :
    hertzOfChars? cs = some hertz ↔ Denotes cs hertz := by
  have hchars : hertzOfChars? cs = (number? (cs.takeWhile isNumeric)).bind fun value =>
      hertzOf? value (trim (cs.dropWhile isNumeric)) := rfl
  have hnumeric : ∀ c ∈ cs.takeWhile isNumeric, isNumeric c = true :=
    fun c => List.mem_takeWhile_imp
  simp only [hchars, Option.bind_eq_some_iff, number?_eq_some_iff hnumeric,
    hertzOf?_eq_some_iff]
  constructor
  · rintro ⟨value, ⟨x, hnumber, hround⟩, unit, rate, hunit, hname, rfl⟩
    have hcs : cs.takeWhile isNumeric ++ cs.dropWhile isNumeric = cs :=
      List.takeWhile_append_dropWhile
    -- the blanks in the suffix stand before the unit, since what ends the text is no blank
    rw [← hcs] at hlast
    have hsuffix := takeWhile_append_trim (isBlank_getLast?_of_append hlast)
    have hblanks : ∀ c ∈ (cs.dropWhile isNumeric).takeWhile isBlank, isBlank c = true :=
      fun c => List.mem_takeWhile_imp
    have hdenotes := Denotes.mk hnumber hround hblanks hunit
    rwa [hname, hsuffix, hcs] at hdenotes
  · rintro ⟨hnumber, hround, hblanks, hunit⟩
    obtain ⟨htake, hdrop⟩ :=
      takeWhile_dropWhile_append hnumber.isNumeric (isNumeric_head?_suffix hblanks hunit)
    rw [htake, hdrop, trim_suffix hblanks hunit]
    exact ⟨_, ⟨_, hnumber, hround⟩, _, _, hunit, rfl, rfl⟩

theorem ofHertz_eq_ok_iff {hertz : Float} {c : Clock} :
    ofHertz hertz = .ok c ↔ hertz = c.hertz ∧ c.hertz.isFinite = true ∧ 0 < c.hertz := by
  have hcond : (hertz.isFinite && 0.0 < hertz) = true ↔ hertz.isFinite = true ∧ 0 < hertz := by
    rw [Bool.and_eq_true, decide_eq_true_eq]
    exact Iff.rfl
  obtain ⟨rate⟩ := c
  unfold ofHertz
  split
  · rename_i h
    rw [Except.ok.injEq, Clock.mk.injEq, iff_self_and]
    rintro rfl
    exact hcond.mp h
  · rename_i h
    refine iff_of_false (by rintro ⟨⟩) ?_
    rintro ⟨rfl, hvalid⟩
    exact h (hcond.mpr hvalid)

/-- A text is accepted as a clock exactly if, without the blanks at its ends, it denotes a
positive finite frequency. -/
theorem parse_eq_ok_iff {s : String} {c : Clock} : parse s = .ok c ↔
    Denotes (trim s.toList) c.hertz ∧ c.hertz.isFinite = true ∧ 0 < c.hertz := by
  rw [← hertzOfChars?_eq_some_iff (isBlank_getLast?_trim s.toList), parse]
  split
  · rename_i hertz hchars
    rw [hchars, Option.some.injEq, ← ofHertz_eq_ok_iff]
    cases ofHertz hertz <;> simp
  · rename_i hchars
    rw [hchars]
    exact iff_of_false (by rintro ⟨⟩) (by rintro ⟨⟨⟩, -⟩)

/-- A frequency or a period, with blanks before the unit or without. -/
example : parse " 2.5  MHz" = .ok ⟨2500000⟩ ∧ parse "500 ps" = .ok ⟨2e9⟩ ∧
    parse "0s" = .error (.invalidClock "0s") :=
  ⟨rfl, rfl, rfl⟩

end CoherentMemory.Clock
