import CoherentMemory.Decimal.Binary64
import Mathlib

/-!
# What rounding to binary64 gives

The bits of the values without a sign count these values in ascending order, and the bits of
infinity stand in that order for the power of two above the largest value (`valueOf`).
Rounding gives the bits of the value that no other is closer to, and of two that are equally
close the even ones (`IsNearest`); there is no choice left (`IsNearest.unique`). This is what
`nearestBits` gives for a quotient and `nearestDecimalBits` for a decimal, whatever the size of
its exponent (`isNearest_nearestDecimalBits`).
-/

namespace CoherentMemory.Decimal

/-- The number that the bits of a value without a sign stand for. -/
def valueOf (bits : Nat) : ℚ :=
  if bits < 2 ^ 52 then bits * 2 ^ (-1074 : ℤ)
  else (2 ^ 52 + bits % 2 ^ 52 : ℕ) * 2 ^ ((bits / 2 ^ 52 : ℕ) - 1075 : ℤ)

/-- No value is closer to `x` than the one of these bits; they are even if another is as
close. -/
structure IsNearest (x : ℚ) (bits : Nat) : Prop where
  le : bits ≤ infinityBits
  nearest : ∀ b ≤ infinityBits, |x - valueOf bits| ≤ |x - valueOf b|
  even : ∀ b ≤ infinityBits, b ≠ bits → |x - valueOf bits| = |x - valueOf b| → bits % 2 = 0

/-! ## The order of the values -/

/-- From one power of two to the next the values are a grid, both ends included. -/
theorem valueOf_grid {m k : Nat} (hm : m ≤ 2 ^ 53) (hk : k = 0 ∨ 2 ^ 52 ≤ m) :
    valueOf (m + k * 2 ^ 52) = m * 2 ^ (k - 1074 : ℤ) := by
  unfold valueOf
  split
  · rename_i h
    obtain rfl : k = 0 := by omega
    norm_num
  · rename_i h
    rcases Nat.lt_or_eq_of_le hm with hlt | rfl
    · have hmod : 2 ^ 52 + (m + k * 2 ^ 52) % 2 ^ 52 = m := by omega
      have hdiv : (m + k * 2 ^ 52) / 2 ^ 52 = k + 1 := by omega
      rw [hmod, hdiv]
      congr 2
      push_cast
      ring
    · have hmod : 2 ^ 52 + (2 ^ 53 + k * 2 ^ 52) % 2 ^ 52 = 2 ^ 52 := by omega
      have hdiv : (2 ^ 53 + k * 2 ^ 52) / 2 ^ 52 = k + 2 := by omega
      have hexp : ((k + 2 : ℕ) : ℤ) - 1075 = k - 1074 + 1 := by
        push_cast
        ring
      rw [hmod, hdiv, hexp, zpow_add_one₀ two_ne_zero]
      push_cast
      ring

/-- All bits have a place on one of these grids. -/
theorem exists_grid (b : Nat) :
    ∃ m k : Nat, b = m + k * 2 ^ 52 ∧ m < 2 ^ 53 ∧ (k = 0 ∨ 2 ^ 52 ≤ m) := by
  by_cases h : b < 2 ^ 52
  · exact ⟨b, 0, by omega, by omega, .inl rfl⟩
  · exact ⟨2 ^ 52 + b % 2 ^ 52, b / 2 ^ 52 - 1, by omega, by omega, .inr (by omega)⟩

theorem strictMono_valueOf : StrictMono valueOf := by
  refine strictMono_nat_of_lt_succ fun b => ?_
  obtain ⟨m, k, rfl, hm, hk⟩ := exists_grid b
  have hnext : m + k * 2 ^ 52 + 1 = (m + 1) + k * 2 ^ 52 := by omega
  rw [hnext, valueOf_grid (by omega) hk, valueOf_grid (by omega) (by omega)]
  have hpos : (0 : ℚ) < 2 ^ (k - 1074 : ℤ) := by positivity
  push_cast
  linarith

theorem valueOf_infinityBits : valueOf infinityBits = 2 ^ 1024 := by
  have hbits : infinityBits = 2 ^ 53 + 2045 * 2 ^ 52 := by decide
  have hexp : ((2045 : ℕ) : ℤ) - 1074 = (971 : ℕ) := by norm_num
  rw [hbits, valueOf_grid (Nat.le_refl _) (.inr (by decide)), hexp, zpow_natCast,
    Nat.cast_pow, Nat.cast_ofNat, ← pow_add]

/-! ## Nearest values -/

section Neighbours

variable {x : ℚ} {b : Nat}

/-- From below no value is closer than the last one that is not above. -/
theorem abs_sub_le_of_le (hlow : valueOf b ≤ x) {c : Nat} (hc : c ≤ b) :
    |x - valueOf b| ≤ |x - valueOf c| := by
  have hcb : valueOf c ≤ valueOf b := strictMono_valueOf.monotone hc
  rw [abs_of_nonneg (sub_nonneg.mpr hlow), abs_of_nonneg (sub_nonneg.mpr (hcb.trans hlow))]
  linarith

/-- From above no value is closer than the first one that is not below. -/
theorem abs_sub_le_of_ge (hhigh : x ≤ valueOf b) {c : Nat} (hc : b ≤ c) :
    |x - valueOf b| ≤ |x - valueOf c| := by
  have hbc : valueOf b ≤ valueOf c := strictMono_valueOf.monotone hc
  rw [abs_of_nonpos (sub_nonpos.mpr hhigh), abs_of_nonpos (sub_nonpos.mpr (hhigh.trans hbc))]
  linarith

/-- Two values that are equally close have the number between them. -/
theorem between_of_abs_sub_eq {c : Nat} (hbc : b < c) (h : |x - valueOf b| = |x - valueOf c|) :
    x - valueOf b = valueOf c - x := by
  have hlt : valueOf b < valueOf c := strictMono_valueOf hbc
  rcases abs_eq_abs.mp h with h | h
  · linarith
  · linarith

section Gap

variable {t gap : ℚ} (hgap : valueOf (b + 1) = valueOf b + gap)
include hgap

theorem gap_pos : 0 < gap := by
  have hlt : valueOf b < valueOf (b + 1) := strictMono_valueOf (Nat.lt_succ_self b)
  linarith

/-- In the lower half of a gap the value below is nearest. -/
theorem isNearest_lower (hb : b ≤ infinityBits) (ht : 0 ≤ t) (hhalf : 2 * t ≤ 1)
    (heven : 2 * t = 1 → b % 2 = 0) : IsNearest (valueOf b + t * gap) b := by
  have hpos := gap_pos hgap
  have hlow : valueOf b ≤ valueOf b + t * gap := le_add_of_nonneg_right (by positivity)
  have hhigh : valueOf b + t * gap ≤ valueOf (b + 1) := by
    rw [hgap]
    nlinarith
  have hup : |valueOf b + t * gap - valueOf b| ≤ |valueOf b + t * gap - valueOf (b + 1)| := by
    rw [abs_of_nonneg (sub_nonneg.mpr hlow), abs_of_nonpos (sub_nonpos.mpr hhigh), hgap]
    nlinarith
  refine ⟨hb, fun c _ => ?_, fun c _ hne h => ?_⟩
  · rcases Nat.lt_or_ge b c with hc | hc
    · exact hup.trans (abs_sub_le_of_ge hhigh hc)
    · exact abs_sub_le_of_le hlow hc
  · rcases Nat.lt_or_gt_of_ne hne with hc | hc
    · have hlt : valueOf c < valueOf b := strictMono_valueOf hc
      have := between_of_abs_sub_eq hc h.symm
      linarith
    · have htie := le_antisymm (h ▸ abs_sub_le_of_ge hhigh hc) hup
      have hmid := between_of_abs_sub_eq (Nat.lt_succ_self b) htie.symm
      refine heven (mul_right_cancel₀ hpos.ne' ?_)
      rw [hgap] at hmid
      linarith

/-- In the upper half of a gap the value above is nearest. -/
theorem isNearest_upper (hb : b + 1 ≤ infinityBits) (ht : t ≤ 1) (hhalf : 1 ≤ 2 * t)
    (heven : 2 * t = 1 → (b + 1) % 2 = 0) : IsNearest (valueOf b + t * gap) (b + 1) := by
  have hpos := gap_pos hgap
  have hlow : valueOf b ≤ valueOf b + t * gap := by nlinarith
  have hhigh : valueOf b + t * gap ≤ valueOf (b + 1) := by
    rw [hgap]
    nlinarith
  have hdown : |valueOf b + t * gap - valueOf (b + 1)| ≤ |valueOf b + t * gap - valueOf b| := by
    rw [abs_of_nonneg (sub_nonneg.mpr hlow), abs_of_nonpos (sub_nonpos.mpr hhigh), hgap]
    nlinarith
  refine ⟨hb, fun c _ => ?_, fun c _ hne h => ?_⟩
  · rcases Nat.lt_or_ge b c with hc | hc
    · exact abs_sub_le_of_ge hhigh hc
    · exact hdown.trans (abs_sub_le_of_le hlow hc)
  · rcases Nat.lt_or_gt_of_ne hne with hc | hc
    · have htie := le_antisymm (h ▸ abs_sub_le_of_le hlow (Nat.le_of_lt_succ hc)) hdown
      have hmid := between_of_abs_sub_eq (Nat.lt_succ_self b) htie
      refine heven (mul_right_cancel₀ hpos.ne' ?_)
      rw [hgap] at hmid
      linarith
    · have hlt : valueOf (b + 1) < valueOf c := strictMono_valueOf hc
      have := between_of_abs_sub_eq hc h
      linarith

end Gap

theorem isNearest_infinityBits (h : valueOf infinityBits ≤ x) : IsNearest x infinityBits := by
  refine ⟨Nat.le_refl _, fun c hc => abs_sub_le_of_le h hc, fun c hc hne heq => ?_⟩
  have hlt : c < infinityBits := Nat.lt_of_le_of_ne hc hne
  have hvalue : valueOf c < valueOf infinityBits := strictMono_valueOf hlt
  have := between_of_abs_sub_eq hlt heq.symm
  linarith

/-- Of two nearest values both are even, and the one between them is closer. -/
theorem IsNearest.not_lt {c : Nat} (hb : IsNearest x b) (hc : IsNearest x c) : ¬b < c := by
  intro hbc
  have heq : |x - valueOf b| = |x - valueOf c| :=
    le_antisymm (hb.nearest c hc.le) (hc.nearest b hb.le)
  have hbEven := hb.even c hc.le (Nat.ne_of_gt hbc) heq
  have hcEven := hc.even b hb.le (Nat.ne_of_lt hbc) heq.symm
  have hnext : b + 1 < c := by omega
  have hlow : valueOf b < valueOf (b + 1) := strictMono_valueOf (Nat.lt_succ_self b)
  have hhigh : valueOf (b + 1) < valueOf c := strictMono_valueOf hnext
  have hmid := between_of_abs_sub_eq hbc heq
  have hcloser := hb.nearest (b + 1) (Nat.le_of_lt (Nat.lt_of_lt_of_le hnext hc.le))
  rw [abs_of_nonneg (by linarith : 0 ≤ x - valueOf b), le_abs] at hcloser
  rcases hcloser with h | h
  · linarith
  · linarith

/-- Rounding leaves no choice. -/
theorem IsNearest.unique {c : Nat} (hb : IsNearest x b) (hc : IsNearest x c) : b = c :=
  Nat.le_antisymm (Nat.le_of_not_lt (hc.not_lt hb)) (Nat.le_of_not_lt (hb.not_lt hc))

end Neighbours

/-! ## Quotients -/

/-- The rounded quotient is one of its neighbours: the closer one, or the even one. -/
theorem roundHalfEven_cases (num den : Nat) :
    (roundHalfEven num den = num / den ∧ 2 * (num % den) ≤ den ∧
      (2 * (num % den) = den → num / den % 2 = 0)) ∨
    (roundHalfEven num den = num / den + 1 ∧ den ≤ 2 * (num % den) ∧
      (2 * (num % den) = den → (num / den + 1) % 2 = 0)) := by
  simp only [roundHalfEven]
  grind

theorem two_mul_div_le_one {r d : Nat} (hd : 0 < d) : (2 * (r / d) : ℚ) ≤ 1 ↔ 2 * r ≤ d := by
  have hpos : (0 : ℚ) < d := by exact_mod_cast hd
  rw [← mul_div_assoc, div_le_one hpos]
  exact_mod_cast Iff.rfl

theorem one_le_two_mul_div {r d : Nat} (hd : 0 < d) : 1 ≤ (2 * (r / d) : ℚ) ↔ d ≤ 2 * r := by
  have hpos : (0 : ℚ) < d := by exact_mod_cast hd
  rw [← mul_div_assoc, one_le_div hpos]
  exact_mod_cast Iff.rfl

/-- A number on a grid of values is rounded as the quotient that counts the units below it. -/
theorem isNearest_roundHalfEven {n d k : Nat} (hd : 0 < d) (hq : n / d < 2 ^ 53)
    (hk : k = 0 ∨ 2 ^ 52 ≤ n / d) :
    IsNearest (n / d * 2 ^ (k - 1074 : ℤ))
      (min infinityBits (roundHalfEven n d + k * 2 ^ 52)) := by
  have hlower : valueOf (n / d + k * 2 ^ 52) = (n / d : ℕ) * 2 ^ (k - 1074 : ℤ) :=
    valueOf_grid (by omega) hk
  have hgap : valueOf (n / d + k * 2 ^ 52 + 1) =
      valueOf (n / d + k * 2 ^ 52) + 2 ^ (k - 1074 : ℤ) := by
    have hnext : n / d + k * 2 ^ 52 + 1 = (n / d + 1) + k * 2 ^ 52 := by omega
    rw [hlower, hnext, valueOf_grid (by omega) (by omega), Nat.cast_succ, add_one_mul]
  have hx : (n / d * 2 ^ (k - 1074 : ℤ) : ℚ) =
      valueOf (n / d + k * 2 ^ 52) + (n % d : ℕ) / d * 2 ^ (k - 1074 : ℤ) := by
    have hn : (d * (n / d : ℕ) + (n % d : ℕ) : ℚ) = n := by exact_mod_cast Nat.div_add_mod n d
    rw [hlower, ← hn, add_div, mul_div_cancel_left₀ _ (by exact_mod_cast hd.ne'), add_mul]
  -- halfway between two values the remainder is half of the divisor
  have htie : (2 * ((n % d : ℕ) / d) : ℚ) = 1 → 2 * (n % d) = d := fun h =>
    Nat.le_antisymm ((two_mul_div_le_one hd).mp h.le) ((one_le_two_mul_div hd).mp h.ge)
  have hcases := roundHalfEven_cases n d
  rcases Nat.lt_or_ge (n / d + k * 2 ^ 52) infinityBits with hfinite | hoverflow
  · rw [hx]
    rcases hcases with ⟨hround, hcloser, heven⟩ | ⟨hround, hcloser, heven⟩
    · rw [hround, Nat.min_eq_right (Nat.le_of_lt hfinite)]
      refine isNearest_lower hgap (Nat.le_of_lt hfinite) (by positivity)
        ((two_mul_div_le_one hd).mpr hcloser) fun h => ?_
      have := heven (htie h)
      omega
    · have hnext : n / d + 1 + k * 2 ^ 52 = n / d + k * 2 ^ 52 + 1 := by omega
      rw [hround, hnext, Nat.min_eq_right hfinite]
      have hfraction : ((n % d : ℕ) / d : ℚ) ≤ 1 :=
        div_le_one_of_le₀ (by exact_mod_cast (Nat.mod_lt n hd).le) (Nat.cast_nonneg d)
      refine isNearest_upper hgap hfinite hfraction ((one_le_two_mul_div hd).mpr hcloser)
        fun h => ?_
      have := heven (htie h)
      omega
  · rw [Nat.min_eq_left (by omega)]
    refine isNearest_infinityBits ((strictMono_valueOf.monotone hoverflow).trans ?_)
    rw [hx]
    exact le_add_of_nonneg_right (by positivity)

/-- A power of the base moves between the parts of a quotient. -/
theorem div_scaled {base : Nat} (hbase : 0 < base) (num den : Nat) (e : ℤ) :
    ((num * Nat.pow base (-e).toNat : ℕ) : ℚ) / (den * Nat.pow base e.toNat : ℕ) * base ^ e =
      num / den := by
  have hbase' : (base : ℚ) ≠ 0 := by exact_mod_cast hbase.ne'
  have hpow : (base ^ (-e).toNat * base ^ e : ℚ) = base ^ e.toNat := by
    rw [← zpow_natCast, ← zpow_natCast, ← zpow_add₀ hbase']
    congr 1
    omega
  rw [Nat.pow_eq, Nat.pow_eq, Nat.cast_mul, Nat.cast_mul, Nat.cast_pow, Nat.cast_pow,
    div_mul_eq_mul_div, mul_assoc, hpow, mul_div_mul_right _ _ (pow_ne_zero _ hbase')]

/-- The comparison in `gridExponent` tells whether the quotient reaches a power of two. -/
theorem reaches_iff (num : Nat) {den : Nat} (hden : 0 < den) (s : ℤ) :
    den * Nat.pow 2 s.toNat ≤ num * Nat.pow 2 (-s).toNat ↔ (2 ^ s : ℚ) ≤ num / den := by
  have hpos : (0 : ℚ) < (den * Nat.pow 2 s.toNat : ℕ) := by
    exact_mod_cast Nat.mul_pos hden (Nat.two_pow_pos _)
  have hunit : (0 : ℚ) < 2 ^ s := by positivity
  have hscaled := div_scaled two_pos num den s
  rw [Nat.cast_ofNat] at hscaled
  rw [← hscaled, le_mul_iff_one_le_left hunit, one_le_div hpos, Nat.cast_le]

/-- The binary logarithms of its parts tell the size of a quotient up to a factor of two. -/
theorem two_zpow_log2_bounds {num den : Nat} (hnum : 0 < num) (hden : 0 < den) :
    (2 ^ ((num.log2 : ℤ) - den.log2 - 1) : ℚ) ≤ num / den ∧
      (num / den : ℚ) < 2 ^ ((num.log2 : ℤ) - den.log2 + 1) := by
  have hnumLow : (2 ^ num.log2 : ℚ) ≤ num := by exact_mod_cast Nat.log2_self_le hnum.ne'
  have hnumHigh : (num : ℚ) < 2 ^ (num.log2 + 1) := by exact_mod_cast Nat.lt_log2_self
  have hdenLow : (2 ^ den.log2 : ℚ) ≤ den := by exact_mod_cast Nat.log2_self_le hden.ne'
  have hdenHigh : (den : ℚ) < 2 ^ (den.log2 + 1) := by exact_mod_cast Nat.lt_log2_self
  have hpos : (0 : ℚ) < den := by exact_mod_cast hden
  constructor
  · calc (2 ^ ((num.log2 : ℤ) - den.log2 - 1) : ℚ) = 2 ^ num.log2 / 2 ^ (den.log2 + 1) := by
          rw [← zpow_natCast, ← zpow_natCast, ← zpow_sub₀ two_ne_zero]
          congr 1
          push_cast
          ring
      _ ≤ num / den := by gcongr
  · calc (num / den : ℚ) < 2 ^ (num.log2 + 1) / 2 ^ den.log2 := by gcongr
      _ = 2 ^ ((num.log2 : ℤ) - den.log2 + 1) := by
          rw [← zpow_natCast, ← zpow_natCast, ← zpow_sub₀ two_ne_zero]
          congr 1
          push_cast
          ring

/-- The quotient lies below the end of its grid, and not below the beginning, unless the grid
begins at zero. -/
theorem gridExponent_spec {num den : Nat} (hnum : 0 < num) (hden : 0 < den) :
    -1074 ≤ gridExponent num den ∧ (num / den : ℚ) < 2 ^ (gridExponent num den + 53) ∧
      (gridExponent num den = -1074 ∨ (2 ^ (gridExponent num den + 52) : ℚ) ≤ num / den) := by
  obtain ⟨hlow, hhigh⟩ := two_zpow_log2_bounds hnum hden
  have hreaches := reaches_iff num hden ((num.log2 : ℤ) - den.log2)
  obtain ⟨s, hs, hbegin, hend⟩ : ∃ s : ℤ, gridExponent num den = max (-1074) (s - 52) ∧
      (2 ^ s : ℚ) ≤ num / den ∧ (num / den : ℚ) < 2 ^ (s + 1) := by
    by_cases h : (2 ^ ((num.log2 : ℤ) - den.log2) : ℚ) ≤ num / den
    · refine ⟨_, ?_, h, hhigh⟩
      simp only [gridExponent, if_pos (hreaches.mpr h)]
    · refine ⟨_, ?_, hlow, ?_⟩
      · simp only [gridExponent, if_neg (hreaches.not.mpr h)]
        omega
      · rw [sub_add_cancel]
        exact not_le.mp h
  have hgrid : s ≤ gridExponent num den + 52 := by omega
  refine ⟨by omega, hend.trans_le (zpow_le_zpow_right₀ one_le_two (by omega)), ?_⟩
  rcases Int.le_total (s - 52) (-1074) with hle | hle
  · exact .inl (by omega)
  · have hs' : gridExponent num den + 52 = s := by omega
    exact .inr (hs' ▸ hbegin)

theorem toNat_ofNat_min_infinityBits (n : Nat) :
    (UInt64.ofNat (min infinityBits n)).toNat = min infinityBits n := by
  have hlt : infinityBits < UInt64.size := by decide
  exact UInt64.toNat_ofNat_of_lt' (Nat.lt_of_le_of_lt (Nat.min_le_left _ _) hlt)

/-- Up to half of the least value zero is nearest. -/
theorem isNearest_zero {x : ℚ} (hx : 0 ≤ x) (hle : x ≤ 2 ^ (-1075 : ℤ)) : IsNearest x 0 := by
  have hzero : valueOf 0 = 0 := by simp [valueOf]
  have hgap : valueOf (0 + 1) = valueOf 0 + 2 ^ (-1074 : ℤ) := by simp [valueOf]
  have hx' : x = valueOf 0 + x * 2 ^ (1074 : ℤ) * 2 ^ (-1074 : ℤ) := by
    rw [hzero, zero_add, mul_assoc, ← zpow_add₀ two_ne_zero, add_neg_cancel, zpow_zero, mul_one]
  have hhalf : 2 * (x * 2 ^ (1074 : ℤ)) ≤ 1 :=
    calc 2 * (x * 2 ^ (1074 : ℤ)) ≤ 2 * (2 ^ (-1075 : ℤ) * 2 ^ (1074 : ℤ)) := by gcongr
      _ = 1 := by
        rw [← zpow_add₀ two_ne_zero]
        norm_num
  rw [hx']
  exact isNearest_lower hgap (Nat.zero_le _) (by positivity) hhalf fun _ => rfl

/-- A quotient is rounded to the nearest value. -/
theorem isNearest_nearestBits (num : Nat) {den : Nat} (hden : 0 < den) :
    IsNearest (num / den) (nearestBits num den).toNat := by
  unfold nearestBits
  split
  · rename_i h
    rw [h, Nat.cast_zero, zero_div]
    exact isNearest_zero (le_refl 0) (by positivity)
  · rename_i h
    obtain ⟨hleast, hend, hbegin⟩ := gridExponent_spec (Nat.pos_of_ne_zero h) hden
    simp only [toNat_ofNat_min_infinityBits]
    generalize gridExponent num den = e at hleast hend hbegin
    have he : e = ((e + 1074).toNat : ℤ) - 1074 := by omega
    have hunit : (0 : ℚ) < 2 ^ e := by positivity
    have hd : 0 < den * Nat.pow 2 e.toNat := Nat.mul_pos hden (Nat.two_pow_pos _)
    have hd' : (0 : ℚ) < (den * Nat.pow 2 e.toNat : ℕ) := by exact_mod_cast hd
    have hscaled := div_scaled two_pos num den e
    rw [Nat.cast_ofNat] at hscaled
    rw [← hscaled, add_comm e, zpow_add₀ two_ne_zero, mul_lt_mul_iff_left₀ hunit,
      div_lt_iff₀ hd'] at hend
    rw [← hscaled, add_comm e, zpow_add₀ two_ne_zero, mul_le_mul_iff_left₀ hunit,
      le_div_iff₀ hd'] at hbegin
    rw [← hscaled]
    nth_rewrite 3 [he]
    refine isNearest_roundHalfEven hd ?_ ?_
    · rw [Nat.div_lt_iff_lt_mul hd]
      exact_mod_cast hend
    · rcases hbegin with hbegin | hbegin
      · exact .inl (by omega)
      · refine .inr ((Nat.le_div_iff_mul_le hd).mpr ?_)
        exact_mod_cast hbegin

/-! ## Decimals -/

theorem pow_length_toDigits_bounds {n : Nat} (hn : 0 < n) :
    10 ^ ((Nat.toDigits 10 n).length - 1) ≤ n ∧ n < 10 ^ (Nat.toDigits 10 n).length := by
  have hlength : 0 < (Nat.toDigits 10 n).length := Nat.length_toDigits_pos
  refine ⟨?_, (Nat.length_toDigits_le_iff (by decide) hlength).mp (Nat.le_refl _)⟩
  rcases Nat.eq_zero_or_pos ((Nat.toDigits 10 n).length - 1) with h | h
  · rwa [h, Nat.pow_zero]
  · refine Nat.le_of_not_lt fun hlt => ?_
    have := (Nat.length_toDigits_le_iff (by decide) h).mpr hlt
    omega

/-- Ten is above the third power of two. -/
theorem two_pow_le_ten_pow {n : Nat} (h : n ≤ 3 * 400) : (2 ^ n : ℚ) ≤ 10 ^ 400 :=
  calc (2 ^ n : ℚ) ≤ 2 ^ (3 * 400) := pow_le_pow_right₀ one_le_two h
    _ = (2 ^ 3) ^ 400 := pow_mul 2 3 400
    _ ≤ 10 ^ 400 := pow_le_pow_left₀ (by norm_num) (by norm_num) 400

/-- A decimal is between the powers of ten that the number of its digits tells. -/
theorem decimal_bounds {digits : Nat} (hdigits : 0 < digits) (exponent : ℤ) :
    (10 : ℚ) ^ (exponent + (Nat.toDigits 10 digits).length - 1) ≤ digits * 10 ^ exponent ∧
      digits * 10 ^ exponent ≤ (10 : ℚ) ^ (exponent + (Nat.toDigits 10 digits).length) := by
  obtain ⟨hlow, hhigh⟩ := pow_length_toDigits_bounds hdigits
  have hlength : 0 < (Nat.toDigits 10 digits).length := Nat.length_toDigits_pos
  generalize (Nat.toDigits 10 digits).length = length at hlow hhigh hlength
  have hsplit : exponent + (length : ℤ) - 1 = exponent + (length - 1 : ℕ) := by omega
  rw [hsplit, zpow_add₀ (by norm_num), zpow_add₀ (by norm_num), zpow_natCast, zpow_natCast,
    mul_comm (digits : ℚ)]
  constructor
  · gcongr
    exact_mod_cast hlow
  · gcongr
    exact_mod_cast hhigh.le

/-- A decimal is rounded to the nearest value, however far its exponent is out. -/
theorem isNearest_nearestDecimalBits (digits : Nat) (exponent : ℤ) :
    IsNearest (digits * 10 ^ exponent) (nearestDecimalBits digits exponent).toNat := by
  unfold nearestDecimalBits
  simp only
  split
  · rename_i h
    rw [h, Nat.cast_zero, zero_mul]
    exact isNearest_zero (le_refl 0) (by positivity)
  rename_i hne
  obtain ⟨hlow, hhigh⟩ := decimal_bounds (Nat.pos_of_ne_zero hne) exponent
  split
  · rename_i h
    refine isNearest_infinityBits ?_
    calc valueOf infinityBits = 2 ^ 1024 := valueOf_infinityBits
      _ ≤ 10 ^ (400 : ℤ) := by
          rw [zpow_ofNat]
          exact two_pow_le_ten_pow (by decide)
      _ ≤ 10 ^ (exponent + (Nat.toDigits 10 digits).length - 1) :=
          zpow_le_zpow_right₀ (by norm_num) (by omega)
      _ ≤ digits * 10 ^ exponent := hlow
  split
  · rename_i h
    refine isNearest_zero (by positivity) ?_
    calc (digits * 10 ^ exponent : ℚ) ≤ 10 ^ (exponent + (Nat.toDigits 10 digits).length) := hhigh
      _ ≤ 10 ^ (-400 : ℤ) := zpow_le_zpow_right₀ (by norm_num) (by omega)
      _ ≤ 2 ^ (-1075 : ℤ) := by
          rw [zpow_neg, zpow_neg, zpow_ofNat, zpow_ofNat]
          exact inv_anti₀ (by positivity) (two_pow_le_ten_pow (by decide))
  · have hscaled := div_scaled (by decide : 0 < 10) digits 1 (-exponent)
    rw [neg_neg, one_mul, zpow_neg, Nat.cast_one, div_one, Nat.cast_ofNat,
      mul_inv_eq_iff_eq_mul₀ (by positivity)] at hscaled
    rw [← hscaled]
    exact isNearest_nearestBits _ (Nat.pow_pos (by decide))

/-- The value is the one that a number is rounded to. -/
def RoundsTo (x : ℚ) (value : Float) : Prop :=
  ∃ bits : UInt64, IsNearest x bits.toNat ∧ Float.ofBits bits = value

/-- The value of a decimal is the one that it is rounded to, and no other. -/
theorem nearestDecimal_eq_iff {digits : Nat} {exponent : ℤ} {value : Float} :
    nearestDecimal digits exponent = value ↔ RoundsTo (digits * 10 ^ exponent) value := by
  have hnearest := isNearest_nearestDecimalBits digits exponent
  constructor
  · exact fun h => ⟨_, hnearest, h⟩
  · rintro ⟨bits, hbits, rfl⟩
    rw [nearestDecimal, UInt64.toNat_inj.mp (hnearest.unique hbits)]

end CoherentMemory.Decimal
