import Mathlib.Algebra.Order.Field.Power
import Mathlib.Algebra.Ring.Parity
import Mathlib.Tactic.Linarith
import Mathlib.Tactic.Ring
import Mathlib.Tactic.Positivity
import Mathlib.Tactic.NormNum
import FieldRules.Number.Floating
import FieldRules.Proofs.Number.Numerals

/-!
# Rounding

What it means that a number of a format is the one nearest to a given rational number, said without
an algorithm. Around `x` the numbers of the format are the multiples of a last place `2 ^ e`
(`Format.Place`), and `x` is rounded to the multiple nearest to it, to an even one if two are
equally near (`Format.Rounds`). There is one such number (`Format.Rounds.unique`), and a number that
the format holds is rounded to itself (`Format.Rounds.eq_of_holds`).

`Floating.round` and `Floating.ofDecimal` round in this sense, and give an infinity only where the
result would be beyond the format (`Floating.isRounded_round`, `Floating.isRounded_ofDecimal`).
-/

namespace FieldRules

/-! ## The nearest whole number -/

/-- `m` is the whole number nearest to `a`, the even one of two. -/
def NearestInt (a : ℚ) (m : ℤ) : Prop := |a - m| ≤ 1 / 2 ∧ (|a - m| = 1 / 2 → Even m)

namespace NearestInt

variable {a : ℚ} {m n : ℤ}

theorem neg (h : NearestInt a m) : NearestInt (-a) (-m) := by
  have habs : |-a - ((-m : ℤ) : ℚ)| = |a - m| := by
    rw [← abs_neg]
    congr 1
    push_cast
    ring
  refine ⟨habs.le.trans h.1, fun htie => ?_⟩
  exact (h.2 (habs.symm.trans htie)).neg

theorem le_of_nearest (hm : NearestInt a m) (hn : NearestInt a n) : n ≤ m := by
  by_contra hlt
  have hstep : (m : ℚ) + 1 ≤ n := by exact_mod_cast not_le.mp hlt
  have hlow := (abs_le.mp hm.1).2
  have hhigh := (abs_le.mp hn.1).1
  have hmtie : |a - m| = 1 / 2 := by
    rw [abs_of_nonneg (by linarith)]
    linarith
  have hntie : |a - n| = 1 / 2 := by
    rw [abs_of_nonpos (by linarith)]
    linarith
  have hnext : n = m + 1 := by
    have : (n : ℚ) = m + 1 := by linarith
    exact_mod_cast this
  obtain ⟨i, hi⟩ := hm.2 hmtie
  obtain ⟨j, hj⟩ := hn.2 hntie
  omega

theorem unique (hm : NearestInt a m) (hn : NearestInt a n) : m = n :=
  le_antisymm (hn.le_of_nearest hm) (hm.le_of_nearest hn)

theorem self (m : ℤ) : NearestInt m m := by
  refine ⟨by norm_num, fun htie => ?_⟩
  norm_num at htie

theorem below {q : ℤ} {t : ℚ} (h₀ : 0 ≤ t) (h : t ≤ 1 / 2) (htie : t = 1 / 2 → Even q) :
    NearestInt (q + t) q := by
  unfold NearestInt
  rw [add_sub_cancel_left, abs_of_nonneg h₀]
  exact ⟨h, htie⟩

theorem above {q : ℤ} {t : ℚ} (h : 1 / 2 ≤ t) (h₁ : t ≤ 1) (htie : t = 1 / 2 → Even (q + 1)) :
    NearestInt (q + t) (q + 1 : ℤ) := by
  unfold NearestInt
  have hsub : (q : ℚ) + t - (q + 1 : ℤ) = t - 1 := by
    push_cast
    ring
  rw [hsub, abs_of_nonpos (by linarith)]
  exact ⟨by linarith, fun heq => htie (by linarith)⟩

end NearestInt

/-! ## Numbers of a format -/

namespace Format

variable {f : Format} {x y z : ℚ} {e e' : ℤ}

/-- The format holds the number: a significand of as many bits as the format has, times a power of
two in its range. -/
def Holds (f : Format) (x : ℚ) : Prop :=
  ∃ m e : ℤ, |m| < 2 ^ f.precision ∧ f.least ≤ e ∧ e ≤ f.greatest ∧ x = m * 2 ^ e

/-- Around `x` the last place of the format's numbers is `2 ^ e`: their significands have as many
bits as the format has, unless the exponent is the least one. -/
structure Place (f : Format) (x : ℚ) (e : ℤ) : Prop where
  least : f.least ≤ e
  /-- A significand has not too many bits. -/
  below : |x| < 2 ^ (e + f.precision)
  /-- A significand has not too few bits. -/
  full : e = f.least ∨ 2 ^ (e + f.precision - 1) ≤ |x|

/-- The number `x` is rounded to `y`, a multiple of the last place around it. -/
def Rounds (f : Format) (x y : ℚ) : Prop :=
  ∃ m e : ℤ, f.Place x e ∧ NearestInt (x / 2 ^ e) m ∧ y = m * 2 ^ e

theorem two_zpow_pos (e : ℤ) : (0 : ℚ) < 2 ^ e := zpow_pos two_pos e

theorem two_zpow_le (h : e ≤ e') : (2 : ℚ) ^ e ≤ 2 ^ e' := zpow_le_zpow_right₀ one_le_two h

theorem Place.le_of_lt (h : f.Place x e) (hle : f.least ≤ e') (hx : |x| < 2 ^ (e' + f.precision)) :
    e ≤ e' := by
  by_contra hlt
  rcases h.full with hleast | hfull
  · omega
  · have hstep : (2 : ℚ) ^ (e' + f.precision) ≤ 2 ^ (e + f.precision - 1) :=
      two_zpow_le (by omega)
    linarith

/-- There is one last place around a number. -/
theorem Place.unique (h : f.Place x e) (h' : f.Place x e') : e = e' :=
  le_antisymm (h.le_of_lt h'.least h'.below) (h'.le_of_lt h.least h.below)

theorem Place.neg (h : f.Place x e) : f.Place (-x) e :=
  ⟨h.least, by rw [abs_neg]; exact h.below, by rw [abs_neg]; exact h.full⟩

/-- A number of the format is a multiple of the last place around `x`, unless it is so much smaller
than `x` that its last place is smaller. -/
theorem Holds.multiple (h : f.Holds z) (hplace : f.Place x e) :
    (∃ j : ℤ, z = j * 2 ^ e) ∨
      |z| < 2 ^ (e + f.precision - 1) ∧ 2 ^ (e + f.precision - 1) ≤ |x| := by
  obtain ⟨k, e', hk, hleast, -, rfl⟩ := h
  by_cases hle : e ≤ e'
  · refine .inl ⟨k * 2 ^ (e' - e).toNat, ?_⟩
    have hsplit : (2 : ℚ) ^ e' = 2 ^ (e' - e).toNat * 2 ^ e := by
      rw [← zpow_natCast, ← zpow_add₀ two_ne_zero]
      congr 1
      omega
    push_cast
    rw [hsplit]
    ring
  · have hbelow : |(k : ℚ) * 2 ^ e'| < 2 ^ (e' + f.precision) := by
      have hcast : |(k : ℚ)| < 2 ^ f.precision := by exact_mod_cast hk
      rw [abs_mul, abs_of_pos (two_zpow_pos e'), zpow_add₀ two_ne_zero, zpow_natCast, mul_comm]
      exact mul_lt_mul_of_pos_left hcast (two_zpow_pos e')
    have hstep : (2 : ℚ) ^ (e' + f.precision) ≤ 2 ^ (e + f.precision - 1) :=
      two_zpow_le (by omega)
    exact .inr ⟨hbelow.trans_le hstep, hplace.full.resolve_left (by omega)⟩

namespace Rounds

theorem neg (h : f.Rounds x y) : f.Rounds (-x) (-y) := by
  obtain ⟨m, e, hplace, hm, rfl⟩ := h
  refine ⟨-m, e, hplace.neg, ?_, by push_cast; ring⟩
  rw [neg_div]
  exact hm.neg

/-- A number is rounded to one number. -/
theorem unique (h : f.Rounds x y) (h' : f.Rounds x z) : y = z := by
  obtain ⟨m, e, hplace, hm, rfl⟩ := h
  obtain ⟨m', e', hplace', hm', rfl⟩ := h'
  obtain rfl := hplace.unique hplace'
  rw [hm.unique hm']

/-- A number of the format is rounded to itself. -/
theorem eq_of_holds (h : f.Rounds x y) (hx : f.Holds x) : y = x := by
  obtain ⟨m, e, hplace, hm, rfl⟩ := h
  rcases hx.multiple hplace with ⟨j, hj⟩ | ⟨hlt, hle⟩
  · have hquot : x / 2 ^ e = j := by
      rw [hj]
      exact mul_div_cancel_right₀ _ (two_zpow_pos e).ne'
    rw [hquot] at hm
    rw [hm.unique (.self j), hj]
  · exact absurd hlt hle.not_gt

/-- What a number is rounded to is a number of the format, if it is not too large. -/
theorem holds (h : f.Rounds x y) (hp : 0 < f.precision) (hrange : f.least ≤ f.greatest)
    (hy : |y| < 2 ^ f.greatest) : f.Holds y := by
  obtain ⟨m, e, hplace, hm, rfl⟩ := h
  by_cases hzero : m = 0
  · refine ⟨0, f.least, ?_, le_rfl, hrange, by rw [hzero]; simp⟩
    rw [abs_zero]
    positivity
  have hpos := two_zpow_pos e
  have hone : (1 : ℚ) ≤ |(m : ℚ)| := by exact_mod_cast Int.one_le_abs hzero
  have he : e < f.greatest := by
    rw [abs_mul, abs_of_pos hpos] at hy
    exact (zpow_lt_zpow_iff_right₀ one_lt_two).mp
      ((le_mul_of_one_le_left hpos.le hone).trans_lt hy)
  have hle : |m| ≤ 2 ^ f.precision := by
    have hquot : |x / 2 ^ e| < 2 ^ f.precision := by
      rw [abs_div, abs_of_pos hpos, div_lt_iff₀ hpos, ← zpow_natCast, ← zpow_add₀ two_ne_zero,
        add_comm]
      exact hplace.below
    have htri := abs_sub_abs_le_abs_sub (m : ℚ) (x / 2 ^ e)
    rw [abs_sub_comm] at htri
    have hlt : |(m : ℚ)| < 2 ^ f.precision + 1 := by linarith [hm.1]
    have : |m| < 2 ^ f.precision + 1 := by exact_mod_cast hlt
    omega
  rcases hle.lt_or_eq with hlt | heq
  · exact ⟨m, e, hlt, hplace.least, he.le, rfl⟩
  · -- A carry: the significand is a power of two with one bit too many.
    obtain ⟨p, hprec⟩ : ∃ p, f.precision = p + 1 := ⟨f.precision - 1, by omega⟩
    have hpow : (0 : ℤ) < 2 ^ p := by positivity
    rw [hprec, pow_succ] at heq
    obtain ⟨j, rfl⟩ : ∃ j, m = j * 2 := by
      rcases abs_choice m with h | h
      · exact ⟨2 ^ p, by omega⟩
      · exact ⟨-2 ^ p, by omega⟩
    refine ⟨j, e + 1, ?_, by have := hplace.least; omega, by omega, ?_⟩
    · rw [abs_mul, abs_two] at heq
      rw [hprec, pow_succ]
      omega
    · push_cast
      rw [zpow_add_one₀ two_ne_zero]
      ring

/-- A number that is no smaller than a power of two is not rounded below it. -/
theorem two_zpow_le_abs (h : f.Rounds x y) (hp : 0 < f.precision) (hx : 2 ^ e ≤ |x|)
    (hleast : f.least < e) : 2 ^ e ≤ |y| := by
  obtain ⟨m, e', hplace, hm, rfl⟩ := h
  -- The power of two at `max e e'` is a multiple of the last place and still not beyond `x`.
  have hmax : 2 ^ max e e' ≤ |x| := by
    rcases le_total e' e with hle | hle
    · rwa [max_eq_left hle]
    · rw [max_eq_right hle]
      rcases hplace.full with heq | hfull
      · omega
      · exact (two_zpow_le (by omega)).trans hfull
  obtain ⟨k, hk⟩ : ∃ k : ℕ, max e e' = k + e' := ⟨(max e e' - e').toNat, by omega⟩
  have hquot : (2 : ℚ) ^ k ≤ |x / 2 ^ e'| := by
    rw [abs_div, abs_of_pos (two_zpow_pos e'), le_div_iff₀ (two_zpow_pos e'), ← zpow_natCast,
      ← zpow_add₀ two_ne_zero, ← hk]
    exact hmax
  have hm' : (2 : ℤ) ^ k ≤ |m| := by
    by_contra hlt
    have hstep : |(m : ℚ)| + 1 ≤ 2 ^ k := by exact_mod_cast not_le.mp hlt
    have htri := abs_sub_abs_le_abs_sub (x / 2 ^ e') m
    linarith [hm.1]
  have hcast : (2 : ℚ) ^ k ≤ |(m : ℚ)| := by exact_mod_cast hm'
  calc (2 : ℚ) ^ e ≤ 2 ^ max e e' := two_zpow_le (le_max_left e e')
    _ = 2 ^ k * 2 ^ e' := by rw [hk, zpow_add₀ two_ne_zero, zpow_natCast]
    _ ≤ |(m : ℚ)| * 2 ^ e' := mul_le_mul_of_nonneg_right hcast (two_zpow_pos e').le
    _ = |(m : ℚ) * 2 ^ e'| := by rw [abs_mul, abs_of_pos (two_zpow_pos e')]

/-- A number no larger than half of the least place is rounded to zero. -/
theorem zero_of_small (hx : 2 * |x| ≤ 2 ^ f.least) : f.Rounds x 0 := by
  have hpos := two_zpow_pos f.least
  have hlast : (2 : ℚ) ^ f.least ≤ 2 ^ (f.least + f.precision) := two_zpow_le (by omega)
  refine ⟨0, f.least, ⟨le_rfl, ?_, .inl rfl⟩, ⟨?_, fun _ => Even.zero⟩, by simp⟩
  · linarith [abs_nonneg x]
  · rw [Int.cast_zero, sub_zero, abs_div, abs_of_pos hpos, div_le_iff₀ hpos]
    linarith

end Rounds

end Format

/-! ## Rounding of quotients -/

namespace Floating

open Format (two_zpow_pos two_zpow_le)

variable {f : Format} {num den : ℕ}

theorem scale_ratio (num den : ℕ) (e : ℤ) :
    ((scale num den e).1 : ℚ) / (scale num den e).2 = num / den / 2 ^ e := by
  unfold scale
  split
  next he =>
    lift e to ℕ using he
    simp [div_div]
  next he =>
    obtain ⟨k, hk⟩ : ∃ k : ℕ, e = -k := ⟨(-e).toNat, by omega⟩
    subst hk
    simp only [neg_neg, Int.toNat_natCast, Nat.pow_eq, Nat.cast_mul, Nat.cast_pow, Nat.cast_ofNat,
      zpow_neg, zpow_natCast, div_inv_eq_mul, div_mul_eq_mul_div]

theorem scale_pos (hden : 0 < den) (e : ℤ) : 0 < (scale num den e).2 := by
  unfold scale
  split
  · exact Nat.mul_pos hden (Nat.two_pow_pos _)
  · exact hden

theorem nearestInt_roundQuotient (hden : 0 < den) :
    NearestInt ((num : ℚ) / den) (roundQuotient num den) := by
  have hd : (0 : ℚ) < den := Nat.cast_pos.mpr hden
  have hsplit : (num : ℚ) / den = ((num / den : ℕ) : ℤ) + ((num % den : ℕ) : ℚ) / den := by
    have hmod : (den : ℚ) * (num / den : ℕ) + (num % den : ℕ) = num := by
      exact_mod_cast Nat.div_add_mod num den
    rw [div_eq_iff hd.ne', Int.cast_natCast, add_mul, div_mul_cancel₀ _ hd.ne', ← hmod]
    ring
  have hhalf : ((num % den : ℕ) : ℚ) / den = 1 / 2 → 2 * (num % den) = den := by
    intro h
    rw [div_eq_iff hd.ne'] at h
    have : (2 : ℚ) * (num % den : ℕ) = den := by linarith
    exact_mod_cast this
  rw [hsplit]
  unfold roundQuotient
  dsimp only
  split
  next hlow =>
    have hle : (2 : ℚ) * (num % den : ℕ) ≤ den := by
      exact_mod_cast (by omega : 2 * (num % den) ≤ den)
    refine .below (by positivity) ?_ fun htie => ?_
    · rw [div_le_iff₀ hd]
      linarith
    · have := hhalf htie
      exact (Nat.even_iff.mpr (by omega)).natCast
  next hhigh =>
    have hle : (den : ℚ) ≤ 2 * (num % den : ℕ) := by
      exact_mod_cast (by omega : den ≤ 2 * (num % den))
    have hlt : ((num % den : ℕ) : ℚ) ≤ den := by exact_mod_cast (Nat.mod_lt num hden).le
    refine .above ?_ ?_ fun htie => ?_
    · rw [le_div_iff₀ hd]
      linarith
    · rw [div_le_one hd]
      exact hlt
    · have := hhalf htie
      exact_mod_cast (Nat.even_iff.mpr (by omega) : Even (num / den + 1))

theorem ratio_lt (num : ℕ) (hden : 0 < den) :
    (num : ℚ) / den < 2 ^ ((num.log2 : ℤ) - den.log2 + 1) := by
  have hnum : (num : ℚ) < 2 ^ (num.log2 + 1) := by exact_mod_cast Nat.lt_log2_self
  have hlog : (2 : ℚ) ^ den.log2 ≤ den := by exact_mod_cast Nat.log2_self_le hden.ne'
  rw [div_lt_iff₀ (Nat.cast_pos.mpr hden)]
  calc (num : ℚ) < 2 ^ (num.log2 + 1) := hnum
    _ = 2 ^ ((num.log2 : ℤ) - den.log2 + 1) * 2 ^ den.log2 := by
      rw [← zpow_natCast, ← zpow_natCast, ← zpow_add₀ two_ne_zero]
      congr 1
      push_cast
      ring
    _ ≤ 2 ^ ((num.log2 : ℤ) - den.log2 + 1) * den :=
      mul_le_mul_of_nonneg_left hlog (two_zpow_pos _).le

theorem le_ratio (hnum : 0 < num) (hden : 0 < den) :
    2 ^ ((num.log2 : ℤ) - den.log2 - 1) ≤ (num : ℚ) / den := by
  have hlog : (2 : ℚ) ^ num.log2 ≤ num := by exact_mod_cast Nat.log2_self_le hnum.ne'
  have hlt : (den : ℚ) ≤ 2 ^ (den.log2 + 1) := by exact_mod_cast Nat.lt_log2_self.le
  rw [le_div_iff₀ (Nat.cast_pos.mpr hden)]
  calc 2 ^ ((num.log2 : ℤ) - den.log2 - 1) * (den : ℚ)
      ≤ 2 ^ ((num.log2 : ℤ) - den.log2 - 1) * 2 ^ (den.log2 + 1) :=
        mul_le_mul_of_nonneg_left hlt (two_zpow_pos _).le
    _ = 2 ^ num.log2 := by
      rw [← zpow_natCast, ← zpow_natCast, ← zpow_add₀ two_ne_zero]
      congr 1
      push_cast
      ring
    _ ≤ num := hlog

/-- Whether a quotient, scaled, is below a power of two. -/
theorem scale_div_lt_iff (num : ℕ) (hden : 0 < den) (e : ℤ) (k : ℕ) :
    (scale num den e).1 / (scale num den e).2 < 2 ^ k ↔ (num : ℚ) / den < 2 ^ (e + k) := by
  have hd : (0 : ℚ) < (scale num den e).2 := Nat.cast_pos.mpr (scale_pos hden e)
  have hscaled : (num : ℚ) / den < 2 ^ (e + k) ↔
      ((scale num den e).1 : ℚ) / (scale num den e).2 < 2 ^ k := by
    rw [scale_ratio, div_lt_iff₀ (two_zpow_pos e), zpow_add₀ two_ne_zero, zpow_natCast, mul_comm]
  rw [hscaled, Nat.div_lt_iff_lt_mul (scale_pos hden e), div_lt_iff₀ hd]
  exact_mod_cast Iff.rfl

/-- The exponent that is taken is that of the last place. -/
theorem place_exponentOf (hnum : 0 < num) (hden : 0 < den) (hp : 0 < f.precision) :
    f.Place ((num : ℚ) / den) (exponentOf f num den) := by
  have hq : (0 : ℚ) ≤ num / den := by positivity
  have hlt := ratio_lt num hden
  have hle := le_ratio hnum hden
  unfold exponentOf
  dsimp only
  generalize hfirst : max (num.log2 - den.log2 - f.precision + 1 : ℤ) f.least = e
  have hcond := scale_div_lt_iff num hden e (f.precision - 1)
  have hcast : e + ((f.precision - 1 : ℕ) : ℤ) = e + f.precision - 1 := by omega
  rw [hcast] at hcond
  split
  next h =>
    obtain ⟨hbelow, hleast⟩ := h
    refine ⟨by omega, ?_, .inr ?_⟩
    · rw [abs_of_nonneg hq]
      exact (hcond.mp hbelow).trans_eq (by congr 1; ring)
    · rw [abs_of_nonneg hq]
      exact (two_zpow_le (by omega)).trans hle
  next h =>
    refine ⟨by omega, ?_, ?_⟩
    · rw [abs_of_nonneg hq]
      exact hlt.trans_le (two_zpow_le (by omega))
    · by_cases hleast : e = f.least
      · exact .inl hleast
      · rw [abs_of_nonneg hq]
        exact .inr (not_lt.mp fun hq => h ⟨hcond.mpr hq, by omega⟩)

/-- The number is what `x` is rounded to, or an infinity in the place of a number beyond the
format. -/
def IsRounded (f : Format) (x : ℚ) : Floating → Prop
  | nan => False
  | infinite _ => ∃ y, f.Rounds x y ∧ 2 ^ f.greatest < |y|
  | finite negative m e => f.Rounds x (signed negative m * 2 ^ e)

theorem abs_signed (negative : Bool) (m : ℕ) : |((signed negative m : ℤ) : ℚ)| = m := by
  cases negative <;> simp [signed]

/-- A number without a sign is rounded in the same way as with one. -/
theorem rounds_signed {x : ℚ} {m : ℕ} {e : ℤ} (h : f.Rounds x (m * 2 ^ e)) (negative : Bool) :
    f.Rounds (if negative then -x else x) (signed negative m * 2 ^ e) := by
  cases negative with
  | false => exact h
  | true =>
    have hneg : ((signed true m : ℤ) : ℚ) * 2 ^ e = -(m * 2 ^ e) := by
      simp [signed]
    rw [hneg]
    exact h.neg

theorem rounds_zero (f : Format) : f.Rounds 0 0 := by
  refine .zero_of_small ?_
  rw [abs_zero, mul_zero]
  exact (two_zpow_pos _).le

theorem rounds_ratio (hnum : 0 < num) (hden : 0 < den) (hp : 0 < f.precision) :
    let e := exponentOf f num den
    f.Rounds (num / den) (roundQuotient (scale num den e).1 (scale num den e).2 * 2 ^ e) := by
  intro e
  refine ⟨_, e, place_exponentOf hnum hden hp, ?_, rfl⟩
  rw [← scale_ratio]
  exact nearestInt_roundQuotient (scale_pos hden e)

/-- Every number is rounded to some number. -/
theorem exists_rounds (hp : 0 < f.precision) (x : ℚ) : ∃ y, f.Rounds x y := by
  have hpos : ∀ z : ℚ, 0 < z → ∃ y, f.Rounds z y := by
    intro z hz
    have hnum : 0 < z.num.natAbs := Int.natAbs_pos.mpr (Rat.num_pos.mpr hz).ne'
    have hround := rounds_ratio hnum z.den_pos hp
    have hcast : ((z.num.natAbs : ℕ) : ℚ) / z.den = z := by
      rw [Nat.cast_natAbs, abs_of_pos (Rat.num_pos.mpr hz)]
      exact Rat.num_div_den z
    rw [hcast] at hround
    exact ⟨_, hround⟩
  rcases lt_trichotomy x 0 with hx | rfl | hx
  · obtain ⟨y, hy⟩ := hpos (-x) (neg_pos.mpr hx)
    exact ⟨-y, neg_neg x ▸ hy.neg⟩
  · exact ⟨0, rounds_zero f⟩
  · exact hpos x hx

/-- Only at the least exponent there can be a significand of zero. -/
theorem roundQuotient_pos (hnum : 0 < num) (hden : 0 < den) (hp : 0 < f.precision) :
    let e := exponentOf f num den
    f.least < e → 0 < roundQuotient (scale num den e).1 (scale num den e).2 := by
  intro e hleast
  have hplace : f.Place ((num : ℚ) / den) e := place_exponentOf hnum hden hp
  have hfull := hplace.full.resolve_left hleast.ne'
  have hnat : ¬ (scale num den e).1 / (scale num den e).2 < 2 ^ (f.precision - 1) := by
    rw [scale_div_lt_iff num hden, not_lt]
    rw [abs_of_nonneg (by positivity)] at hfull
    exact (two_zpow_le (by omega)).trans hfull
  have hone : 0 < 2 ^ (f.precision - 1) := Nat.two_pow_pos _
  unfold roundQuotient
  dsimp only
  split <;> omega

/-- A significand with a bit too many is halved, at the next exponent. -/
def carried (f : Format) (m : ℕ) (e : ℤ) : ℕ × ℤ :=
  if m = Nat.pow 2 f.precision then (m / 2, e + 1) else (m, e)

theorem carried_mul (hp : 0 < f.precision) (m : ℕ) (e : ℤ) :
    ((carried f m e).1 : ℚ) * 2 ^ (carried f m e).2 = m * 2 ^ e := by
  unfold carried
  split
  next h =>
    have heven : m = 2 * (m / 2) := by
      obtain ⟨p, hp⟩ : ∃ p, f.precision = p + 1 := ⟨f.precision - 1, by omega⟩
      have : m = 2 * 2 ^ p := by
        rw [h, hp]
        exact Nat.pow_succ'
      omega
    have hcast : (m : ℚ) = 2 * (m / 2 : ℕ) := by exact_mod_cast heven
    rw [hcast, zpow_add_one₀ two_ne_zero]
    ring
  next => rfl

theorem carried_pos (hp : 0 < f.precision) {m : ℕ} {e : ℤ} (hm : f.least < e → 0 < m)
    (h : f.least < (carried f m e).2) : 0 < (carried f m e).1 := by
  unfold carried at h ⊢
  split at h
  next hcarry =>
    rw [if_pos hcarry]
    have : 2 ^ 1 ≤ 2 ^ f.precision := Nat.pow_le_pow_right two_pos hp
    have hm : m = 2 ^ f.precision := hcarry
    show 0 < m / 2
    omega
  next hcarry =>
    rw [if_neg hcarry]
    exact hm h

theorem isRounded_round (hden : 0 < den) (hp : 0 < f.precision) (hrange : f.least ≤ f.greatest)
    (negative : Bool) (num : ℕ) :
    (round f negative num den).IsRounded f (if negative then -(num / den : ℚ) else num / den) := by
  unfold round
  by_cases hnum : num = 0
  · have hzero := rounds_signed (m := 0) (e := f.least) (by simpa using rounds_zero f) negative
    rw [if_pos hnum, hnum]
    simpa [IsRounded] using hzero
  · have hround := rounds_ratio (Nat.pos_of_ne_zero hnum) hden hp
    have hpos := roundQuotient_pos (Nat.pos_of_ne_zero hnum) hden hp
    rw [if_neg hnum]
    dsimp only at hround hpos ⊢
    generalize exponentOf f num den = e at hround hpos ⊢
    generalize roundQuotient (scale num den e).1 (scale num den e).2 = m at hround hpos ⊢
    change IsRounded f _ (if f.greatest < (carried f m e).2 then infinite negative
      else finite negative (carried f m e).1 (carried f m e).2)
    rw [← carried_mul hp] at hround
    have hsigned := rounds_signed hround negative
    by_cases hbeyond : f.greatest < (carried f m e).2
    · rw [if_pos hbeyond]
      refine ⟨_, hsigned, ?_⟩
      have hone : (1 : ℚ) ≤ (carried f m e).1 := by
        exact_mod_cast carried_pos hp hpos (by omega)
      rw [abs_mul, abs_signed, abs_of_pos (two_zpow_pos _)]
      calc (2 : ℚ) ^ f.greatest < 2 ^ (carried f m e).2 := zpow_lt_zpow_right₀ one_lt_two hbeyond
        _ ≤ (carried f m e).1 * 2 ^ (carried f m e).2 :=
          le_mul_of_one_le_left (two_zpow_pos _).le hone
    · rw [if_neg hbeyond]
      exact hsigned

end Floating

/-! ## Rounding of decimal numbers -/

theorem lt_ten_pow_digitCount (n : ℕ) : n < 10 ^ digitCount n :=
  (Nat.length_toDigits_le_iff (by decide) Nat.length_toDigits_pos).mp le_rfl

theorem ten_pow_le_of_digitCount {n : ℕ} (hn : 0 < n) : 10 ^ (digitCount n - 1) ≤ n := by
  rcases Nat.eq_zero_or_pos (digitCount n - 1) with hk | hk
  · rw [hk]
    exact hn
  · by_contra hlt
    have := (Nat.length_toDigits_le_iff (by decide) hk).mpr (not_le.mp hlt)
    unfold digitCount at *
    omega

namespace Decimal

open Format (two_zpow_pos two_zpow_le binary64)

theorem ten_zpow_pos (e : ℤ) : (0 : ℚ) < 10 ^ e := zpow_pos (by norm_num) e

theorem ten_zpow_le {e e' : ℤ} (h : e ≤ e') : (10 : ℚ) ^ e ≤ 10 ^ e' :=
  zpow_le_zpow_right₀ (by norm_num) h

/-- The decimal exponent above the leading digit: the number is below this power of ten. -/
def magnitude (d : Decimal) : ℤ := d.exponent + digitCount d.digits

variable (d : Decimal)

theorem abs_value : |d.value| = d.digits * 10 ^ d.exponent := by
  rw [value, abs_mul, Floating.abs_signed, abs_of_pos (ten_zpow_pos _)]

theorem abs_value_lt : |d.value| < 10 ^ d.magnitude := by
  have hdigits : (d.digits : ℚ) < 10 ^ digitCount d.digits := by
    exact_mod_cast lt_ten_pow_digitCount d.digits
  rw [abs_value, magnitude, add_comm, zpow_add₀ (by norm_num), zpow_natCast]
  exact mul_lt_mul_of_pos_right hdigits (ten_zpow_pos _)

theorem le_abs_value {d : Decimal} (hd : 0 < d.digits) : 10 ^ (d.magnitude - 1) ≤ |d.value| := by
  have hdigits : (10 : ℚ) ^ (digitCount d.digits - 1) ≤ d.digits := by
    exact_mod_cast ten_pow_le_of_digitCount hd
  have hcount : 0 < digitCount d.digits := Nat.length_toDigits_pos
  have hsplit : d.magnitude - 1 = ((digitCount d.digits - 1 : ℕ) : ℤ) + d.exponent := by
    unfold magnitude
    omega
  rw [abs_value, hsplit, zpow_add₀ (by norm_num), zpow_natCast]
  exact mul_le_mul_of_nonneg_right hdigits (ten_zpow_pos _).le

/-- A decimal number as a quotient, of which the numerator or the denominator has no power of
ten. -/
theorem value_eq_ratio : d.value =
    let q : ℚ := (d.digits * 10 ^ d.exponent.toNat : ℕ) / (10 ^ (-d.exponent).toNat : ℕ)
    if d.negative then -q else q := by
  have hpow : (10 : ℚ) ^ d.exponent = 10 ^ d.exponent.toNat / 10 ^ (-d.exponent).toNat := by
    rw [← zpow_natCast, ← zpow_natCast, ← zpow_sub₀ (by norm_num)]
    congr 1
    omega
  have hquot : (d.digits : ℚ) * (10 ^ d.exponent.toNat / 10 ^ (-d.exponent).toNat) =
      (d.digits * 10 ^ d.exponent.toNat : ℕ) / (10 ^ (-d.exponent).toNat : ℕ) := by
    push_cast
    exact (mul_div_assoc _ _ _).symm
  dsimp only
  rw [value, hpow, ← hquot]
  cases d.negative <;> simp [signed]

/-- A number too small to be written out is rounded to zero. -/
theorem rounds_zero_of_magnitude (h : d.digits = 0 ∨ d.magnitude < -400) :
    binary64.Rounds d.value 0 := by
  refine .zero_of_small ?_
  rcases h with hzero | hsmall
  · rw [abs_value, hzero, Nat.cast_zero, zero_mul, mul_zero]
    exact (two_zpow_pos _).le
  · have hnum : (2 : ℚ) * 2 ^ 1074 ≤ 10 ^ 401 := by
      exact_mod_cast (by decide +kernel : 2 * 2 ^ 1074 ≤ 10 ^ 401)
    calc 2 * |d.value| ≤ 2 * 10 ^ (-401 : ℤ) :=
          mul_le_mul_of_nonneg_left (d.abs_value_lt.le.trans (ten_zpow_le (by omega))) zero_le_two
      _ ≤ 2 ^ (-1074 : ℤ) := by
        rw [zpow_neg, zpow_neg, mul_inv_le_iff₀ (ten_zpow_pos _), inv_mul_eq_div,
          le_div_iff₀ (two_zpow_pos _)]
        exact hnum

/-- A number too large to be written out is rounded to one beyond 64 bits. -/
theorem exists_rounds_beyond {d : Decimal} (hd : 0 < d.digits) (h : 400 < d.magnitude) :
    ∃ y, binary64.Rounds d.value y ∧ 2 ^ binary64.greatest < |y| := by
  obtain ⟨y, hy⟩ := Floating.exists_rounds (f := binary64) (by decide) d.value
  have hnum : (2 : ℚ) ^ 972 ≤ 10 ^ 400 := by
    exact_mod_cast (by decide +kernel : 2 ^ 972 ≤ 10 ^ 400)
  have hfar : (2 : ℚ) ^ (972 : ℤ) ≤ |d.value| :=
    hnum.trans ((ten_zpow_le (by omega : (400 : ℤ) ≤ _)).trans (le_abs_value hd))
  refine ⟨y, hy, lt_of_lt_of_le ?_ (hy.two_zpow_le_abs (by decide) hfar (by decide))⟩
  exact zpow_lt_zpow_right₀ one_lt_two (by decide)

end Decimal

namespace Floating

/-- A decimal number is rounded to a number of 64 bits. -/
theorem isRounded_ofDecimal (d : Decimal) :
    (ofDecimal .binary64 d).IsRounded .binary64 d.value := by
  have hvalue := d.value_eq_ratio
  unfold ofDecimal
  dsimp only at hvalue ⊢
  change IsRounded _ _ (if d.digits = 0 ∨ d.magnitude < -400 then _
    else if 400 < d.magnitude then _ else _)
  split_ifs with hsmall hlarge hexp
  · show Format.Rounds _ _ (signed d.negative 0 * 2 ^ Format.binary64.least)
    have hzero : ((signed d.negative 0 : ℤ) : ℚ) * 2 ^ Format.binary64.least = 0 := by
      cases d.negative <;> simp [signed]
    rw [hzero]
    exact d.rounds_zero_of_magnitude hsmall
  · exact Decimal.exists_rounds_beyond (Nat.pos_of_ne_zero fun h => hsmall (.inl h)) hlarge
  · rw [(by omega : (-d.exponent).toNat = 0)] at hvalue
    rw [hvalue]
    exact isRounded_round one_pos (by decide) (by decide) d.negative _
  · have hden : 0 < 10 ^ (-d.exponent).toNat := by positivity
    rw [(by omega : d.exponent.toNat = 0), pow_zero, mul_one] at hvalue
    rw [hvalue]
    exact isRounded_round hden (by decide) (by decide) d.negative d.digits

end Floating

end FieldRules
