import FieldRules.Bound
import FieldRules.Proofs.Number.Rounding

/-!
# Bounds of integers

Which number the text of an integer's bound is read as (`Bound.integer_reads`). Plain digits are
read exactly. A numeral with a point or an exponent is rounded to 64 bits first, and the bound is
what it is rounded to, if that is a whole number below `2 ^ 127` in magnitude. So it is read as the
number that it denotes just if rounding makes no difference (`Bound.Kept`): the number is one of
those that 64 bits hold. All other texts are refused.
-/

namespace FieldRules

open Format (binary64)

/-! ## Whole numbers among the floating-point ones -/

namespace Floating

theorem signed_mul (negative : Bool) (m j : ℕ) :
    signed negative (m * j) = signed negative m * j := by
  cases negative <;> simp [signed]

theorem natAbs_signed (negative : Bool) (m : ℕ) : (signed negative m).natAbs = m := by
  cases negative <;> simp [signed]

/-- A finite number is read as the whole number that it is equal to. -/
theorem toInt?_finite (negative : Bool) (m : ℕ) (e n : ℤ) :
    (finite negative m e).toInt? = some n ↔ ((signed negative m : ℤ) : ℚ) * 2 ^ e = n := by
  rw [toInt?]
  split
  next he =>
    lift e to ℕ using he
    rw [Int.toNat_natCast, Option.some_inj, signed_mul, zpow_natCast]
    exact_mod_cast Iff.rfl
  next he =>
    obtain ⟨k, rfl⟩ : ∃ k : ℕ, e = -k := ⟨(-e).toNat, by omega⟩
    have hpow : (0 : ℤ) < 2 ^ k := by positivity
    have hwhole : ((signed negative m : ℤ) : ℚ) * 2 ^ (-k : ℤ) = n ↔
        signed negative m = n * 2 ^ k := by
      rw [zpow_neg, zpow_natCast, ← div_eq_mul_inv, div_eq_iff (by positivity)]
      exact_mod_cast Iff.rfl
    rw [neg_neg, Int.toNat_natCast, hwhole]
    split
    next hmod =>
      have hm : m = m / 2 ^ k * 2 ^ k := (Nat.div_mul_cancel (Nat.dvd_of_mod_eq_zero hmod)).symm
      have hsigned : signed negative m = signed negative (m / 2 ^ k) * 2 ^ k := by
        conv_lhs => rw [hm]
        rw [signed_mul]
        push_cast
        rfl
      rw [Option.some_inj, hsigned, mul_left_inj' hpow.ne']
      rfl
    next hmod =>
      refine ⟨nofun, fun h => absurd ?_ hmod⟩
      have hm := congrArg Int.natAbs h
      rw [natAbs_signed, Int.natAbs_mul, Int.natAbs_pow] at hm
      rw [hm]
      exact Nat.mul_mod_left _ _

/-- Rounding gives a whole number below `2 ^ 127` in magnitude just if there is one that `x` is
rounded to. -/
theorem toInt?_of_isRounded {r : Floating} {x : ℚ} (h : r.IsRounded binary64 x) (n : ℤ) :
    (r.toInt?.filter fun n => n.natAbs < Nat.pow 2 127) = some n ↔
      binary64.Rounds x n ∧ |(n : ℚ)| < 2 ^ 127 := by
  have hsize : (n.natAbs < Nat.pow 2 127) ↔ |(n : ℚ)| < 2 ^ 127 := by
    rw [← Int.cast_abs, Int.abs_eq_natAbs]
    exact_mod_cast Iff.rfl
  rw [Option.filter_eq_some_iff]
  simp only [decide_eq_true_eq, hsize]
  cases r with
  | nan => exact h.elim
  | infinite negative =>
    obtain ⟨y, hy, hfar⟩ := h
    refine ⟨fun h => (nomatch h.1), fun ⟨hn, hlt⟩ => ?_⟩
    rw [hy.unique hn] at hfar
    have hle : (2 : ℚ) ^ (127 : ℤ) ≤ 2 ^ binary64.greatest := Format.two_zpow_le (by decide)
    exact absurd (hfar.trans hlt) (by exact_mod_cast hle.not_gt)
  | finite negative m e =>
    rw [toInt?_finite]
    refine and_congr_left fun _ => ⟨fun hn => hn ▸ h, fun hn => h.unique hn⟩

/-! ## Reading floating-point numbers -/

theorem toLower_of_isDigit {c : Char} (h : c.isDigit = true) : c.toLower = c := by
  simp only [Char.isDigit, Bool.and_eq_true, decide_eq_true_eq, ge_iff_le,
    UInt32.le_iff_toNat_le] at h
  have hnine : '9'.val.toNat < 'A'.val.toNat := by decide
  refine dif_neg fun hupper => ?_
  have := UInt32.le_iff_toNat_le.mp hupper.1
  omega

/-- A text that begins with a digit or a point is none of the words. -/
theorem isWord_cons {c : Char} (hc : c.isDigit = true ∨ c = '.') (s : List Char) :
    isWord ["inf", "infinity"] (c :: s) = false ∧ isWord ["nan"] (c :: s) = false := by
  have hlower : c.toLower = c := by
    rcases hc with hdigit | rfl
    · exact toLower_of_isDigit hdigit
    · rfl
  have hletter : c ≠ 'i' ∧ c ≠ 'n' := by
    rcases hc with hdigit | rfl
    · constructor <;> rintro rfl <;> cases hdigit
    · decide
  have hne : ∀ (d : Char) (ds : List Char), c ≠ d → d :: ds ≠ c.toLower :: s.map Char.toLower := by
    intro d ds hd heq
    rw [hlower] at heq
    exact hd (List.cons.inj heq).1.symm
  have hinf := hne 'i' ['n', 'f'] hletter.1
  have hinfinity := hne 'i' ['n', 'f', 'i', 'n', 'i', 't', 'y'] hletter.1
  have hnan := hne 'n' ['a', 'n'] hletter.2
  simp [isWord, hinf, hinfinity, hnan]

/-- A numeral is read as what the decimal number that it denotes is rounded to. -/
theorem ofText?_numeral (t : Numeral) :
    ofText? binary64 t.text = some (ofDecimal binary64 t.decimal) := by
  obtain ⟨c, s, hs, hc⟩ := t.exists_head_rest
  obtain ⟨hinf, hnan⟩ := isWord_cons hc s
  have hsplit : splitSign t.text = (t.sign.isMinus, c :: s) := by
    rw [← hs]
    exact splitSign_text t.sign t.unsigned_rest
  rw [ofText?, hsplit]
  simp only [hinf, hnan, Bool.false_eq_true, if_false, t.ofText?_text, Option.map_some]

/-- Only numerals are read as whole numbers. -/
theorem exists_of_toInt? {s : List Char} {n : ℤ} (h : (ofText? binary64 s).bind toInt? = some n) :
    ∃ t : Numeral, t.text = s := by
  rw [ofText?] at h
  dsimp only at h
  split at h
  next => cases h
  next =>
    split at h
    next => cases h
    next =>
      obtain ⟨r, hr, -⟩ := Option.bind_eq_some_iff.mp h
      obtain ⟨d, hd, -⟩ := Option.map_eq_some_iff.mp hr
      exact Numeral.exists_of_ofText? hd

end Floating

/-! ## Bounds -/

namespace Bound

/-- The whole number that a numeral is rounded to. -/
theorem wideOfFloat?_eq_some {text : String} {t : Numeral} (ht : t.text = text.toList) (n : ℤ) :
    wideOfFloat? text = some n ↔ binary64.Rounds t.value n ∧ |(n : ℚ)| < 2 ^ 127 := by
  rw [wideOfFloat?, ← ht, Floating.ofText?_numeral, Option.bind_some, ← t.value_decimal]
  exact Floating.toInt?_of_isRounded (Floating.isRounded_ofDecimal t.decimal) n

/-- The number `x` is the whole number `n` of 128 bits. -/
def Wide (x : ℚ) (n : ℤ) : Prop := (n : ℚ) = x ∧ leastInteger ≤ n ∧ n ≤ greatestInteger

/-- A plain numeral is read as a whole number of 128 bits. -/
theorem wide?_eq_some {text : String} {t : Numeral} (ht : t.text = text.toList) (n : ℤ) :
    wide? text = some n ↔ t.Plain ∧ Wide t.value n := by
  rw [wide?, ← ht, Option.filter_eq_some_iff, Numeral.wholeNumber?_text_eq_some, Wide,
    eq_comm (a := t.value), and_assoc]
  simp

/-- A text that is no numeral is read in neither way. -/
theorem eq_none_of_no_numeral {text : String} (h : ¬ ∃ t : Numeral, t.text = text.toList) :
    wide? text = none ∧ wideOfFloat? text = none := by
  refine ⟨Option.eq_none_iff_forall_ne_some.mpr fun n hn => h ?_,
    Option.eq_none_iff_forall_ne_some.mpr fun n hn => h ?_⟩
  · obtain ⟨hwhole, -⟩ := Option.filter_eq_some_iff.mp hn
    exact Numeral.exists_of_wholeNumber? hwhole
  · obtain ⟨hfloat, -⟩ := Option.filter_eq_some_iff.mp hn
    exact Floating.exists_of_toInt? hfloat

variable {k : Key} {text : String}

theorem integer_eq_ok {n : ℤ} :
    integer k text = .ok ⟨text, n⟩ ↔ (wide? text).or (wideOfFloat? text) = some n := by
  unfold integer
  cases (wide? text).or (wideOfFloat? text) <;> simp

theorem integer_eq_error (h : ∀ n, integer k text ≠ .ok ⟨text, n⟩) :
    integer k text = .error (.malformedBound k text "integer") := by
  unfold integer at h ⊢
  split
  next n hn => exact absurd (by rw [hn]) (h n)
  next => rfl

/-- The text is read as the number `x`: it is accepted if `x` is a whole number of 128 bits, and
then as this number, and is refused otherwise. -/
structure ReadsAs (k : Key) (text : String) (x : ℚ) : Prop where
  /-- What is accepted is `x`. -/
  accepted : ∀ n, integer k text = .ok ⟨text, n⟩ ↔ Wide x n
  /-- What is not accepted is refused as malformed. -/
  refused : (∀ n, ¬ Wide x n) → integer k text = .error (.malformedBound k text "integer")

theorem ReadsAs.of_accepted {x : ℚ} (h : ∀ n, integer k text = .ok ⟨text, n⟩ ↔ Wide x n) :
    ReadsAs k text x :=
  ⟨h, fun hno => integer_eq_error fun n hn => hno n ((h n).mp hn)⟩

/-- Rounding to 64 bits makes no difference to a bound of `x`: if `x` is a whole number of 128 bits,
64 bits hold it and it is not the least one; if not, `x` is not rounded to a whole number in the
range. -/
structure Kept (x : ℚ) : Prop where
  /-- A bound stays what it is. -/
  whole : ∀ n, Wide x n → binary64.Holds x ∧ n ≠ leastInteger
  /-- What is no bound does not become one. -/
  other : (∀ n, ¬ Wide x n) → ∀ n : ℤ, |(n : ℚ)| < 2 ^ 127 → ¬ binary64.Rounds x n

theorem wide_of_abs_lt {n : ℤ} (h : |(n : ℚ)| < 2 ^ 127) : Wide n n ∧ n ≠ leastInteger := by
  have habs : |n| < 2 ^ 127 := by exact_mod_cast h
  have hlow := (abs_lt.mp habs).1
  have hhigh := (abs_lt.mp habs).2
  unfold Wide leastInteger greatestInteger
  refine ⟨⟨rfl, ?_, ?_⟩, ?_⟩ <;> norm_num at * <;> omega

theorem abs_lt_of_wide {x : ℚ} {n : ℤ} (h : Wide x n) (hne : n ≠ leastInteger) :
    |(n : ℚ)| < 2 ^ 127 := by
  obtain ⟨-, hlow, hhigh⟩ := h
  unfold leastInteger at *
  unfold greatestInteger at *
  have habs : |n| < 2 ^ 127 := by
    rw [abs_lt]
    norm_num at *
    omega
  exact_mod_cast habs

/-- A whole number out of the range is not rounded into it. -/
theorem not_rounds_of_out_of_range {v n : ℤ} (hv : ¬ (leastInteger ≤ v ∧ v ≤ greatestInteger))
    (hround : binary64.Rounds v n) : ¬ |(n : ℚ)| < 2 ^ 127 := by
  have habs : (2 : ℤ) ^ 127 ≤ |v| := by
    unfold leastInteger greatestInteger at hv
    rw [le_abs]
    norm_num at *
    omega
  have hfar : (2 : ℚ) ^ (127 : ℤ) ≤ |(v : ℚ)| := by exact_mod_cast habs
  have hle := hround.two_zpow_le_abs (by decide) hfar (by decide)
  exact not_lt.mpr (by exact_mod_cast hle)

/-- Plain digits are read exactly. -/
theorem reads_of_plain {t : Numeral} (ht : t.text = text.toList) (hplain : t.Plain) :
    ReadsAs k text t.value := by
  refine .of_accepted fun n => ?_
  rw [integer_eq_ok, Option.or_eq_some_iff]
  refine ⟨?_, fun h => .inl ((wide?_eq_some ht n).mpr ⟨hplain, h⟩)⟩
  rintro (h | ⟨hnone, hfloat⟩)
  · exact ((wide?_eq_some ht n).mp h).2
  · -- Digits that are not read exactly are out of the range, and stay there.
    obtain ⟨hround, hlt⟩ := (wideOfFloat?_eq_some ht n).mp hfloat
    have hvalue := Numeral.value_of_plain hplain
    rw [hvalue] at hround
    refine absurd hlt (not_rounds_of_out_of_range (fun hrange => ?_) hround)
    have := (wide?_eq_some ht _).mpr ⟨hplain, hvalue.symm, hrange⟩
    rw [hnone] at this
    cases this

/-- Other numerals are rounded first. -/
theorem integer_eq_ok_of_not_plain {t : Numeral} (ht : t.text = text.toList) (hplain : ¬ t.Plain)
    (n : ℤ) : integer k text = .ok ⟨text, n⟩ ↔
      binary64.Rounds t.value n ∧ |(n : ℚ)| < 2 ^ 127 := by
  have hnone : wide? text = none :=
    Option.eq_none_iff_forall_ne_some.mpr fun n hn => hplain ((wide?_eq_some ht n).mp hn).1
  rw [integer_eq_ok, hnone, Option.none_or, wideOfFloat?_eq_some ht]

/-- What is rounded to a whole number in the range is this number just if rounding makes no
difference. -/
theorem kept_iff (x : ℚ) : Kept x ↔
    ∀ n : ℤ, binary64.Rounds x n ∧ |(n : ℚ)| < 2 ^ 127 ↔ Wide x n := by
  constructor
  · intro h n
    refine ⟨fun ⟨hround, hlt⟩ => ?_, fun hwide => ?_⟩
    · by_cases hsome : ∃ v, Wide x v
      · obtain ⟨v, hv⟩ := hsome
        obtain rfl : n = v := by
          have := hround.eq_of_holds (h.whole v hv).1
          rw [← hv.1] at this
          exact_mod_cast this
        exact hv
      · exact absurd hround (h.other (not_exists.mp hsome) n hlt)
    · obtain ⟨hholds, hne⟩ := h.whole n hwide
      obtain ⟨y, hy⟩ := Floating.exists_rounds (f := binary64) (by decide) x
      have hself := hy.eq_of_holds hholds
      rw [hself, ← hwide.1] at hy
      rw [← hwide.1]
      exact ⟨hy, abs_lt_of_wide hwide hne⟩
  · intro h
    refine ⟨fun n hwide => ?_, fun hno n hlt hround => hno n ((h n).mp ⟨hround, hlt⟩)⟩
    obtain ⟨hround, hlt⟩ := (h n).mpr hwide
    refine ⟨?_, (wide_of_abs_lt hlt).2⟩
    rw [← hwide.1]
    refine hround.holds (by decide) (by decide) (hlt.trans_le ?_)
    have hle : (2 : ℚ) ^ (127 : ℤ) ≤ 2 ^ binary64.greatest := Format.two_zpow_le (by decide)
    exact_mod_cast hle

/-- A whole number that 64 bits hold is kept, except for the least one. -/
theorem kept_of_holds {x : ℚ} (h : binary64.Holds x) (hne : x ≠ leastInteger) : Kept x := by
  refine ⟨fun n hwide => ⟨h, ?_⟩, fun hno n hlt hround => ?_⟩
  · rintro rfl
    exact hne hwide.1.symm
  · have := hround.eq_of_holds h
    exact hno n (this ▸ (wide_of_abs_lt hlt).1)

/-- **What the bound of an integer is read as.** A text that is no numeral is refused. A numeral in
plain digits is read as the number that it denotes. Any other numeral is rounded to 64 bits, and
read as what it is rounded to if that is a whole number below `2 ^ 127` in magnitude; so it is read
as the number that it denotes just if rounding makes no difference to it. -/
theorem integer_reads (k : Key) (text : String) :
    ((¬ ∃ t : Numeral, t.text = text.toList) →
      integer k text = .error (.malformedBound k text "integer")) ∧
    ∀ t : Numeral, t.text = text.toList →
      (t.Plain → ReadsAs k text t.value) ∧
      (¬ t.Plain →
        (∀ n, integer k text = .ok ⟨text, n⟩ ↔
          binary64.Rounds t.value n ∧ |(n : ℚ)| < 2 ^ 127) ∧
        (ReadsAs k text t.value ↔ Kept t.value)) := by
  refine ⟨fun hno => integer_eq_error fun n hn => ?_,
    fun t ht => ⟨reads_of_plain ht, fun hplain => ?_⟩⟩
  · obtain ⟨hwide, hfloat⟩ := eq_none_of_no_numeral hno
    rw [integer_eq_ok, hwide, hfloat] at hn
    cases hn
  · have hok := integer_eq_ok_of_not_plain (k := k) ht hplain
    refine ⟨hok, ?_⟩
    rw [kept_iff]
    refine ⟨fun h n => (hok n).symm.trans (h.accepted n), fun h => .of_accepted fun n => ?_⟩
    exact (hok n).trans (h n)

/-- The numeral of `1e3`. -/
def thousand : Numeral :=
  ⟨.none, ['1'], none, some ⟨'e', .none, ['3'], .inl rfl, by decide, nofun⟩, by decide, by decide,
    .inl nofun⟩

/-- A text that is no number, and a number that 64 bits hold. -/
theorem integer_reads_thousand :
    integer .max "inf" = .error (.malformedBound .max "inf" "integer") ∧
    (thousand.text = "1e3".toList ∧ ¬ thousand.Plain ∧ thousand.value = 1000) ∧
    ReadsAs .max "1e3" 1000 ∧ integer .max "1e3" = .ok ⟨"1e3", 1000⟩ := by
  have hinf : ¬ ∃ t : Numeral, t.text = "inf".toList := by
    rintro ⟨t, ht⟩
    have hread := t.ofText?_text
    rw [ht, (by decide +kernel : Decimal.ofText? "inf".toList = none)] at hread
    cases hread
  have hvalue : thousand.value = 1000 := by
    rw [← thousand.value_decimal, (by decide +kernel : thousand.decimal = ⟨false, 1, 3⟩)]
    norm_num [Decimal.value, signed]
  have hplain : ¬ thousand.Plain := by
    rintro ⟨-, hexponent⟩
    cases hexponent
  have hholds : binary64.Holds 1000 := ⟨1000, 0, by decide, by decide, by decide, by norm_num⟩
  have hkept : Kept 1000 := kept_of_holds hholds (by norm_num [leastInteger])
  have hreads := ((integer_reads .max "1e3").2 thousand rfl).2 hplain
  rw [hvalue] at hreads
  have hexact := hreads.2.mpr hkept
  have hwide : Wide 1000 1000 := ⟨by norm_num, by decide +kernel, by decide +kernel⟩
  exact ⟨(integer_reads .max "inf").1 hinf, ⟨rfl, hplain, hvalue⟩, hexact,
    (hexact.accepted 1000).mpr hwide⟩

/-- Digits around a point. -/
def pointed (sign : Sign) (whole part : String) (hwhole : Digits whole.toList)
    (hpart : Digits part.toList) (hne : whole.toList ≠ []) : Numeral :=
  ⟨sign, whole.toList, some part.toList, none, hwhole, hpart, .inl hne⟩

/-- Three numerals for which rounding makes a difference: one more than `2 ^ 53` becomes another
whole number, the least whole number of 128 bits is refused, and a number just below one is
accepted. -/
theorem integer_misreads :
    let odd := pointed .none "9007199254740993" "0" (by decide) (by decide) (by decide)
    let least := pointed .minus "170141183460469231731687303715884105728" "0" (by decide)
      (by decide) (by decide)
    let almost := pointed .none "0" "99999999999999999999" (by decide) (by decide) (by decide)
    (odd.text = "9007199254740993.0".toList ∧ odd.value = 9007199254740993 ∧
      integer .max "9007199254740993.0" = .ok ⟨"9007199254740993.0", 9007199254740992⟩ ∧
      ¬ ReadsAs .max "9007199254740993.0" odd.value) ∧
    (least.text = "-170141183460469231731687303715884105728.0".toList ∧
      least.value = leastInteger ∧
      ¬ ReadsAs .min "-170141183460469231731687303715884105728.0" least.value) ∧
    (almost.text = "0.99999999999999999999".toList ∧ (∀ n, ¬ Wide almost.value n) ∧
      integer .max "0.99999999999999999999" = .ok ⟨"0.99999999999999999999", 1⟩ ∧
      ¬ ReadsAs .max "0.99999999999999999999" almost.value) := by
  intro odd least almost
  have hodd : odd.value = 9007199254740993 := by
    rw [← odd.value_decimal, (by decide +kernel : odd.decimal = ⟨false, 90071992547409930, -1⟩)]
    norm_num [Decimal.value, signed]
  have hleast : least.value = leastInteger := by
    rw [← least.value_decimal, (by decide +kernel :
      least.decimal = ⟨true, 1701411834604692317316873037158841057280, -1⟩)]
    norm_num [Decimal.value, signed, leastInteger]
  have halmost : almost.value = 99999999999999999999 / 10 ^ 20 := by
    rw [← almost.value_decimal, (by decide +kernel :
      almost.decimal = ⟨false, 99999999999999999999, -20⟩)]
    norm_num [Decimal.value, signed]
  have hnone : ∀ n, ¬ Wide almost.value n := by
    rintro n ⟨hn, -⟩
    rw [halmost, eq_div_iff (by norm_num)] at hn
    have : n * 10 ^ 20 = 99999999999999999999 := by exact_mod_cast hn
    omega
  have hreadOdd : integer .max "9007199254740993.0" =
      .ok ⟨"9007199254740993.0", 9007199254740992⟩ := integer_eq_ok.mpr (by decide +kernel)
  have hreadAlmost : integer .max "0.99999999999999999999" = .ok ⟨"0.99999999999999999999", 1⟩ :=
    integer_eq_ok.mpr (by decide +kernel)
  refine ⟨⟨by decide +kernel, hodd, hreadOdd, fun h => ?_⟩,
    ⟨by decide +kernel, hleast, fun h => ?_⟩, by decide +kernel, hnone, hreadAlmost, fun h => ?_⟩
  · have hwide := ((h.accepted _).mp hreadOdd).1
    rw [hodd] at hwide
    norm_num at hwide
  · have hwide : Wide least.value leastInteger := ⟨hleast.symm, le_rfl, by decide +kernel⟩
    have hread := integer_eq_ok.mp ((h.accepted _).mpr hwide)
    revert hread
    decide +kernel
  · exact hnone 1 ((h.accepted 1).mp hreadAlmost)

end Bound

end FieldRules
