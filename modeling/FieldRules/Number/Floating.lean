import FieldRules.Number.Decimal

/-!
# Floating-point numbers

A binary floating-point number is a significand times a power of two, an infinity or no number at
all. `Floating.round` gives the number of a `Format` that is nearest to a quotient, and the one with
an even significand if two are equally near; all arithmetic on the way is exact. Numbers of
different formats can be compared, since the comparison is exact as well.
-/

namespace FieldRules

/-- A binary floating-point format. -/
structure Format where
  /-- The number of bits of a significand. -/
  precision : Nat
  /-- The exponent of the smallest positive number. -/
  least : Int
  /-- The exponent of the largest finite number. -/
  greatest : Int
deriving DecidableEq, Repr

namespace Format

def binary32 : Format := ⟨24, -149, 104⟩

def binary64 : Format := ⟨53, -1074, 971⟩

end Format

/-- A floating-point number. -/
inductive Floating where
  | nan
  | infinite (negative : Bool)
  /-- `significand · 2 ^ exponent`, with a sign that zero has too. -/
  | finite (negative : Bool) (significand : Nat) (exponent : Int)
deriving DecidableEq, Repr

namespace Floating

/-- The numerator and denominator of `(num / den) / 2 ^ e`. -/
def scale (num den : Nat) (e : Int) : Nat × Nat :=
  if 0 ≤ e then (num, den * Nat.pow 2 e.toNat) else (num * Nat.pow 2 (-e).toNat, den)

/-- The whole number nearest to a quotient, the even one of two. -/
def roundQuotient (num den : Nat) : Nat :=
  let q := num / den
  let r := num % den
  if 2 * r < den ∨ (2 * r = den ∧ q % 2 = 0) then q else q + 1

/-- The exponent of the numbers of the format around the quotient `num / den`: with it, the
significand has as many bits as the format holds, unless the exponent is the least one. -/
def exponentOf (f : Format) (num den : Nat) : Int :=
  let e := max (num.log2 - den.log2 - f.precision + 1 : Int) f.least
  let (n, d) := scale num den e
  if n / d < Nat.pow 2 (f.precision - 1) ∧ f.least < e then e - 1 else e

/-- The number of the format nearest to the quotient `num / den`, for a positive `den`. -/
def round (f : Format) (negative : Bool) (num den : Nat) : Floating :=
  if num = 0 then finite negative 0 f.least
  else
    let e := exponentOf f num den
    let (n, d) := scale num den e
    let m := roundQuotient n d
    let (m, e) := if m = Nat.pow 2 f.precision then (m / 2, e + 1) else (m, e)
    if f.greatest < e then infinite negative else finite negative m e

/-- The number of the format nearest to a decimal number. Numbers far beyond every format are not
written out. -/
def ofDecimal (f : Format) (d : Decimal) : Floating :=
  let magnitude := d.exponent + digitCount d.digits
  if d.digits = 0 ∨ magnitude < -400 then finite d.negative 0 f.least
  else if 400 < magnitude then infinite d.negative
  else if 0 ≤ d.exponent then round f d.negative (d.digits * Nat.pow 10 d.exponent.toNat) 1
  else round f d.negative d.digits (Nat.pow 10 (-d.exponent).toNat)

/-- Whether a text is one of the words, in any case. -/
def isWord (words : List String) (s : List Char) : Bool :=
  words.any fun w => w.toList = s.map Char.toLower

/-- The number that a text writes: a decimal number, an infinity or `nan`. -/
def ofText? (f : Format) (s : List Char) : Option Floating :=
  let (negative, word) := splitSign s
  if isWord ["inf", "infinity"] word then some (infinite negative)
  else if isWord ["nan"] word then some nan
  else (Decimal.ofText? s).map (ofDecimal f)

/-! ## Values -/

def isFinite : Floating → Bool
  | finite .. => true
  | _ => false

/-- The whole number that a finite number is equal to. -/
def toInt? : Floating → Option Int
  | finite negative m e =>
    if 0 ≤ e then some (signed negative (m * Nat.pow 2 e.toNat))
    else if m % Nat.pow 2 (-e).toNat = 0 then some (signed negative (m / Nat.pow 2 (-e).toNat))
    else none
  | _ => none

/-- Whether one number is below another. Nothing is below or above `nan`. -/
def lt : Floating → Floating → Bool
  | nan, _ => false
  | _, nan => false
  | infinite a, infinite b => a && !b
  | infinite a, finite .. => a
  | finite .., infinite b => !b
  | finite a m d, finite b n e =>
    let low := min d e
    signed a (m * Nat.pow 2 (d - low).toNat) < signed b (n * Nat.pow 2 (e - low).toNat)

/-- The square of a number, in the given format. -/
def square (f : Format) : Floating → Floating
  | nan => nan
  | infinite _ => infinite false
  | finite _ m e =>
    if 0 ≤ e then round f false (m * m * Nat.pow 2 (2 * e).toNat) 1
    else round f false (m * m) (Nat.pow 2 (-(2 * e)).toNat)

end Floating

end FieldRules
