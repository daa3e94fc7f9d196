import FieldRules.Number.Floating

/-!
# Shortest decimal forms

`shortest` gives the decimal number with the fewest digits that rounds to a given floating-point
number, and of those the nearest to it. A decimal number rounds to the given one if it lies in the
interval between the midpoints to its two neighbours, ends included if the significand is even. On
the grid of decimal numbers with a given number of digits, only the two next to the number need to
be tried: if any point of the grid lies in the interval, one of these does.

`positional` writes a decimal number without an exponent.
-/

namespace FieldRules

namespace Floating

/-- The exponent of the first digit of the quotient `num / den`, which is positive. -/
def leadingExponent (num den : Nat) : Int :=
  if den ≤ num then (digitCount (num / den) : Int) - 1 else -(digitCount ((den - 1) / num) : Int)

/-- Whether the decimal number `digits · 10 ^ k` rounds to `m · 2 ^ e` in the format. -/
def roundsTo (f : Format) (m : Nat) (e : Int) (digits : Nat) (k : Int) : Bool :=
  -- in quarters of the last place, as quotients over a common denominator
  let (n, d) := scale (digits * Nat.pow 10 k.toNat) (Nat.pow 10 (-k).toNat) (e - 2)
  let below := if m = Nat.pow 2 (f.precision - 1) ∧ f.least < e then 1 else 2
  let low := (4 * m - below) * d
  let high := (4 * m + 2) * d
  if m % 2 = 0 then low ≤ n && n ≤ high else low < n && n < high

/-- The decimal number with `count` digits that rounds to `m · 2 ^ e`, if there is one: the digits
and the exponent of the last digit. -/
def withDigits? (f : Format) (m : Nat) (e : Int) (count : Nat) : Option (Nat × Int) :=
  let num := m * Nat.pow 2 e.toNat
  let den := Nat.pow 2 (-e).toNat
  let k := leadingExponent num den - count + 1
  let n := num * Nat.pow 10 (-k).toNat
  let d := den * Nat.pow 10 k.toNat
  let digits := n / d
  let r := n % d
  let nearer := if 2 * r < d ∨ (2 * r = d ∧ digits % 2 = 0) then [digits, digits + 1]
    else [digits + 1, digits]
  (nearer.find? (roundsTo f m e · k)).map fun c =>
    if c = Nat.pow 10 count then (1, k + count) else (c, k)

/-- The decimal number with the fewest digits that rounds to `m · 2 ^ e`, for a positive `m`.
Seventeen digits suffice for every number of 64 bits. -/
def shortest (f : Format) (m : Nat) (e : Int) : Nat × Int :=
  ((List.range 17).findSome? fun i => withDigits? f m e (i + 1)).getD (m, 0)

end Floating

/-- The decimal number `digits · 10 ^ k` without an exponent. -/
def positional (digits : Nat) (k : Int) : List Char :=
  let ds := Nat.toDigits 10 digits
  if 0 ≤ k then ds ++ List.replicate k.toNat '0'
  else
    let places := (-k).toNat
    if places < ds.length then
      ds.take (ds.length - places) ++ '.' :: ds.drop (ds.length - places)
    else '0' :: '.' :: List.replicate (places - ds.length) '0' ++ ds

/-- The literal of the absolute value of a finite number of 64 bits: its shortest decimal form, with
a point. -/
def Floating.magnitudeText : Floating → String
  | .finite _ m e =>
    let text := if m = 0 then ['0'] else
      let (digits, k) := Floating.shortest .binary64 m e
      positional digits k
    String.ofList (if text.contains '.' then text else text ++ ['.', '0'])
  | .infinite _ => "inf.0"
  | .nan => "NaN.0"

/-- The number that a literal for `x` stands for in a format: the literal is read in that format,
not rounded a second time. -/
def Floating.literalIn (f : Format) : Floating → Floating
  | .finite negative m e =>
    if m = 0 then .finite false 0 f.least else
      let (digits, k) := Floating.shortest .binary64 m e
      Floating.ofDecimal f ⟨negative, digits, k⟩
  | x => x

end FieldRules
