/-!
# Decimal numbers

The written forms of numbers: whole numbers with an optional sign (`wholeNumber?`), and decimal
numbers with an optional point and exponent (`Decimal.ofText?`), which keep the exact number that is
written.
-/

namespace FieldRules

/-- The sign in front of a number, true for a minus, and the text after it. -/
def splitSign : List Char → Bool × List Char
  | '-' :: s => (true, s)
  | '+' :: s => (false, s)
  | s => (false, s)

/-- The number that decimal digits stand for. -/
def digitsValue (ds : List Char) : Nat :=
  ds.foldl (fun n c => 10 * n + (c.toNat - '0'.toNat)) 0

/-- The number with the given sign. -/
def signed (negative : Bool) (n : Nat) : Int :=
  if negative then -(n : Int) else n

/-- The whole number that a text writes with an optional sign and at least one digit. -/
def wholeNumber? (s : List Char) : Option Int :=
  let (negative, ds) := splitSign s
  if ds.isEmpty || !ds.all Char.isDigit then none else some (signed negative (digitsValue ds))

/-- The exact number `digits · 10 ^ exponent`, with a sign of its own. -/
structure Decimal where
  negative : Bool
  digits : Nat
  exponent : Int
deriving DecidableEq, Repr

namespace Decimal

/-- The exponent at the end of a number: nothing, or `e` and a whole number. -/
def exponent? : List Char → Option Int
  | [] => some 0
  | c :: s => if c = 'e' ∨ c = 'E' then wholeNumber? s else none

/-- The number that a text writes with an optional sign, digits with an optional point before, among
or after them, and an optional exponent. -/
def ofText? (s : List Char) : Option Decimal :=
  let (negative, s) := splitSign s
  let whole := s.takeWhile Char.isDigit
  let (part, rest) := match s.dropWhile Char.isDigit with
    | '.' :: r => (r.takeWhile Char.isDigit, r.dropWhile Char.isDigit)
    | r => ([], r)
  if whole.isEmpty && part.isEmpty then none
  else (exponent? rest).map fun e => ⟨negative, digitsValue (whole ++ part), e - part.length⟩

end Decimal

/-- The number of decimal digits of `n`. -/
def digitCount (n : Nat) : Nat := (Nat.toDigits 10 n).length

end FieldRules
