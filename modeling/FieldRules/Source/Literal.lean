import FieldRules.Text.Quoted

/-!
# Numbers in source text

A literal that starts with a digit is a whole number or a floating-point number. `integer?` reads
the first kind, `isFloat` tells the second.
-/

namespace FieldRules.Literal

open Text

/-- Whether an exponent follows an `e`: digits, or a sign. -/
def startsExponent (s : List Char) : Bool :=
  let digit (c : Char) := c.isDigit || c = '_'
  (s.takeWhile digit).any Char.isDigit ||
    (s.dropWhile digit).head?.any fun c => c = '+' || c = '-'

/-- The value of a digit. Beyond the base ten, letters are digits. -/
def digit? (base : Nat) (c : Char) : Option Nat :=
  (hexValue? c).filter fun v => v < 10 || 10 < base

/-- The number that the digits write after `value`, and the suffix behind them; `found` tells
whether there was a digit before. -/
def readDigits (base value : Nat) (found : Bool) : List Char → Option (Nat × List Char)
  | [] => if found then some (value, []) else none
  | c :: s =>
    if c = '_' then readDigits base value found s
    else match digit? base c with
      | some v => if v < base then readDigits base (value * base + v) true s else none
      | none =>
        if base = 10 ∧ (c = '.' ∨ ((c = 'e' ∨ c = 'E') ∧ startsExponent s)) then none
        else if found then some (value, c :: s) else none

/-- The value and the suffix of a whole number. -/
def integer? (text : String) : Option (Nat × List Char) :=
  match text.toList with
  | '0' :: 'x' :: s => readDigits 16 0 false s
  | '0' :: 'o' :: s => readDigits 8 0 false s
  | '0' :: 'b' :: s => readDigits 2 0 false s
  | s => readDigits 10 0 false s

def isNumber (text : String) : Bool := text.toList.head?.any Char.isDigit

/-- Whether the literal is a floating-point number. -/
def isFloat (text : String) : Bool := isNumber text && (integer? text).isNone

/-- The position that a literal selects in a tuple: a whole number of 32 bits without a suffix. -/
def index? (text : String) : Option Nat :=
  match integer? text with
  | some (n, []) => if n < Nat.pow 2 32 then some n else none
  | _ => none

end FieldRules.Literal
