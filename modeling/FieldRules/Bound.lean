import FieldRules.Config.Error
import FieldRules.Number.Floating

/-!
# Bounds

A bound is the parameter of a `min`, `max`, `min_len`, ... tag. It keeps its text, which messages
repeat, beside the number that it stands for. `Bound.count` reads a size or length, `Bound.integer`
the bound of an integer and `Bound.float` that of a floating-point number. `Limits.read` refuses a
lower bound above the upper one.
-/

namespace FieldRules

/-- A lower and an upper limit, each of which may be missing. -/
structure Limits (α : Type) where
  lower : Option α
  upper : Option α
deriving DecidableEq, Repr

namespace Limits

def none {α : Type} : Limits α := ⟨.none, .none⟩

/-- Whether there is neither limit. -/
def isNone {α : Type} (l : Limits α) : Bool := l.lower.isNone && l.upper.isNone

end Limits

/-- A bound as written, and the number it stands for. -/
structure Bound (α : Type) where
  text : String
  value : α
deriving DecidableEq, Repr

namespace Bound

/-- The least integer that a bound can be. -/
def leastInteger : Int := -Nat.pow 2 127

/-- The greatest integer that a bound can be. -/
def greatestInteger : Int := Nat.pow 2 127 - 1

/-- The greatest size of a collection or text. -/
def greatestCount : Nat := Nat.pow 2 64 - 1

/-- The whole number of 128 bits that a text writes. -/
def wide? (text : String) : Option Int :=
  (wholeNumber? text.toList).filter fun n => leastInteger ≤ n && n ≤ greatestInteger

/-- A bound of a size or length. -/
def count (k : Key) (text : String) : Except ConfigError (Bound Nat) :=
  match wide? text with
  | none => .error (.malformedBound k text "non-negative integer")
  | some n =>
    if n < 0 then .error (.negativeBound k text)
    else if greatestCount < n.toNat then .error (.malformedBound k text "size")
    else .ok ⟨text, n.toNat⟩

/-- The whole number that a floating-point number of 64 bits stands for, below `2 ^ 127` in
magnitude. -/
def wideOfFloat? (text : String) : Option Int :=
  ((Floating.ofText? .binary64 text.toList).bind Floating.toInt?).filter fun n =>
    n.natAbs < Nat.pow 2 127

/-- A bound of an integer. A text that is no plain whole number may still write one, with a point or
an exponent; it is read as a floating-point number of 64 bits. -/
def integer (k : Key) (text : String) : Except ConfigError (Bound Int) :=
  match (wide? text).or (wideOfFloat? text) with
  | some n => .ok ⟨text, n⟩
  | none => .error (.malformedBound k text "integer")

/-- A bound of a floating-point number, which is finite. -/
def float (k : Key) (text : String) : Except ConfigError (Bound Floating) :=
  match (Floating.ofText? .binary64 text.toList).filter Floating.isFinite with
  | some x => .ok ⟨text, x⟩
  | none => .error (.malformedBound k text "number")

/-- A bound that may be missing. -/
def ofSlot {α : Type} (read : Key → String → Except ConfigError (Bound α)) (k : Key) :
    Option String → Except ConfigError (Option (Bound α))
  | none => .ok none
  | some text => (read k text).map some

end Bound

namespace Limits

/-- The bounds that two slots hold, of which the lower one is judged first. `below` orders the
numbers. -/
def read {α : Type} (read : Key → String → Except ConfigError (Bound α)) (below : α → α → Bool)
    (lowerKey upperKey : Key) (slots : Limits String) : Except ConfigError (Limits (Bound α)) := do
  let lower ← Bound.ofSlot read lowerKey slots.lower
  let upper ← Bound.ofSlot read upperKey slots.upper
  match lower, upper with
  | some l, some u =>
    if below u.value l.value then throw (.invertedBounds lowerKey l.text upperKey u.text)
    else return ⟨lower, upper⟩
  | _, _ => return ⟨lower, upper⟩

end Limits

end FieldRules
