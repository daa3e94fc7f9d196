/-!
# Failed checks

A failed check is reported as a `Failure`: the path of the field it was found at, and the violated
constraint. Paths are dotted (`dog.name`); collection elements append `[]`, map keys and values
append `[key]` and `[value]`. A nested value reports its own paths, and `Failure.under` sets them
below the field that holds the value.
-/

namespace FieldRules

/-- A violated constraint. The texts of numeric bounds are kept as the annotation writes them. -/
inductive Violation where
  | tooFewItems (least : Nat)
  | tooManyItems (most : Nat)
  | tooShort (least : Nat)
  | tooLong (most : Nat)
  | belowMinimum (least : String)
  | aboveMaximum (most : String)
  | missing
  | custom (message : String)
deriving DecidableEq, Repr

def Violation.message : Violation → String
  | tooFewItems n => "must contain at least " ++ toString n ++ " items"
  | tooManyItems n => "must contain at most " ++ toString n ++ " items"
  | tooShort n => "must be at least " ++ toString n ++ " characters long"
  | tooLong n => "must be at most " ++ toString n ++ " characters long"
  | belowMinimum t => "must be greater than or equal to " ++ t
  | aboveMaximum t => "must be less than or equal to " ++ t
  | missing => "is required"
  | custom m => m

structure Failure where
  /-- The path of the offending field; empty for the value itself. -/
  field : String
  violation : Violation
deriving DecidableEq, Repr

namespace Failure

/-- A custom validator's refusal of the value itself. -/
def custom (message : String) : Failure := ⟨"", .custom message⟩

/-- The path of `field` below `parent`: an element's path follows without a dot. -/
def joinPath (parent field : String) : String :=
  if parent = "" then field
  else if field = "" then parent
  else if field.toList.head? = some '[' then parent ++ field
  else parent ++ "." ++ field

/-- The failure as the holder of the value reports it, at its own field `parent`. -/
def under (parent : String) (f : Failure) : Failure :=
  { f with field := joinPath parent f.field }

def message (f : Failure) : String :=
  if f.field = "" then f.violation.message else f.field ++ ": " ++ f.violation.message

end Failure

end FieldRules
