import FieldRules.Run.Program
import FieldRules.Text.Blank

/-!
# Sample validators

Custom validators for the sample structs. Each gives the failure that it reports, if it refuses the
value; what holds the value sets the failure below its own path.
-/

namespace FieldRules.Sample

open Text

/-- The refusal of a value in one case. -/
def refuseIf (bad : Bool) (message : String) : Option Failure :=
  if bad then some (.custom message) else none

/-! ## Shapes -/

/-- The area of a square. -/
def area (shape : Value) : Floating := (shape.member (.index 0)).toFloating.2.square .binary64

/-- Whether a floating-point number is at most zero. -/
def isNonpositive (x : Floating) : Bool :=
  x ≠ .nan && !(Floating.finite false 0 0).lt x

/-- Refuses shapes without area. -/
def positiveArea (shape : Value) : Option Failure :=
  refuseIf (isNonpositive (area shape)) "area must be positive"

/-! ## Leaves -/

/-- Fails as the text says: `!field:message` is a failure of the field with that message. -/
def scripted (v : Value) : Option Failure :=
  match v.toText.toList with
  | '!' :: s =>
    match s.dropWhile (· ≠ ':') with
    | _ :: message =>
      some ⟨String.ofList (s.takeWhile (· ≠ ':')), .custom (String.ofList message)⟩
    | [] => none
  | _ => none

/-- Refuses texts of blanks. -/
def notBlank (v : Value) : Option Failure :=
  refuseIf (trim v.toText.toList).isEmpty "must not be blank"

/-- Refuses texts that begin with an underscore. -/
def notPrivate (v : Value) : Option Failure :=
  refuseIf (v.toText.toList.head? = some '_') ("`" ++ v.toText ++ "` is private")

/-- Refuses odd numbers. -/
def even (v : Value) : Option Failure := refuseIf (v.toInt % 2 ≠ 0) "must be even"

/-- Refuses falsehood. -/
def truth (v : Value) : Option Failure := refuseIf (!v.toBool) "must be true"

/-- Refuses bytes beyond ASCII. -/
def ascii (v : Value) : Option Failure := refuseIf (128 ≤ v.toInt) "must be ascii"

/-! ## Structs -/

/-- A field of a struct. -/
def fieldOf (v : Value) (name : String) : Value := v.member (.named (.ofName name))

/-- Refuses dogs with the name `Rex`. -/
def notRex (dog : Value) : Option Failure :=
  refuseIf ((fieldOf dog "name").toText = "Rex") "Rex is taken"

/-- Refuses dogs with names of more than ten characters. -/
def shortName (dog : Value) : Option Failure :=
  let name := fieldOf dog "name"
  refuseIf (10 < name.length) ("dog name `" ++ name.toText ++ "` is too long")

/-- Refuses maps with the key `admin`. -/
def noReserved (dogs : Value) : Option Failure :=
  refuseIf ((dogs.member (.index 0)).entries.any (·.1.toText = "admin")) "`admin` is reserved"

/-- Refuses lines of more than a hundred pieces. -/
def checkLine (line : Value) : Option Failure :=
  refuseIf (100 < (fieldOf line "quantity").toInt) "bulk orders go through sales"

/-- Refuses orders whose total is not that of their lines. -/
def checkTotals (order : Value) : Option Failure :=
  let sum := (fieldOf order "lines").items.foldr
    (fun line sum => (fieldOf line "quantity").toInt + sum) 0
  if sum = (fieldOf order "total").toInt then none
  else some ⟨"total", .custom "does not match lines"⟩

/-- Refuses orders with a total of thirteen. -/
def audit (order : Value) : Option Failure :=
  refuseIf ((fieldOf order "total").toInt = 13) "unlucky"

/-- The first text of a list that stands there before. -/
def firstRepeated (seen : List String) : List String → Option String
  | [] => none
  | s :: ss => if seen.contains s then some s else firstRepeated (s :: seen) ss

/-- Refuses lists of tags in which one stands twice. -/
def noDuplicates (tags : Value) : Option Failure :=
  (firstRepeated [] ((tags.member (.index 0)).items.map Value.toText)).map fun t =>
    .custom ("duplicate tag `" ++ t ++ "`")

/-- The sample validators by their names. -/
def validators : List (String × (Value → Option Failure)) :=
  [("positive_area", positiveArea), ("scripted", scripted), ("not_blank", notBlank),
    ("not_private", notPrivate), ("even", even), ("truth", truth), ("ascii", ascii),
    ("not_rex", notRex), ("short_name", shortName), ("no_reserved", noReserved),
    ("check", checkLine), ("check_totals", checkTotals), ("audit", audit),
    ("no_duplicates", noDuplicates)]

end FieldRules.Sample
