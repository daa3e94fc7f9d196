import FieldRules.Config.Draft
import FieldRules.Number.Floating

/-!
# Values

What checks are run on. A `Value` is a value of some type of a program: a leaf, an optional value, a
collection, a struct with its fields or a pointer to another value.

The operations of generated code are total. One that does not fit the value, as the size of a truth
value, has a default result; no code that is generated for the value's type meets it. Pointers are
looked through where a method is called (`Value.target`).
-/

namespace FieldRules

inductive Value where
  | integer (n : Int)
  | float (format : Format) (x : Floating)
  | text (s : String)
  | flag (b : Bool)
  | absent
  | present (inner : Value)
  /-- A sequence or set, in the order of iteration. -/
  | sequence (items : List Value)
  | mapping (entries : List (Value × Value))
  | record (name : String) (fields : List (Member × Value))
  /-- A reference or another pointer to a value. -/
  | pointer (target : Value)
  /-- A value that no check looks at. -/
  | unit

namespace Value

/-- The value behind all pointers. -/
def target : Value → Value
  | pointer v => v.target
  | v => v

/-- The value behind one pointer. -/
def pointee : Value → Value
  | pointer v => v
  | v => v

def toInt : Value → Int
  | integer n => n
  | _ => 0

/-- The floating-point number that the value is, with its format. -/
def toFloating : Value → Format × Floating
  | float f x => (f, x)
  | _ => (.binary64, .nan)

/-- The text that the value is. -/
def toText (v : Value) : String :=
  match v.target with
  | text s => s
  | _ => ""

/-- The truth value that the value is. -/
def toBool (v : Value) : Bool :=
  match v.target with
  | flag b => b
  | _ => false

/-- The number of characters of a text. -/
def length (v : Value) : Nat := v.toText.length

/-- The value inside an optional one, if it is there. -/
def inside? : Value → Option Value
  | present v => some v
  | _ => none

/-- The elements of a sequence or set. -/
def items (v : Value) : List Value :=
  match v.target with
  | sequence vs => vs
  | _ => []

/-- The entries of a map. -/
def entries (v : Value) : List (Value × Value) :=
  match v.target with
  | mapping es => es
  | _ => []

/-- The number of elements or entries of a collection. -/
def size (v : Value) : Nat :=
  match v.target with
  | sequence vs => vs.length
  | mapping es => es.length
  | _ => 0

def member (field : Member) (v : Value) : Value :=
  match v.target with
  | record _ fields => (fields.lookup field).getD unit
  | _ => unit

mutual

/-- How deeply structs are nested in the value. -/
def depth : Value → Nat
  | .present v => v.depth
  | .sequence vs => depths vs
  | .mapping es => depthEntries es
  | .record _ fields => depthFields fields + 1
  | .pointer v => v.depth
  | _ => 0

/-- How deeply structs are nested in values. -/
def depths : List Value → Nat
  | [] => 0
  | v :: vs => max v.depth (depths vs)

/-- How deeply structs are nested in the entries of a map. -/
def depthEntries : List (Value × Value) → Nat
  | [] => 0
  | (k, v) :: es => max (max k.depth v.depth) (depthEntries es)

/-- How deeply structs are nested in fields. -/
def depthFields : List (Member × Value) → Nat
  | [] => 0
  | (_, v) :: fs => max v.depth (depthFields fs)

end

end Value

end FieldRules
