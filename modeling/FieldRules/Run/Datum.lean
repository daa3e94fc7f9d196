import FieldRules.Derive.Expand
import FieldRules.Run.Program

/-!
# Reading values

A `Datum` is a value as it is written down, without its type: numbers are texts, structs are
objects. `Catalog.read` reads it as a value of a given type. A field that an object leaves out has
the value that the declaration of the struct gives for it.
-/

namespace FieldRules

/-- A value as it is written down. -/
inductive Datum where
  | null
  /-- A text or number. -/
  | text (s : String)
  | flag (b : Bool)
  | list (items : List Datum)
  | object (fields : List (String × Datum))
deriving Inhabited

/-- A declared struct and how values of it are read. -/
structure Declaration where
  item : Item
  /-- The values of fields that may be left out. -/
  defaults : List (String × Datum)
  /-- The types that its generic parameters stand for. -/
  arguments : List (String × Ty)

/-- The structs whose values can be read. -/
abbrev Catalog := List Declaration

/-! ## Ordered collections -/

namespace Value

/-- Whether one key of a map comes before another. -/
def before : Value → Value → Bool
  | integer m, integer n => m < n
  | text s, text t => s < t
  | _, _ => false

/-- The entries of an ordered map with one more; its value replaces that of the same key. -/
def insertEntry (k v : Value) : List (Value × Value) → List (Value × Value)
  | [] => [(k, v)]
  | (l, w) :: es =>
    if k.before l then (k, v) :: (l, w) :: es
    else if l.before k then (l, w) :: insertEntry k v es
    else (l, v) :: es

/-- The entries of an ordered map that is filled in the given order. -/
def orderedMap (es : List (Value × Value)) : List (Value × Value) :=
  es.foldl (fun sorted e => insertEntry e.1 e.2 sorted) []

/-- The elements of an ordered set that is filled in the given order. -/
def orderedSet (vs : List Value) : List Value :=
  (orderedMap (vs.map fun v => (v, unit))).map (·.1)

end Value

/-! ## Leaves -/

/-- The integers of a signed type. -/
def signedRange (bits : Nat) : Int × Int := (-Nat.pow 2 (bits - 1), Nat.pow 2 (bits - 1) - 1)

/-- The integers of an unsigned type. -/
def unsignedRange (bits : Nat) : Int × Int := (0, Nat.pow 2 bits - 1)

/-- The integer types with their ranges. -/
def integerRanges : List (String × (Int × Int)) :=
  [("i8", signedRange 8), ("i16", signedRange 16), ("i32", signedRange 32), ("i64", signedRange 64),
    ("i128", signedRange 128), ("isize", signedRange 64), ("u8", unsignedRange 8),
    ("u16", unsignedRange 16), ("u32", unsignedRange 32), ("u64", unsignedRange 64),
    ("u128", unsignedRange 128), ("usize", unsignedRange 64)]

namespace Datum

def text? : Datum → Option String
  | text s => some s
  | _ => none

def list? : Datum → Option (List Datum)
  | list ds => some ds
  | _ => none

def pair? : Datum → Option (Datum × Datum)
  | list [a, b] => some (a, b)
  | _ => none

/-- A datum of an object. -/
def field? (name : String) : Datum → Option Datum
  | object fields => fields.lookup name
  | _ => none

/-- An optional value that is there. -/
def given (d : Datum) : Datum := object [("some", d)]

/-- The leaf of the type with the given name. -/
def leaf? (name : String) (d : Datum) : Option Value :=
  match integerRanges.lookup name with
  | some (least, greatest) => do
    let n ← wholeNumber? (← d.text?).toList
    if least ≤ n ∧ n ≤ greatest then return .integer n else none
  | none =>
    match name, d with
    | "f32", text s => (Floating.ofText? .binary32 s.toList).map (.float .binary32)
    | "f64", text s => (Floating.ofText? .binary64 s.toList).map (.float .binary64)
    | "String", text s => some (.text s)
    | "str", text s => some (.text s)
    | "bool", flag b => some (.flag b)
    | "PhantomData", _ => some .unit
    | _, _ => none

end Datum

/-! ## Types -/

namespace Catalog

/-- The arguments of a path's last name that are types. -/
def typeArguments : Arguments → List Ty
  | .angled _ items _ => items.filterMap fun
    | .type t => some t
    | _ => none
  | _ => []

/-- The value of a trait object: a square with the given side, the one type with a trait. -/
def readObject (d : Datum) : Option Value :=
  (d.leaf? "f64").map fun side => .record "Square" [(.index 0, side)]

/-- The fields of a struct, of which `read` reads the types. -/
def readFields (read : Ty → Datum → Option Value) (decl : Declaration) (form : StructForm)
    (fields : List FieldDecl) (d : Datum) : Option (List (Member × Value)) :=
  match form, fields with
  | .unit, _ => some []
  | .tuple, [f] => do return [(.index 0, ← read f.ty d)]
  | .tuple, fs => do
    let ds ← d.list?
    if ds.length ≠ fs.length then none
    let vs ← (fs.zip ds).mapM fun (p : FieldDecl × Datum) => read p.1.ty p.2
    return vs.mapIdx fun i v => (.index i, v)
  | .named, fs => fs.mapM fun f => do
    let name ← f.name
    let v ← read f.ty (← (d.field? name.name).or (decl.defaults.lookup name.name))
    return (.named name, v)

/-- A value of a type. Types are nested less than `n` deep, and `parameters` are the types that
generic parameters stand for. -/
def readWithin (c : Catalog) (n : Nat) (parameters : List (String × Ty)) (ty : Ty) (d : Datum) :
    Option Value :=
  match n with
  | 0 => none
  | n + 1 =>
    let read := readWithin c n parameters
    match ty with
    | .reference _ _ t => (read t d).map .pointer
    | .slice t => do return .sequence (← (← d.list?).mapM (read t))
    | .array t _ => do return .sequence (← (← d.list?).mapM (read t))
    | .paren t => read t d
    | .traitObject .. => readObject d
    | .other _ => some .unit
    | .path _ segments => do
      let last ← segments.getLast?
      let name := last.name.name
      match name, typeArguments last.arguments with
      | "Option", [t] =>
        match d with
        | .null => return .absent
        | d => return .present (← read t (← d.field? "some"))
      | "Box", [t] | "Arc", [t] | "Rc", [t] | "Cow", [t] => (read t d).map .pointer
      | "Vec", [t] | "VecDeque", [t] => return .sequence (← (← d.list?).mapM (read t))
      | "BTreeSet", [t] => return .sequence (Value.orderedSet (← (← d.list?).mapM (read t)))
      | "BTreeMap", [k, t] =>
        let entries ← (← d.list?).mapM fun e => do
          let (a, b) ← e.pair?
          return (← read k a, ← read t b)
        return .mapping (Value.orderedMap entries)
      | name, _ =>
        match parameters.lookup name with
        | some t => read t d
        | none =>
          match c.find? (·.item.name.name = name) with
          | none => d.leaf? name
          | some decl =>
            match decl.item.body with
            | .struct form fields =>
              return .record name
                (← readFields (readWithin c n decl.arguments) decl form fields d)
            | _ => none
    | _ => none

/-- A value of the struct with the given name. No type of a catalog contains itself, and no field is
nested more than eight types deep. -/
def read (c : Catalog) (name : String) (d : Datum) : Option Value :=
  c.readWithin (8 * c.length + 8) [] (.path false [.mk (.ofName name) .none]) d

/-- The program that is derived from the structs, with the given validators. Structs that cannot be
derived are left out. -/
def program (c : Catalog) (validators : List (String × (Value → Option Failure))) : Program :=
  ⟨c.filterMap fun decl =>
      match decl.item.validation.result with
      | .ok plan => some (decl.item.name.name, plan)
      | .error _ => none,
    validators⟩

end Catalog

end FieldRules
