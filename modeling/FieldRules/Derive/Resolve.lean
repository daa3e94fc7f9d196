import FieldRules.Config.Draft

/-!
# The checks of a type

`Ty.resolve` begins the configuration of a field from its type. Only the type as it is written
counts: the last name of a path decides, so that a type named `Vec` is taken for the standard one
wherever it comes from. A type that is not known is left to check itself.
-/

namespace FieldRules

/-- The integer types that take a range. -/
def integerNames : List String :=
  ["i8", "i16", "i32", "i64", "i128", "isize", "u16", "u32", "u64", "u128", "usize"]

/-- The types of sequences and sets. -/
def sequenceNames : List String :=
  ["Vec", "VecDeque", "LinkedList", "HashSet", "BTreeSet", "IndexSet", "BinaryHeap"]

def mapNames : List String := ["HashMap", "BTreeMap", "IndexMap"]

/-- The types whose values are not checked. -/
def unvalidatedNames : List String :=
  ["char", "PhantomData", "PhantomPinned", "Sender", "SyncSender", "Receiver", "UnboundedSender",
    "UnboundedReceiver"]

/-- The types that hold a trait object behind a pointer. -/
def pointerNames : List String := ["Box", "Arc", "Rc"]

namespace Ty

/-- Whether the type is written `str`. -/
def isStr : Ty → Bool
  | path false [.mk name .none] => !name.raw && name.name = "str"
  | _ => false

def isTraitObject : Ty → Bool
  | traitObject .. => true
  | _ => false

/-- The configuration of a type with the given name, whose arguments that are types are given with
their own configurations. -/
def resolveName (name : Ident) (args : List (Ty × Draft)) : Draft :=
  let known (names : List String) := !name.raw && names.contains name.name
  if known ["String", "str"] then .leaf .string
  else if known ["bool"] then .leaf .bool
  else if known ["u8"] then .leaf .byte
  else if known ["f32", "f64"] then .leaf .float
  else if known integerNames then .leaf .integer
  else if known unvalidatedNames then .skip
  else match args with
    | [] => .delegated none
    | [(t, d)] =>
      if known ["Option"] then .optional false false d
      else if known ["Cow"] && t.isStr then .leaf .string
      else if known pointerNames && t.isTraitObject then .interface true none
      else if known sequenceNames then .array .none d
      else .delegated none
    | (_, d) :: (_, e) :: _ =>
      if known sequenceNames then .array .none d
      else if known mapNames then .map .none d e
      else .delegated none

mutual

/-- The configuration of a field with the given type. -/
def resolve : Ty → Draft
  | .path _ segments => resolveSegments segments
  | .qualified _ => .delegated none
  | .reference _ _ target => target.resolveTarget
  | .slice element => .array .none element.resolve
  | .array element _ => .array .none element.resolve
  | .paren inner => inner.resolve
  | .traitObject .. => .interface false none
  | .implTrait _ => .interface false none
  | .other _ => .skip

/-- The configuration of a reference to the type. -/
def resolveTarget : Ty → Draft
  | .path rooted segments =>
    if isStr (.path rooted segments) then .leaf .string else .delegated none
  | .slice element => .array .none element.resolve
  | .array element _ => .array .none element.resolve
  | .traitObject .. => .interface true none
  | .paren inner => inner.resolveTarget
  | _ => .delegated none

/-- The configuration of a path: that of its last name. -/
def resolveSegments : List Segment → Draft
  | [] => .delegated none
  | [.mk name arguments] => resolveName name (resolveArguments arguments)
  | _ :: s :: ss => resolveSegments (s :: ss)

/-- The configurations of the arguments that are types. -/
def resolveArguments : Arguments → List (Ty × Draft)
  | .angled _ items _ => resolveItems items
  | _ => []

/-- The configurations of those among the arguments that are types. -/
def resolveItems : List Argument → List (Ty × Draft)
  | [] => []
  | .type t :: as => (t, t.resolve) :: resolveItems as
  | _ :: as => resolveItems as

end

end Ty

end FieldRules
