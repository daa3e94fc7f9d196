import FieldRules.Source.Token

/-!
# Types and paths

The types of a program, as far as a field's checks depend on them. Paths with their generic
arguments, references, arrays, slices and parentheses are kept apart, since a check looks into them.
Of a type that no check looks into (a function pointer, a tuple, a raw pointer) only the tokens are
kept, and so are the bounds of a trait object and the `<T as Trait>` of a qualified path.

`Ty.tokens` and `Path.tokens` write a type and a path in their normal spacing, in which every `>`
stands alone.
-/

namespace FieldRules

mutual

/-- A type. -/
inductive Ty where
  /-- `a::b::Name<...>`; `rooted` if it begins with `::`. -/
  | path (rooted : Bool) (segments : List Segment)
  /-- `<T>::Name` or `<T as Trait>::Name` -/
  | qualified (tokens : List Token)
  /-- `&'a T` or `&'a mut T` -/
  | reference (lifetime : Option String) (mutable : Bool) (target : Ty)
  /-- `[T]` -/
  | slice (element : Ty)
  /-- `[T; length]` -/
  | array (element : Ty) (length : List Token)
  /-- `(T)` -/
  | paren (inner : Ty)
  /-- `dyn Trait + ...`, or the same without `dyn`; `single` if it is one bound without it. -/
  | traitObject (single : Bool) (tokens : List Token)
  /-- `impl Trait + ...` -/
  | implTrait (tokens : List Token)
  | other (tokens : List Token)

/-- One name of a path, with its arguments. -/
inductive Segment where
  | mk (name : Ident) (arguments : Arguments)

/-- The arguments of a name in a path. -/
inductive Arguments where
  | none
  /-- `<...>`, or `::<...>` with `turbofish`; `trailing` if a comma follows the last argument. -/
  | angled (turbofish : Bool) (items : List Argument) (trailing : Bool)
  /-- `(...) -> ...` -/
  | parenthesized (tokens : List Token)

/-- An argument between angle brackets. -/
inductive Argument where
  | lifetime (name : String)
  | type (ty : Ty)
  /-- A constant, or a binding or constraint of an associated item. -/
  | other (tokens : List Token)

end

/-- A path to a function or a module. -/
structure Path where
  rooted : Bool
  segments : List Segment

/-- Items separated by commas, lifetimes first, in each group in written order. An item keeps the
comma that follows it. -/
def Token.lifetimesFirst (items : List (Bool × List Token)) (trailing : Bool) : List Token :=
  let count := items.length
  let marked := items.mapIdx fun i (isLifetime, ts) => (isLifetime, i + 1 < count || trailing, ts)
  let write (ms : List (Bool × Bool × List Token)) :=
    ms.flatMap fun (_, comma, ts) => if comma then ts ++ Token.op "," else ts
  let front := marked.filter (·.1)
  let back := marked.filter (!·.1)
  let missing := front.getLast?.any (!·.2.1) && !back.isEmpty
  write front ++ (if missing then Token.op "," else []) ++ write back

mutual

def Ty.tokens : Ty → List Token
  | .path rooted segments => (if rooted then Token.op "::" else []) ++ segmentTokens segments
  | .qualified ts => ts
  | .reference lifetime mutable target =>
    Token.op "&" ++ (lifetime.map Token.lifetime).getD [] ++
      (if mutable then [.ident "mut"] else []) ++ target.tokens
  | .slice element => [.group .bracket element.tokens]
  | .array element length => [.group .bracket (element.tokens ++ Token.op ";" ++ length)]
  | .paren inner => [Token.parens inner.tokens]
  | .traitObject _ ts => ts
  | .implTrait ts => ts
  | .other ts => ts

/-- The tokens of a path's names. -/
def segmentTokens : List Segment → List Token
  | [] => []
  | [s] => s.tokens
  | s :: t :: ss => s.tokens ++ Token.op "::" ++ segmentTokens (t :: ss)

/-- The tokens of a name with its arguments. -/
def Segment.tokens : Segment → List Token
  | .mk name arguments => .ident name.text :: arguments.tokens

/-- The tokens of a name's arguments. -/
def Arguments.tokens : Arguments → List Token
  | .none => []
  | .angled turbofish items trailing =>
    (if turbofish then Token.op "::" else []) ++ Token.op "<" ++
      Token.lifetimesFirst (argumentTokens items) trailing ++ Token.op ">"
  | .parenthesized ts => ts

/-- The tokens of each argument, and whether it is a lifetime. -/
def argumentTokens : List Argument → List (Bool × List Token)
  | [] => []
  | a :: as => (a.isLifetime, a.tokens) :: argumentTokens as

/-- Whether the argument is a lifetime. -/
def Argument.isLifetime : Argument → Bool
  | .lifetime _ => true
  | _ => false

def Argument.tokens : Argument → List Token
  | .lifetime name => Token.lifetime name
  | .type ty => ty.tokens
  | .other ts => ts

end

def Segment.name : Segment → Ident
  | .mk name _ => name

def Segment.arguments : Segment → Arguments
  | .mk _ arguments => arguments

namespace Path

/-- The tokens of a path. -/
def tokens (p : Path) : List Token :=
  (Ty.path p.rooted p.segments).tokens

/-- A path of plain names. -/
def ofNames (rooted : Bool) (names : List String) : Path :=
  ⟨rooted, names.map fun n => .mk (.ofName n) .none⟩

end Path

/-- A parameter of a generic item. -/
inductive GenericParam where
  | lifetime (attributes : List Token) (name : String) (bounds : List Token)
  | type (attributes : List Token) (name : Ident) (bounds : List Token)
  | const (attributes : List Token) (name : Ident) (ty : List Token)

/-- The parameters of a generic item and its `where` clause. Defaults are left out, since an
implementation repeats none. -/
structure Generics where
  params : List GenericParam
  trailing : Bool
  predicates : List Token

namespace GenericParam

/-- Whether the parameter is a lifetime. -/
def isLifetime : GenericParam → Bool
  | lifetime .. => true
  | _ => false

/-- The parameter where it is declared. -/
def declaration : GenericParam → List Token
  | lifetime attributes name bounds =>
    attributes ++ Token.lifetime name ++ (if bounds.isEmpty then [] else Token.op ":" ++ bounds)
  | type attributes name bounds =>
    attributes ++ [.ident name.text] ++ (if bounds.isEmpty then [] else Token.op ":" ++ bounds)
  | const attributes name ty =>
    attributes ++ [.ident "const", .ident name.text] ++ Token.op ":" ++ ty

/-- The parameter where it is used. -/
def use : GenericParam → List Token
  | lifetime _ name _ => Token.lifetime name
  | type _ name _ => [.ident name.text]
  | const _ name _ => [.ident name.text]

end GenericParam

namespace Generics

/-- No parameters. -/
def none : Generics := ⟨[], false, []⟩

/-- Parameters between angle brackets, each as `write` has it; nothing if there are none. -/
def angled (g : Generics) (write : GenericParam → List Token) : List Token :=
  if g.params.isEmpty then []
  else Token.op "<" ++
    Token.lifetimesFirst (g.params.map fun p => (p.isLifetime, write p)) g.trailing ++ Token.op ">"

/-- The parameters of an implementation. -/
def declarations (g : Generics) : List Token := g.angled GenericParam.declaration

/-- The arguments of the implemented type. -/
def uses (g : Generics) : List Token := g.angled GenericParam.use

/-- The `where` clause; nothing without predicates. -/
def whereClause (g : Generics) : List Token :=
  if g.predicates.isEmpty then [] else .ident "where" :: g.predicates

end Generics

end FieldRules
