import FieldRules.Source.Block

/-!
# Items

A struct, enum or union as a derivation sees it: its attributes, name and generics, and of a struct
the fields. Attributes keep the lexemes between their brackets, with their places, so that errors
can point at them; a field keeps the place of its type.
-/

namespace FieldRules

/-- What follows the path of an attribute. -/
inductive AttributeBody where
  | bare
  /-- Lexemes between brackets, with the place of the closing one. -/
  | list (inner : List Lexeme) (closing : Span)
  /-- A value after `=`, which stands at the given place. -/
  | value (sign : Span)

structure Attribute where
  rooted : Bool
  path : List Ident
  pathSpan : Span
  body : AttributeBody

structure FieldDecl where
  attributes : List Attribute
  /-- The name of the field; a field of a tuple struct has none. -/
  name : Option Ident
  ty : Ty
  tySpan : Span

/-- The form of a struct. -/
inductive StructForm where
  | named
  | tuple
  | unit
deriving DecidableEq, Repr

/-- What an item declares. Only the fields of structs matter here. -/
inductive ItemBody where
  | struct (form : StructForm) (fields : List FieldDecl)
  | enum
  | union

/-- A declaration of a type. -/
structure Item where
  attributes : List Attribute
  name : Ident
  nameSpan : Span
  generics : Generics
  body : ItemBody

namespace Reader

/-- The place of the next lexeme. -/
def here : Reader Span := do
  match ← get with
  | l :: _ => return l.span
  | [] => failure

/-- The names of an attribute's path, after the first one, and where the last one stands. -/
def attributeNames (last : Span) : Nat → Reader (List Ident × Span)
  | 0 => failure
  | n + 1 => do
    if ← mark? "::" then
      let span ← here
      let name ← anyIdent
      let (names, last) ← attributeNames span n
      return (name :: names, last)
    else return ([], last)

/-- What stands between the brackets of an attribute. -/
def attributeContent (p : Phrases) : Reader Attribute := do
  let start ← get
  let first ← here
  let rooted ← mark? "::"
  let span ← here
  let name ← anyIdent
  let (names, last) ← attributeNames span ((← get).length + 1)
  let body := match ← get with
    | .group _ inner _ closing :: _ => .list inner closing
    | l :: _ => .value l.span
    | [] => .bare
  set start
  let _ ← attributeBody p
  return ⟨rooted, name :: names, first.upTo last, body⟩

/-- The attributes that come next, with their places; at most `n`. -/
def placedAttributesUpTo (p : Phrases) : Nat → Reader (List Attribute)
  | 0 => return []
  | n + 1 => do
    if ← mark? "#" then
      let a ← bracketed (attributeContent p)
      return a :: (← placedAttributesUpTo p n)
    else return []

/-- The attributes that come next, with their places. -/
def placedAttributes (p : Phrases) : Reader (List Attribute) := do
  placedAttributesUpTo p (← get).length

/-- The place of what `r` takes, and its result. -/
def located {α : Type} (r : Reader α) : Reader (Span × α) := do
  let before ← get
  let a ← r
  let taken := between before (← get)
  match taken.head?, taken.getLast? with
  | some f, some l => return (f.span.upTo l.span, a)
  | _, _ => failure

/-- A field with a name, or without one. -/
def field (p : Phrases) (named : Bool) : Reader FieldDecl := do
  let attributes ← placedAttributes p
  let _ ← visibility
  if named then
    let name ← fieldName
    mark ":"
    let (span, t) ← located (fieldTy p (namedFields p) name)
    return ⟨attributes, some name, t, span⟩
  else
    let (span, t) ← located (p.ty true)
    return ⟨attributes, none, t, span⟩

/-- Everything up to the end, as fields separated by commas. -/
def fields (p : Phrases) (named : Bool) : Reader (List FieldDecl) :=
  Prod.fst <$> list "," List.isEmpty (field p named)

/-- The rest of a struct after its generic parameters: its `where` clause and body. -/
def structBody (p : Phrases) : Reader (List Token × ItemBody) := do
  let before ← whereClause p
  let ls ← get
  if startsGroup .brace ls then return (before, .struct .named (← braced (fields p true)))
  else if startsGroup .parenthesis ls && before.isEmpty then
    let fs ← parenthesized (fields p false)
    let predicates ← whereClause p
    mark ";"
    return (predicates, .struct .tuple fs)
  else
    mark ";"
    return (before, .struct .unit [])

/-- A declaration of a type. -/
def item (p : Phrases) : Reader Item := do
  let attributes ← placedAttributes p
  let _ ← visibility
  let isStruct ← word? "struct"
  let isEnum ← if isStruct then pure false else word? "enum"
  if !isStruct && !isEnum then word "union"
  let nameSpan ← here
  let name ← ident
  let params ← generics p
  if isStruct then
    let (predicates, body) ← structBody p
    return ⟨attributes, name, nameSpan, { params with predicates }, body⟩
  else
    let predicates ← whereClause p
    let _ ← braced (if isEnum then variants p else namedFields p)
    return ⟨attributes, name, nameSpan, { params with predicates },
      if isEnum then .enum else .union⟩

end Reader

/-- The declaration in a source text. -/
def Item.ofText? (text : String) : Option Item := Reader.ofText? Reader.item text

end FieldRules
