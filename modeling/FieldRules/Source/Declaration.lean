import FieldRules.Source.Pattern

/-!
# Reading declarations

A block of code may declare types, functions, constants and names. A declaration that lacks a part
it should have, such as a function without a body, keeps the spacing of the source; its reader then
gives nothing. The parts that the declarations of types share are used for the items of a derivation
too.
-/

namespace FieldRules.Reader

open Token (op)

/-! ## Parts of declarations -/

/-- A visibility, which may be missing. In front of a type, parentheses after `pub` belong to it
only if they hold one of the words for a part of the program. -/
def visibility : Reader (List Token) := do
  if ← word? "pub" then
    match ← get with
    | .group .parenthesis [.ident i _] _ _ :: ls =>
      if !i.raw && ["crate", "self", "super"].contains i.name then
        set ls
        return [.ident "pub", Token.parens [.ident i.name]]
      else return [.ident "pub"]
    | .group .parenthesis inner _ _ :: ls =>
      if startsWord "in" inner then
        set ls
        let path ← within inner (word "in" *> plainPath)
        return [.ident "pub", Token.parens (.ident "in" :: path.tokens)]
      else return [.ident "pub"]
    | _ => return [.ident "pub"]
  else return []

/-- The `where` clause of a declaration; without predicates it is left out. -/
def conditions (p : Phrases) : Reader (List Token) := do
  let predicates ← whereClause p
  return if predicates.isEmpty then [] else .ident "where" :: predicates

/-- The generic parameters of a declaration, with their defaults. -/
def parameters (p : Phrases) : Reader (List Token) := do
  let (params, trailing) ← genericParams p
  if params.isEmpty then return []
  else
    let written := params.map fun (param, value) => (param.isLifetime, param.declaration ++ value)
    return op "<" ++ Token.lifetimesFirst written trailing ++ op ">"

/-- The value of a declaration after `=`; nothing if it has none. -/
def assigned (r : Reader (List Token)) : Reader (List Token) := do
  if ← mark? "=" then return op "=" ++ (← r) else return []

/-- The name of a field, or `_`. -/
def fieldName : Reader Ident := do
  if startsWord "_" (← get) then anyIdent else ident

/-- The type of a field with the given name. Instead of one, `_` may have further fields, in the
spacing of the source. -/
def fieldTy (p : Phrases) (fields : Reader (List Token)) (name : Ident) : Reader Ty := do
  let start ← get
  if name = .ofName "_" && (startsWord "struct" start ||
      (startsWord "union" start && startsGroup .brace (start.drop 1))) then
    let _ ← anyIdent
    let _ ← braced fields
    return .other (← since start)
  else p.ty true

/-- Fields with names, as tokens; at most `n` deep. -/
def namedFieldsUpTo (p : Phrases) : Nat → Reader (List Token)
  | 0 => failure
  | n + 1 => commas do
    let head := (← attributes p) ++ (← visibility)
    let name ← fieldName
    mark ":"
    let ty ← fieldTy p (namedFieldsUpTo p n) name
    return head ++ [.ident name.text] ++ op ":" ++ ty.tokens

/-- Fields with names, as tokens. -/
def namedFields (p : Phrases) : Reader (List Token) := do
  namedFieldsUpTo p (Lexeme.sizes (← get) + 1)

/-- Fields without names, as tokens. -/
def unnamedFields (p : Phrases) : Reader (List Token) := commas do
  let head := (← attributes p) ++ (← visibility)
  return head ++ (← p.ty true).tokens

def variants (p : Phrases) : Reader (List Token) := commas do
  let attributes ← attributes p
  let _ ← visibility
  let name ← ident
  let ls ← get
  let fields ←
    if startsGroup .brace ls then do pure [Token.braces (← braced (namedFields p))]
    else if startsGroup .parenthesis ls then do
      pure [Token.parens (← parenthesized (unnamedFields p))]
    else pure []
  let value ← assigned (Expression.tokens <$> p.expression true)
  return attributes ++ .ident name.text :: fields ++ value

/-! ## Types -/

/-- The rest of a struct after its generic parameters. -/
def structRest (p : Phrases) : Reader (List Token) := do
  let before ← conditions p
  let ls ← get
  if startsGroup .brace ls then return before ++ [Token.braces (← braced (namedFields p))]
  else if startsGroup .parenthesis ls && before.isEmpty then
    let fields ← parenthesized (unnamedFields p)
    let after ← conditions p
    mark ";"
    return Token.parens fields :: after ++ op ";"
  else
    mark ";"
    return before ++ op ";"

/-- A struct, enum or union. -/
def typeDeclaration (p : Phrases) : Reader (List Token) := do
  let form := (← anyIdent).text
  let name ← ident
  let head := [.ident form, .ident name.text] ++ (← parameters p)
  if form = "struct" then return head ++ (← structRest p)
  else
    let predicates ← conditions p
    let body ← braced (if form = "enum" then variants p else namedFields p)
    return head ++ predicates ++ [Token.braces body]

/-! ## Functions -/

/-- The words in front of the name of a function. -/
def functionWords : Reader (List Token) := do
  let words := (← wordToken? "const") ++ (← wordToken? "async") ++ (← wordToken? "unsafe")
  let convention ← abi
  word "fn"
  return words ++ convention ++ [.ident "fn"]

/-- The parameter for the value that a method belongs to. -/
def receiver (p : Phrases) : Reader (List Token) := do
  let reference ← if ← mark? "&" then do
      pure (op "&" ++ ((← lifetime?).map Token.lifetime).getD [])
    else pure []
  let mutable ← wordToken? "mut"
  word "self"
  let ty ← if reference.isEmpty && starts ":" (← get) then do
      mark ":"
      pure (op ":" ++ (← p.ty true).tokens)
    else pure []
  return reference ++ mutable ++ .ident "self" :: ty

/-- Whether the parameter for the value that a method belongs to comes next. -/
def startsReceiver (ls : List Lexeme) : Bool :=
  ((do
    if ← mark? "&" then let _ ← lifetime?
    let _ ← word? "mut"
    word "self"
    require !(starts "::" (← get)) : Reader Unit).run ls).isSome

/-- The parameters of a function, of which the `first` may be a receiver and the last one `...`; at
most `n`. -/
def functionInputs (p : Phrases) (first : Bool) : Nat → Reader (List Token)
  | 0 => failure
  | n + 1 => do
    if (← get).isEmpty then return []
    let attributes ← attributes p
    let ls ← get
    if starts "..." ls then
      mark "..."
      return attributes ++ op "..." ++ (← markToken? ",")
    else
      let input ←
        if first && startsReceiver ls then receiver p
        else if startsName ls && starts "<" (ls.drop 1) then do
          pure (.ident "_" :: op ":" ++ (← p.ty true).tokens)
        else do
          let pattern ← p.pattern
          mark ":"
          if ← mark? "..." then pure (pattern.tokens ++ op ":" ++ op "...")
          else pure (pattern.tokens ++ op ":" ++ (← p.ty true).tokens)
      if (← get).isEmpty then return attributes ++ input
      mark ","
      return attributes ++ input ++ op "," ++ (← functionInputs p false n)

/-- A function up to its body. -/
def signature (p : Phrases) : Reader (List Token) := do
  let words ← functionWords
  let name ← ident
  let params ← parameters p
  let inputs ← parenthesized do functionInputs p true ((← get).length + 1)
  let result ← output p true
  let predicates ← conditions p
  return words ++ .ident name.text :: params ++ Token.parens inputs :: result ++ predicates

/-- Whether a function comes next. -/
def startsFunction (ls : List Lexeme) : Bool := (functionWords.run ls).isSome

/-- A function; nothing if it has no body. -/
def functionDeclaration (p : Phrases) : Reader (Option (List Token)) := do
  let head ← signature p
  if ← mark? ";" then return none else return some (head ++ (← block p true))

/-! ## Constants and names -/

/-- A constant; nothing if it has parameters, or no value where `valued` asks for one. -/
def constDeclaration (p : Phrases) (valued : Bool) : Reader (Option (List Token)) := do
  word "const"
  let name ← if startsWord "_" (← get) then anyIdent else ident
  let generic := starts "<" (← get)
  let _ ← parameters p
  mark ":"
  let ty ← p.ty true
  let value ← assigned (Expression.tokens <$> p.expression true)
  let conditional := startsWord "where" (← get)
  let _ ← conditions p
  mark ";"
  if generic || conditional || (valued && value.isEmpty) then return none
  else
    return some
      ([.ident "const", .ident name.text] ++ op ":" ++ ty.tokens ++ value ++ op ";")

/-- A variable of the whole program; nothing if it lacks a type, or if it has a value and `valued`
asks for none, or the other way round. -/
def staticDeclaration (p : Phrases) (valued : Bool) : Reader (Option (List Token)) := do
  word "static"
  let mutable ← wordToken? "mut"
  let name ← ident
  let ty ← if valued && starts "=" (← get) then pure []
    else do
      mark ":"
      pure (op ":" ++ (← p.ty true).tokens)
  let value ← assigned (Expression.tokens <$> p.expression true)
  mark ";"
  if ty.isEmpty || value.isEmpty = valued then return none
  else return some (.ident "static" :: mutable ++ .ident name.text :: ty ++ value ++ op ";")

/-- The parts of a declaration that names a type. -/
structure TypeName where
  head : List Token
  bounded : Bool
  bounds : List Token
  /-- The `where` clause in front of the type. -/
  before : List Token
  target : List Token
  /-- The `where` clause behind the type. -/
  after : List Token

/-- A declaration that names a type. Its `where` clause stands in front of the type, behind it, or
either way. -/
def typeName (p : Phrases) (mayPrecede mayFollow : Bool) : Reader TypeName := do
  word "type"
  let name ← ident
  let params ← parameters p
  let bounded ← mark? ":"
  let bounds ← if bounded then
      sum (fun ls => startsWord "where" ls || starts "=" ls || starts ";" ls)
        (BoundText.tokens <$> anyBound p ⟨false, true⟩)
    else pure []
  let mayFollow := mayFollow && !(mayPrecede && startsWord "where" (← get))
  let before ← if mayPrecede then conditions p else pure []
  let target ← assigned (Ty.tokens <$> p.ty true)
  let after ← if mayFollow then conditions p else pure []
  mark ";"
  return {
    head := [.ident "type", .ident name.text] ++ params
    bounded
    bounds := if bounds.isEmpty then [] else op ":" ++ bounds
    before, target, after }

/-- Another name for a type; nothing if it has bounds or no type. -/
def aliasDeclaration (p : Phrases) : Reader (Option (List Token)) := do
  let t ← typeName p true false
  if t.bounded || t.target.isEmpty then return none
  else return some (t.head ++ t.before ++ t.target ++ op ";")

/-- A new name behind `as`; nothing without one. -/
def newName : Reader (List Token) := do
  if ← word? "as" then
    require (startsName (← get) || startsWord "_" (← get))
    return [.ident "as", .ident (← anyIdent).text]
  else return []

/-- The names that a `use` lists, and whether one of them begins with `::`, which only the first one
may; at most `n` deep. -/
def useTreeUpTo (first : Bool) : Nat → Reader (Bool × List Token)
  | 0 => failure
  | n + 1 => do
    let ls ← get
    if ← mark? "*" then return (false, op "*")
    else if startsGroup .brace ls then
      let items ← braced (list "," List.isEmpty do
        let rooted ← if first then mark? "::" else pure false
        let (inner, ts) ← useTreeUpTo (first && !rooted) n
        return (rooted || inner, ts))
      return (items.1.any (·.1),
        [Token.braces (separated "," (items.1.map (·.2), items.2))])
    else
      require (startsName ls || startsAnyWord ["self", "super", "crate", "try"] ls)
      let name := Token.ident (← anyIdent).text
      if ← mark? "::" then
        let (rooted, ts) ← useTreeUpTo false n
        return (rooted, name :: op "::" ++ ts)
      else return (false, name :: (← newName))

/-- A list of names that a block uses; nothing if a name inside its braces begins with `::`. -/
def useDeclaration : Reader (Option (List Token)) := do
  word "use"
  let root ← markToken? "::"
  let (rooted, tree) ← useTreeUpTo root.isEmpty (Lexeme.sizes (← get) + 1)
  mark ";"
  return if rooted then none else some (.ident "use" :: root ++ tree ++ op ";")

/-- Another program that a block uses. -/
def externDeclaration : Reader (List Token) := do
  word "extern"
  word "crate"
  let name ← if startsWord "self" (← get) then anyIdent else ident
  let other ← newName
  mark ";"
  return [.ident "extern", .ident "crate", .ident name.text] ++ other ++ op ";"

/-! ## Macros -/

/-- A macro call that declares something, which may have a name. -/
def declaringCall (named : Bool) : Reader (List Token) := do
  let path ← plainPath
  mark "!"
  let ls ← get
  let name ← if named && (startsName ls || startsWord "try" ls) then do
      pure [.ident (← anyIdent).text]
    else pure []
  let isBlock := startsGroup .brace (← get)
  let body ← anyGroup
  if !isBlock then mark ";"
  return path.tokens ++ op "!" ++ name ++ body :: (if isBlock then [] else op ";")

/-- Whether a macro call that declares a name comes next. -/
def startsDeclaringCall (ls : List Lexeme) : Bool :=
  match plainPath.run ls with
  | some (_, rest) =>
    starts "!" rest && (startsName (rest.drop 1) || startsWord "try" (rest.drop 1))
  | none => false

/-- The definition of a macro by `macro`. -/
def definedMacro : Reader Unit := do
  word "macro"
  let _ ← ident
  if startsGroup .parenthesis (← get) then let _ ← group .parenthesis
  let _ ← group .brace

end FieldRules.Reader
