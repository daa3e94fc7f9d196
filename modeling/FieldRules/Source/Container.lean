import FieldRules.Source.Declaration

/-!
# Reading declarations that contain others

Modules, traits, implementations and lists of foreign functions contain declarations. Those in a
module are as in a block; in the others the same words mean slightly different things, depending on
their `Home`. `declaration` reads a declaration of any kind.
-/

namespace FieldRules

/-- What a declaration may stand in other than a block or module. -/
inductive Home where
  /-- A trait, where bodies and values are optional. -/
  | trait
  /-- An implementation, where everything has a body or value. -/
  | implementation
  /-- A list of foreign functions, where nothing has a body or value. -/
  | foreign
deriving DecidableEq

namespace Reader

open Token (op)

/-! ## Members -/

/-- A function that belongs to something; nothing if it is not as its home asks for. -/
def memberFunction (p : Phrases) (home : Home) : Reader (Option (List Token)) := do
  let safe ← if home = .foreign then word? "safe" else pure false
  let head ← signature p
  if ← mark? ";" then
    return if home = .implementation || safe then none else some (head ++ op ";")
  else
    let body ← block p true
    return if home = .foreign then none else some (head ++ body)

/-- A variable in a list of foreign functions; nothing if it has a value or a word for its safety.
-/
def foreignStatic (p : Phrases) : Reader (Option (List Token)) := do
  let isUnsafe ← word? "unsafe"
  let safe ← if isUnsafe then pure false else word? "safe"
  let body ← staticDeclaration p false
  return if isUnsafe || safe then none else body

/-- A type that belongs to something; nothing if it is not as its home asks for. -/
def memberType (p : Phrases) (home : Home) : Reader (Option (List Token)) := do
  let t ← typeName p (home = .foreign) true
  return match home with
    | .trait => some (t.head ++ t.bounds ++ t.target ++ t.after ++ op ";")
    | .implementation =>
      if t.bounded || t.target.isEmpty then none else some (t.head ++ t.target ++ t.after ++ op ";")
    | .foreign =>
      if t.bounded || !t.target.isEmpty then none
      else some (t.head ++ t.before ++ t.after ++ op ";")

/-- Whether a function comes next, which may be marked as safe in a list of foreign ones. -/
def startsMemberFunction (home : Home) (ls : List Lexeme) : Bool :=
  startsFunction ls ||
    (home = .foreign && startsWord "safe" ls && startsFunction (ls.drop 1))

/-- Whether a variable comes next in a list of foreign functions. -/
def startsForeignStatic (ls : List Lexeme) : Bool :=
  startsWord "static" ls ||
    (startsAnyWord ["unsafe", "safe"] ls && startsWord "static" (ls.drop 1))

/-- A declaration that belongs to something. In a trait it has no visibility of its own. -/
def memberDeclaration (p : Phrases) (home : Home) : Reader (List Token) := do
  let start ← get
  let attributes ← attributes p
  let visible ← visibility
  let ls ← get
  let specialized ←
    if home = .trait || (home = .implementation && !starts "!" (ls.drop 1)) then
      wordToken? "default"
    else pure []
  let head := visible ++ specialized
  let ls ← get
  let body ←
    if startsMemberFunction home ls then memberFunction p home
    else if home = .foreign && startsForeignStatic ls then foreignStatic p
    else if home ≠ .foreign && startsWord "const" ls then
      constDeclaration p (home = .implementation)
    else if startsWord "type" ls then memberType p home
    else do
      require head.isEmpty
      some <$> declaringCall false
  match body with
  | some ts =>
    if home = .trait && !head.isEmpty then since start else return attributes ++ head ++ ts
  | none => since start

/-- The attributes and declarations in the braces of something. -/
def members (p : Phrases) (item : Reader (List Token)) : Reader (List Token) := do
  let content ← braced do
    let attributes ← innerAttributes p
    let items ← many do
      if (← get).isEmpty then return none else return some (← item)
    return attributes ++ items
  return [Token.braces content]

/-! ## Containers -/

/-- A module. -/
def moduleDeclaration (p : Phrases) : Reader (List Token) := do
  let safety ← wordToken? "unsafe"
  word "mod"
  let name ← if startsWord "try" (← get) then anyIdent else ident
  let head := safety ++ [.ident "mod", .ident name.text]
  if ← mark? ";" then return head ++ op ";" else return head ++ (← members p p.declaration)

def foreignDeclaration (p : Phrases) : Reader (List Token) := do
  let safety ← wordToken? "unsafe"
  let convention ← abi
  require !convention.isEmpty
  return safety ++ convention ++ (← members p (memberDeclaration p .foreign))

/-- Bounds up to a place where `ends` holds. -/
def boundsUpTo (p : Phrases) (ends : List Lexeme → Bool) : Reader (List Token) :=
  sum ends (BoundText.tokens <$> anyBound p ⟨false, true⟩)

/-- A trait, or another name for bounds. -/
def traitDeclaration (p : Phrases) : Reader (List Token) := do
  let words := (← wordToken? "unsafe") ++ (← wordToken? "auto")
  word "trait"
  let name ← ident
  let head := words ++ [.ident "trait", .ident name.text] ++ (← parameters p)
  if words.isEmpty && starts "=" (← get) then
    mark "="
    let bounds ← boundsUpTo p fun ls => startsWord "where" ls || starts ";" ls
    let predicates ← conditions p
    mark ";"
    return head ++ op "=" ++ bounds ++ predicates ++ op ";"
  else
    let bounds ← if ← mark? ":" then
        boundsUpTo p fun ls => startsWord "where" ls || startsGroup .brace ls
      else pure []
    let predicates ← conditions p
    return head ++ (if bounds.isEmpty then [] else op ":" ++ bounds) ++ predicates ++
      (← members p (memberDeclaration p .trait))

/-- Whether the parameters of an implementation, and not a type, come next. -/
def startsParameters (ls : List Lexeme) : Bool :=
  let next := ls.drop 1
  let after := next.drop (if startsLifetime next then 2 else 1)
  starts "<" ls && (starts ">" next || starts "#" next || startsWord "const" next ||
    ((startsLifetime next || startsName next) &&
      (starts ">" after || starts "," after || startsColon after || starts "=" after)))

/-- An implementation; nothing if it is marked as visible or constant, or is for something that is
no trait. -/
def implDeclaration (p : Phrases) (visible : Bool) : Reader (Option (List Token)) := do
  let words := (← wordToken? "default") ++ (← wordToken? "unsafe")
  word "impl"
  let params ← if startsParameters (← get) then parameters p else pure []
  let ls ← get
  let constant := startsWord "const" ls || (starts "?" ls && startsWord "const" (ls.drop 1))
  if constant then
    let _ ← mark? "?"
    word "const"
  let start ← get
  let negative := starts "!" start && !startsGroup .brace (start.drop 1)
  if negative then mark "!"
  let subject ← p.ty true
  let isTrait := match subject with
    | .path .. => true
    | _ => false
  let forType ← word? "for"
  let target ←
    if forType then do
      pure ((if negative then op "!" else []) ++ subject.tokens ++ .ident "for" ::
        (← p.ty true).tokens)
    else if negative then since start
    else pure subject.tokens
  let predicates ← conditions p
  let body ← members p (memberDeclaration p .implementation)
  if visible || constant || (forType && !isTrait) then return none
  else return some (words ++ .ident "impl" :: params ++ target ++ predicates ++ body)

/-! ## Declarations -/

/-- Whether a declaration comes next, and not a statement. -/
def startsDeclaration (ls : List Lexeme) : Bool :=
  let next := ls.drop 1
  let function := ["unsafe", "extern", "fn"]
  startsDeclaringCall ls ||
    startsAnyWord ["pub", "extern", "use", "fn", "mod", "type", "struct", "enum", "trait", "impl",
      "macro"] ls ||
    (startsWord "crate" ls && !starts "::" next) ||
    (startsWord "static" ls && (startsWord "mut" next || startsName next)) ||
    (startsWord "const" ls && !startsGroup .brace next && !startsAnyWord ["static", "move"] next &&
      !starts "|" next &&
      (!startsWord "async" next || startsAnyWord function (next.drop 1))) ||
    (startsWord "unsafe" ls && !startsGroup .brace next) ||
    (startsWord "async" ls && startsAnyWord function next) ||
    (startsWord "union" ls && startsName next) ||
    (startsWord "auto" ls && startsWord "trait" next) ||
    (startsWord "default" ls && startsAnyWord ["unsafe", "impl"] next)

/-- A declaration behind its attributes and visibility; nothing if it is to keep the spacing of the
source. -/
def bareDeclaration (p : Phrases) (visible : Bool) : Reader (Option (List Token)) := do
  let ls ← get
  let next := ls.drop (if startsWord "unsafe" ls then 1 else 0)
  if startsFunction ls then functionDeclaration p
  else if startsWord "extern" ls && startsWord "crate" (ls.drop 1) then some <$> externDeclaration
  else if startsWord "extern" next then
    require !visible
    some <$> foreignDeclaration p
  else if startsWord "use" ls then useDeclaration
  else if startsWord "static" ls then staticDeclaration p true
  else if startsWord "const" ls then constDeclaration p true
  else if startsWord "trait" next ||
      (startsWord "auto" next && startsWord "trait" (next.drop 1)) then
    some <$> traitDeclaration p
  else if startsWord "impl" next || (startsWord "default" ls && !starts "!" (ls.drop 1)) then
    implDeclaration p visible
  else if startsWord "mod" next then some <$> moduleDeclaration p
  else if startsWord "type" ls then aliasDeclaration p
  else if startsAnyWord ["struct", "enum"] ls ||
      (startsWord "union" ls && startsName (ls.drop 1)) then
    some <$> typeDeclaration p
  else if startsWord "macro" ls then definedMacro *> return none
  else
    require !visible
    some <$> declaringCall true

/-- A declaration. -/
def declaration (p : Phrases) : Reader (List Token) := do
  let start ← get
  let attributes ← attributes p
  let visible ← visibility
  match ← bareDeclaration p (!visible.isEmpty) with
  | some ts => return attributes ++ visible ++ ts
  | none => since start

end Reader

end FieldRules
