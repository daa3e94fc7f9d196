import FieldRules.Source.Reader

/-!
# Reading types, paths and generics

The readers below follow the grammar for types, the paths of functions, attributes and the generics
of items. A type, expression or block that stands inside another phrase is read by the given
`Phrases`, after at least one lexeme was taken.
-/

namespace FieldRules.Reader

open Token (op)

/-! ## Looking ahead -/

/-- Whether a name of a path that is a keyword comes next; it takes no arguments. -/
def startsBareSegment (ls : List Lexeme) : Bool :=
  startsAnyWord ["super", "self", "crate", "try"] ls

/-- Whether the first name of a path comes next. -/
def startsSegment (ls : List Lexeme) : Bool :=
  startsName ls || startsAnyWord ["super", "self", "Self", "crate"] ls

/-- Whether a function pointer type can begin here. -/
def startsFn (ls : List Lexeme) : Bool := startsAnyWord ["fn", "unsafe", "extern"] ls

/-- Whether the parenthesised arguments of a name come next. -/
def startsParens (ls : List Lexeme) : Bool :=
  startsGroup .parenthesis ls || (starts "::" ls && startsGroup .parenthesis (ls.drop 2))

/-! ## Paths -/

def isEmptyArguments : Arguments → Bool
  | .none => true
  | .angled _ items _ => items.isEmpty
  | .parenthesized _ => false

/-- Whether no name of the path has arguments. -/
def isPlain (path : Path) : Bool :=
  path.segments.all fun s => match s.arguments with
    | .none => true
    | _ => false

/-- The names with the given arguments on the last one. -/
def withLastArguments (a : Arguments) : List Segment → List Segment
  | [] => []
  | [.mk n _] => [.mk n a]
  | s :: t :: ss => s :: withLastArguments a (t :: ss)

/-- The names of a path without arguments, at most `n`. -/
def plainNames : Nat → Reader (List Ident)
  | 0 => failure
  | n + 1 => do
    require (startsSegment (← get))
    let i ← anyIdent
    if ← mark? "::" then return i :: (← plainNames n) else return [i]

/-- A path without arguments. -/
def plainPath : Reader Path := do
  let rooted ← mark? "::"
  return ⟨rooted, (← plainNames ((← get).length + 1)).map (.mk · .none)⟩

/-- An attribute after its mark: a path, and brackets or a value. -/
def attributeBody (p : Phrases) : Reader (List Token) := do
  let path ← if startsWord "unsafe" (← get) then do pure [.ident (← anyIdent).text]
    else Path.tokens <$> plainPath
  match ← get with
  | .group .. :: _ => return path ++ [← anyGroup]
  | ls =>
    if starts "=" ls then
      mark "="
      let ls ← get
      let rest := ls.drop (if starts "-" ls then 2 else 1)
      if startsLiteral ls && rest.isEmpty then return path ++ op "=" ++ (← literal)
      require !(starts "#" ls && startsGroup .bracket (ls.drop 1))
      return path ++ op "=" ++ (← p.expression true).tokens
    else return path

/-- The attributes that come next, as tokens. -/
def attributes (p : Phrases) : Reader (List Token) := many do
  if ← mark? "#" then
    let content ← bracketed (attributeBody p)
    return some (op "#" ++ [.group .bracket content])
  else return none

/-- The attributes of the enclosing block that come next, as tokens. -/
def innerAttributes (p : Phrases) : Reader (List Token) := many do
  let ls ← get
  if starts "#" ls && starts "!" (ls.drop 1) then
    mark "#"
    mark "!"
    let content ← bracketed (attributeBody p)
    return some (op "#" ++ op "!" ++ [.group .bracket content])
  else return none

/-- A block in braces, which may begin with attributes if `inner` holds. -/
def block (p : Phrases) (inner : Bool) : Reader (List Token) := do
  let content ← braced do
    let attributes ← if inner then innerAttributes p else pure []
    return attributes ++ (← p.statements)
  return [Token.braces content]

/-- A literal, a block or what `r` reads. -/
def literalOrBlock (p : Phrases) (r : Reader (List Token)) : Reader (List Token) := do
  let ls ← get
  if startsLiteral ls then literal
  else if startsGroup .brace ls then block p true
  else r

/-! ## Bounds -/

/-- The result type of a function; nothing if it has none. -/
def output (p : Phrases) (plus : Bool) : Reader (List Token) := do
  if ← mark? "->" then return op "->" ++ (← p.ty plus).tokens else return []

def lifetimeBounds (ends : List Lexeme → Bool) : Reader (List Token) :=
  sum ends (Token.lifetime <$> lifetime)

/-- The names that a capture lists. -/
def captures : Reader (List Token) := do
  word "use"
  mark "<"
  let (names, trailing) ← list "," (starts ">") do
    let ls ← get
    if startsLifetime ls then return (true, Token.lifetime (← lifetime))
    require (startsName ls || startsWord "Self" ls)
    return (false, [.ident (← anyIdent).text])
  mark ">"
  return .ident "use" :: op "<" ++ Token.lifetimesFirst names trailing ++ op ">"

/-- A path with the arguments between angle brackets on its names. In an expression `::` stands in
front of the arguments. -/
def segment (arguments : Reader Arguments) (inExpression : Bool) : Reader Segment := do
  if startsBareSegment (← get) then return .mk (← anyIdent) .none
  let name ← if startsWord "Self" (← get) then anyIdent else ident
  let ls ← get
  if (!inExpression && starts "<" ls && !starts "<=" ls) ||
      (starts "::" ls && starts "<" (ls.drop 2)) then
    return .mk name (← arguments)
  else return .mk name .none

/-- The names of a path, at most `n`. -/
def segmentsUpTo (segment : Reader Segment) : Nat → Reader (List Segment)
  | 0 => failure
  | n + 1 => do
    let s ← segment
    let ls ← get
    if starts "::" ls && !startsGroup .parenthesis (ls.drop 2) then
      mark "::"
      return s :: (← segmentsUpTo segment n)
    else return [s]

/-- The path with the parenthesised arguments that follow its last name. -/
def withParens (p : Phrases) (path : Path) : Reader Path := do
  if path.segments.getLast?.any (fun s => isEmptyArguments s.arguments) && startsParens (← get) then
    let _ ← mark? "::"
    let inputs ← parenthesized (commas (Ty.tokens <$> p.ty true))
    let arguments := Arguments.parenthesized (Token.parens inputs :: (← output p false))
    return { path with segments := withLastArguments arguments path.segments }
  else return path

/-- What a bound may be where it stands. -/
structure BoundRules where
  /-- Whether it may list what it captures. -/
  captures : Bool
  /-- Whether the trait may be a constant one. -/
  constant : Bool

/-- A bound that was read. -/
structure BoundText where
  isTrait : Bool
  tokens : List Token

/-- A trait in a bound, and whether it is a constant one. Lifetimes cannot be bound for a relaxed
trait. -/
def traitBound (p : Phrases) (binder : Reader (List Token)) (path : Reader Path)
    (constant : Bool) : Reader (Bool × List Token) := do
  let binder? : Reader (List Token) := do
    if startsWord "for" (← get) then binder else return []
  let outer ← binder?
  let conditional ← if startsGroup .bracket (← get) then bracketed (word "const") *> pure true
    else pure false
  let isConstant ← if conditional then pure true else word? "const"
  require (constant || !isConstant)
  let relaxed ← markToken? "?"
  let inner ← if outer.isEmpty && !relaxed.isEmpty then binder? else pure []
  require (relaxed.isEmpty || (outer.isEmpty && inner.isEmpty))
  let path ← withParens p (← path)
  return (isConstant, relaxed ++ outer ++ path.tokens)

/-- A bound. One with a constant trait keeps the spacing of the source. -/
def bound (p : Phrases) (binder : Reader (List Token)) (path : Reader Path) (rules : BoundRules) :
    Reader BoundText := do
  let start ← get
  if startsLifetime start then return ⟨false, Token.lifetime (← lifetime)⟩
  else if startsWord "use" start then
    let ts ← captures
    require rules.captures
    return ⟨false, ts⟩
  else
    let parens := startsGroup .parenthesis start
    let read := traitBound p binder path rules.constant
    let (isConstant, ts) ← if parens then parenthesized read else read
    let source ← since start
    return ⟨true, if isConstant then source else if parens then [Token.parens ts] else ts⟩

/-- Whether a bound can begin here. -/
def startsBound (rules : BoundRules) (ls : List Lexeme) : Bool :=
  startsIdent ls || starts "::" ls || starts "?" ls || startsLifetime ls ||
    startsGroup .parenthesis ls || (rules.constant && startsGroup .bracket ls)

/-- What follows a bound: with `plus`, more of them, each after a `+`. The last `+` may stand
alone. -/
def moreBounds (bound : Reader BoundText) (rules : BoundRules) (plus : Bool) :
    Nat → Reader (List BoundText)
  | 0 => return []
  | n + 1 => do
    if plus && starts "+" (← get) then
      mark "+"
      if startsBound rules (← get) then
        let b ← bound
        return { b with tokens := op "+" ++ b.tokens } :: (← moreBounds bound rules plus n)
      else return [⟨false, op "+"⟩]
    else return []

/-- Bounds, of which at least one is a trait; without `plus`, one bound. -/
def bounds (bound : Reader BoundText) (rules : BoundRules) (plus : Bool) :
    Reader (List Token) := do
  let first ← bound
  let bs := first :: (← moreBounds bound rules plus ((← get).length + 1))
  require (bs.any (·.isTrait))
  return bs.flatMap (·.tokens)

/-- Bounds that follow a first one, each after a `+`, which may not stand alone; at most `n`. -/
def addedBounds (bound : Reader BoundText) : Nat → Reader (List Token)
  | 0 => return []
  | n + 1 => do
    if ← mark? "+" then return op "+" ++ (← bound).tokens ++ (← addedBounds bound n) else return []

/-! ## Generic parameters -/

/-- A parameter of a generic item, and the tokens of its default. -/
def genericParam (p : Phrases) (bound : Reader BoundText) : Reader (GenericParam × List Token) := do
  let attributes ← attributes p
  let default (r : Reader (List Token)) : Reader (List Token) := do
    if ← mark? "=" then return op "=" ++ (← r) else return []
  if startsLifetime (← get) then
    let name ← lifetime
    let limits ← if ← mark? ":" then
        lifetimeBounds fun ls => ls.isEmpty || starts "," ls || starts ">" ls
      else pure []
    return (.lifetime attributes name limits, [])
  else if ← word? "const" then
    let name ← ident
    mark ":"
    let t ← p.ty true
    let value ← default (literalOrBlock p do return [.ident (← ident).text])
    return (.const attributes name t.tokens, value)
  else
    let name ← ident
    let limits ← if ← mark? ":" then
        sum (fun ls => starts "," ls || starts ">" ls || starts "=" ls)
          (BoundText.tokens <$> bound)
      else pure []
    return (.type attributes name limits, ← default (Ty.tokens <$> p.ty true))

/-! ## The parts of types that depend on each other

Bounds bind lifetimes, the parameters that a bound binds have bounds, and the arguments of a path
may be bounds. Each of these takes a lexeme before it comes back to itself; `n` bounds how often. -/

mutual

/-- The lifetimes and other parameters that `for` binds. -/
def binderUpTo (p : Phrases) : Nat → Reader (List Token)
  | 0 => failure
  | n + 1 => do
    word "for"
    mark "<"
    let items ← list "," (starts ">") do
      let (param, value) ← genericParam p (boundUpTo p ⟨false, true⟩ n)
      return param.declaration ++ value
    mark ">"
    return .ident "for" :: op "<" ++ separated "," items ++ op ">"

/-- A bound. -/
def boundUpTo (p : Phrases) (rules : BoundRules) : Nat → Reader BoundText
  | 0 => failure
  | n + 1 => bound p (binderUpTo p n) (pathUpTo p false n) rules

/-- A path. -/
def pathUpTo (p : Phrases) (inExpression : Bool) : Nat → Reader Path
  | 0 => failure
  | n + 1 => do
    let rooted ← mark? "::"
    let segment := segment (argumentsUpTo p n) inExpression
    return ⟨rooted, ← segmentsUpTo segment ((← get).length + 1)⟩

/-- Arguments between angle brackets. -/
def argumentsUpTo (p : Phrases) : Nat → Reader Arguments
  | 0 => failure
  | n + 1 => do
    let turbofish ← mark? "::"
    mark "<"
    let (items, trailing) ← list "," (starts ">") (argumentUpTo p n)
    mark ">"
    return .angled turbofish items trailing

/-- An argument between angle brackets. -/
def argumentUpTo (p : Phrases) : Nat → Reader Argument
  | 0 => failure
  | n + 1 => do
    let ls ← get
    if startsLifetime ls && !starts "+" (ls.drop 2) then return .lifetime (← lifetime)
    else if startsLiteral ls || startsGroup .brace ls then
      return .other (← literalOrBlock p failure)
    else
      let t ← p.ty true
      match t with
      | .path false [s] =>
        if ← mark? "=" then
          return .other (s.tokens ++ op "=" ++ (← literalOrBlock p (Ty.tokens <$> p.ty true)))
        else if ← mark? ":" then
          let limits ← sum (fun ls => starts "," ls || starts ">" ls)
            (BoundText.tokens <$> boundUpTo p ⟨false, true⟩ n)
          return .other (s.tokens ++ op ":" ++ limits)
        else return .type t
      | _ => return .type t

end

/-- The lifetimes and other parameters that `for` binds. -/
def binder (p : Phrases) : Reader (List Token) := do binderUpTo p (4 * (← get).length + 4)

/-- The lifetimes that `for` binds, if it comes next. -/
def binder? (p : Phrases) : Reader (List Token) := do
  if startsWord "for" (← get) then binder p else return []

/-- A bound. -/
def anyBound (p : Phrases) (rules : BoundRules) : Reader BoundText := do
  boundUpTo p rules (4 * (← get).length + 4)

/-- A path. In an expression `::` stands in front of arguments. -/
def pathIn (p : Phrases) (inExpression : Bool) : Reader Path := do
  pathUpTo p inExpression (4 * (← get).length + 4)

/-- A path to a function or a module. -/
def path (p : Phrases) : Reader Path := pathIn p false

/-- Arguments between angle brackets. -/
def arguments (p : Phrases) : Reader Arguments := do argumentsUpTo p (4 * (← get).length + 4)

/-- A path that begins with a type, `<T as Trait>::Name`. -/
def qualified (p : Phrases) (inExpression : Bool) : Reader (List Token) := do
  mark "<"
  let self ← p.ty true
  let trait ← if ← word? "as" then do pure (.ident "as" :: (← path p).tokens) else pure []
  mark ">"
  mark "::"
  let names ← segmentsUpTo (segment (arguments p) inExpression) ((← get).length + 1)
  return op "<" ++ self.tokens ++ trait ++ op ">" ++ op "::" ++ (Path.mk false names).tokens

/-! ## Types -/

/-- The bounds of a trait object, of which those without `plus` are one. -/
def objectBounds (p : Phrases) (plus : Bool) : Reader (List Token) :=
  bounds (anyBound p ⟨false, false⟩) ⟨false, false⟩ plus

/-- A type that begins with the name of a path: the path, a macro call or, with a binder or bounds
after a `+`, a trait object. -/
def pathTy (p : Phrases) (plus : Bool) (binder : List Token) : Reader Ty := do
  let path ← path p
  let ls ← get
  if startsBang ls && isPlain path then
    mark "!"
    return .other (path.tokens ++ op "!" ++ [← anyGroup])
  else if !binder.isEmpty || (plus && starts "+" ls) then
    let more ← moreBounds (anyBound p ⟨false, false⟩) ⟨false, false⟩ plus (ls.length + 1)
    return .traitObject more.isEmpty (binder ++ path.tokens ++ more.flatMap (·.tokens))
  else return .path path.rooted path.segments

/-- A type in parentheses, a tuple type, or the first bound of a trait object in parentheses. -/
def parenTy (p : Phrases) (plus : Bool) : Reader Ty := do
  let inner ← group .parenthesis
  let more : Reader (List Token) := do
    addedBounds (anyBound p ⟨false, false⟩) ((← get).length + 1)
  if inner.isEmpty then return .other [Token.parens []]
  else if startsLifetime inner then
    return .paren (.traitObject false (← within inner (objectBounds p true)))
  else if starts "?" inner then
    let bound ← within inner (anyBound p ⟨false, false⟩)
    let others ← more
    return .traitObject others.isEmpty (Token.parens bound.tokens :: others)
  else
    match (p.ty true).run inner with
    | none => failure
    | some (first, []) =>
      let isBound := match first with
        | .path .. => true
        | .traitObject single _ => single
        | _ => false
      if plus && isBound && starts "+" (← get) then
        let bound := match first with
          | .traitObject _ [.group .parenthesis ts] => ts
          | t => t.tokens
        return .traitObject false (Token.parens bound :: (← more))
      else return .paren first
    | some (first, rest) =>
      let others ← within rest do
        mark ","
        commas (Ty.tokens <$> p.ty true)
      return .other [Token.parens (first.tokens ++ op "," ++ others)]

/-- A parameter of a function pointer type, which may be named; the `first` one may be named `self`.
A parameter `mut self` keeps the spacing of the source. -/
def fnInput (p : Phrases) (first : Bool) : Reader (List Token) := do
  let attributes ← attributes p
  let start ← get
  let mutable := first && startsWord "mut" start && startsWord "self" (start.drop 1)
  if mutable then word "mut"
  let ls ← get
  let isSelf := first && startsWord "self" ls
  if (startsName ls || startsWord "_" ls || isSelf) && startsColon (ls.drop 1) then
    let name ← anyIdent
    mark ":"
    let t ← p.ty true
    if mutable then return attributes ++ (← since start)
    else return attributes ++ [.ident name.text] ++ op ":" ++ t.tokens
  else if mutable then
    word "self"
    return attributes ++ (← since start)
  else return attributes ++ (← p.ty true).tokens

/-- The parameters of a function pointer type, at most `n`; the last one may be `...`. -/
def fnInputs (p : Phrases) (first : Bool) : Nat → Reader (List Token)
  | 0 => failure
  | n + 1 => do
    if (← get).isEmpty then return []
    let attributes ← attributes p
    let ls ← get
    let named := (startsName ls || startsWord "_" ls) && starts ":" (ls.drop 1)
    if starts "..." ls || (named && starts "..." (ls.drop 2)) then
      let name ← if named then do
          let i ← anyIdent
          mark ":"
          pure ([.ident i.text] ++ op ":")
        else pure []
      mark "..."
      return attributes ++ name ++ op "..." ++ (← markToken? ",")
    else
      let input ← fnInput p first
      if (← get).isEmpty then return attributes ++ input
      mark ","
      return attributes ++ input ++ op "," ++ (← fnInputs p false n)

/-- The calling convention of a function, if it is given. -/
def abi : Reader (List Token) := do
  if ← word? "extern" then
    match ← get with
    | .literal text (some _) _ :: ls => set ls; return [.ident "extern", .literal text]
    | _ => return [.ident "extern"]
  else return []

/-- A function pointer type. -/
def fnPointer (p : Phrases) : Reader (List Token) := do
  let safety ← wordToken? "unsafe"
  let convention ← abi
  word "fn"
  let inner ← group .parenthesis
  let inputs ← within inner (fnInputs p true (inner.length + 1))
  return safety ++ convention ++ [.ident "fn", Token.parens inputs] ++ (← output p false)

/-- A type. With `plus`, bounds of a trait object may follow. -/
def ty (p : Phrases) (plus : Bool) : Reader Ty := do
  let ls ← get
  if startsWord "for" ls then
    let binder ← binder p
    if startsFn (← get) then return .other (binder ++ (← fnPointer p))
    else
      require (startsSegment (← get))
      pathTy p plus binder
  else if startsGroup .parenthesis ls then parenTy p plus
  else if startsFn ls then return .other (← fnPointer p)
  else if starts "<" ls then return .qualified (← qualified p false)
  else if startsSegment ls || starts "::" ls then pathTy p plus []
  else if startsGroup .bracket ls then bracketed do
    let element ← p.ty true
    if ← mark? ";" then return .array element (← p.expression true).tokens
    else return .slice element
  else if ← mark? "*" then
    let isConst ← word? "const"
    if !isConst then word "mut"
    return .other (op "*" ++ [.ident (if isConst then "const" else "mut")] ++ (← p.ty false).tokens)
  else if ← mark? "&" then
    let lifetime ← lifetime?
    let mutable ← word? "mut"
    return .reference lifetime mutable (← p.ty false)
  else if ← mark? "!" then return .other (op "!")
  else if ← word? "_" then return .other [.ident "_"]
  else if ← word? "impl" then
    return .implTrait
      (.ident "impl" :: (← bounds (anyBound p ⟨true, true⟩) ⟨true, true⟩ plus))
  else if ← word? "dyn" then
    let star ← mark? "*"
    let bounds ← objectBounds p plus
    if star then return .other (← since ls)
    else return .traitObject false (.ident "dyn" :: bounds)
  else if startsLifetime ls then return .traitObject false (← objectBounds p true)
  else failure

/-! ## Generics of items -/

/-- The generic parameters of an item, with the tokens of their defaults, and whether a comma
follows the last one. -/
def genericParams (p : Phrases) : Reader (List (GenericParam × List Token) × Bool) := do
  if ← mark? "<" then
    let params ← list "," (starts ">") do
      let before ← get
      let attributes ← attributes p
      if ← word? "_" then return (.type attributes (.ofName "_") [], [])
      else
        set before
        genericParam p (anyBound p ⟨false, true⟩)
    mark ">"
    return params
  else return ([], false)

/-- The generic parameters of an item, without its `where` clause. -/
def generics (p : Phrases) : Reader Generics := do
  let (params, trailing) ← genericParams p
  return ⟨params.map (·.1), trailing, []⟩

/-- Whether a `where` clause or one of its predicates ends here. -/
def endsPredicate (ls : List Lexeme) : Bool :=
  ls.isEmpty || startsGroup .brace ls || starts "," ls || starts ";" ls || startsColon ls ||
    starts "=" ls

def predicate (p : Phrases) : Reader (List Token) := do
  let ls ← get
  if startsLifetime ls && starts ":" (ls.drop 2) then
    let name ← lifetime
    mark ":"
    return Token.lifetime name ++ op ":" ++
      (← lifetimeBounds fun ls => endsPredicate ls || starts ":" ls)
  else
    let subject := (← binder? p) ++ (← p.ty true).tokens
    mark ":"
    return subject ++ op ":" ++
      (← sum endsPredicate (BoundText.tokens <$> anyBound p ⟨false, true⟩))

/-- The predicates of a `where` clause, at most `n`. -/
def predicatesUpTo (p : Phrases) : Nat → Reader (List Token)
  | 0 => failure
  | n + 1 => do
    if endsPredicate (← get) then return []
    let ts ← predicate p
    if ← mark? "," then return ts ++ op "," ++ (← predicatesUpTo p n) else return ts

/-- The predicates of the `where` clause of an item, which may be missing. -/
def whereClause (p : Phrases) : Reader (List Token) := do
  if ← word? "where" then predicatesUpTo p ((← get).length + 1) else return []

end FieldRules.Reader
