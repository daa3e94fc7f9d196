import FieldRules.Source.Pattern

/-!
# Reading expressions

A constant among the arguments of a type is a block of code, and so is the length of an array, so
that a type may hold any expression. `operand` reads an expression up to a binary operator,
`expression` a whole one, and `clause` one that ends at its block if it begins with a keyword that
has one.

Where a block must follow, as after the condition of an `if`, a brace does not continue a path to a
struct; such expressions are read without `braces`.
-/

namespace FieldRules

/-- How tightly an operator binds. A later one binds tighter. -/
inductive Binding where
  | nothing
  /-- Assignments, which group from the right. -/
  | assignment
  | range
  | or
  | and
  /-- Comparisons, which do not group. -/
  | comparison
  | bitOr
  | bitXor
  | bitAnd
  | shift
  | sum
  | product
  | cast
deriving DecidableEq

/-- The expression behind attributes. One that is kept in the spacing of the source has none. -/
def Expression.withAttributes (attributes : List Token) (e : Expression) : Expression :=
  if e.kind = .verbatim then e else { e with tokens := attributes ++ e.tokens }

namespace Reader

open Token (op)

/-! ## Binary operators -/

/-- The binary operators. Where one begins another, the longer one comes first. -/
def binaryOperators : List (String × Binding) :=
  [("+=", .assignment), ("-=", .assignment), ("*=", .assignment), ("/=", .assignment),
    ("%=", .assignment), ("^=", .assignment), ("&=", .assignment), ("|=", .assignment),
    ("<<=", .assignment), (">>=", .assignment), ("&&", .and), ("||", .or), ("<<", .shift),
    (">>", .shift), ("==", .comparison), ("<=", .comparison), ("!=", .comparison),
    (">=", .comparison), ("+", .sum), ("-", .sum), ("*", .product), ("/", .product),
    ("%", .product), ("^", .bitXor), ("&", .bitAnd), ("|", .bitOr), ("<", .comparison),
    (">", .comparison)]

/-- The binary operator that comes next. -/
def binaryOperator? (ls : List Lexeme) : Option (String × Binding) :=
  binaryOperators.find? fun (sign, _) => starts sign ls

/-- Whether an assignment comes next. -/
def startsAssignment (ls : List Lexeme) : Bool := starts "=" ls && !starts "=>" ls

/-- How tightly the operator that comes next binds. -/
def nextBinding (ls : List Lexeme) : Binding :=
  match binaryOperator? ls with
  | some (_, binding) => binding
  | none =>
    if startsAssignment ls then .assignment
    else if starts ".." ls then .range
    else if startsWord "as" ls then .cast
    else .nothing

/-- Whether a range with an open end may end here. -/
def endsRange (braces : Bool) (ls : List Lexeme) : Bool :=
  ls.isEmpty || startsPoint ls || (!braces && startsGroup .brace ls) || startsWord "as" ls ||
    [",", ";", "?", "=>", "=", "+", "/", "%", "^", ">", "<=", "!=", "-=", "*=", "&=", "|=",
      "<<="].any (starts · ls)

/-- Whether a cast would be continued here as if it were an operand. -/
def continuesCast (ls : List Lexeme) : Bool :=
  startsPoint ls || starts "?" ls || startsGroup .bracket ls || startsGroup .parenthesis ls

mutual

/-- The operators that bind at least as tightly as `least`, with what follows them. -/
def operatorsUpTo (p : Phrases) (braces : Bool) (operand : Reader Expression) (least : Binding) :
    Nat → Expression → Reader Expression
  | 0, _ => failure
  | n + 1, left => do
    let ls ← get
    let binding := nextBinding ls
    if left.kind = .range || binding = .nothing || binding.ctorIdx < least.ctorIdx then return left
    match binaryOperator? ls with
    | some (sign, _) =>
      require !(binding = .comparison && left.kind = .comparison)
      mark sign
      let right ← rightUpTo p braces operand binding n
      let kind := if binding = .comparison then .comparison else .other
      operatorsUpTo p braces operand least n ⟨kind, left.tokens ++ op sign ++ right.tokens⟩
    | none =>
      if binding = .assignment then
        mark "="
        let right ← rightUpTo p braces operand .assignment n
        operatorsUpTo p braces operand least n ⟨.other, left.tokens ++ op "=" ++ right.tokens⟩
      else if binding = .range then
        let sign ← rangeMark false
        let upper ← rangeEndUpTo p braces operand (sign.length = 2) n
        operatorsUpTo p braces operand least n ⟨.range, left.tokens ++ sign ++ upper⟩
      else
        word "as"
        let target ← p.ty false
        require !continuesCast (← get)
        operatorsUpTo p braces operand least n
          ⟨.other, left.tokens ++ .ident "as" :: target.tokens⟩

/-- What follows an operator. -/
def rightUpTo (p : Phrases) (braces : Bool) (operand : Reader Expression) (binding : Binding) :
    Nat → Reader Expression
  | 0 => failure
  | n + 1 => do moreRightUpTo p braces operand binding n (← operand)

/-- What follows an operator whose right side begins with `right`. -/
def moreRightUpTo (p : Phrases) (braces : Bool) (operand : Reader Expression)
    (binding : Binding) : Nat → Expression → Reader Expression
  | 0, _ => failure
  | n + 1, right => do
    let ls ← get
    let next := nextBinding ls
    if binding.ctorIdx < next.ctorIdx || (next = binding && binding = .assignment) then
      let longer ← operatorsUpTo p braces operand next n right
      if (← get).length < ls.length then moreRightUpTo p braces operand binding n longer
      else return longer
    else return right

/-- The upper bound of a range; without one, nothing, where the range may be open. -/
def rangeEndUpTo (p : Phrases) (braces : Bool) (operand : Reader Expression) (mayBeOpen : Bool) :
    Nat → Reader (List Token)
  | 0 => failure
  | n + 1 => do
    if mayBeOpen && endsRange braces (← get) then return []
    else return (← rightUpTo p braces operand .range n).tokens

end

/-- An expression of operators that bind at least as tightly as `least`. -/
def operation (p : Phrases) (braces : Bool) (operand : Reader Expression) (least : Binding) :
    Reader Expression := do
  let first ← operand
  operatorsUpTo p braces operand least (4 * (← get).length + 4) first

/-! ## Parts of expressions -/

/-- An expression that is not of a kind of its own. -/
def plain (tokens : List Token) : Expression := ⟨.other, tokens⟩

/-- An expression, as tokens. -/
def value (p : Phrases) : Reader (List Token) := Expression.tokens <$> p.expression true

/-- An expression that a block follows, as tokens. -/
def condition (p : Phrases) : Reader (List Token) := Expression.tokens <$> p.expression false

/-- Whether an expression can begin here. -/
def startsExpression (ls : List Lexeme) : Bool :=
  (startsIdent ls && !startsWord "as" ls) || startsGroup .parenthesis ls ||
    startsGroup .bracket ls || startsGroup .brace ls || startsLiteral ls || startsBang ls ||
    (starts "-" ls && !starts "-=" ls && !starts "->" ls) || (starts "*" ls && !starts "*=" ls) ||
    (starts "|" ls && !starts "|=" ls) || (starts "&" ls && !starts "&=" ls) || starts ".." ls ||
    (starts "<" ls && !starts "<=" ls && !starts "<<=" ls) || starts "::" ls ||
    startsLifetime ls || starts "#" ls

/-- An expression if one can begin here, as tokens. -/
def optionalValue (p : Phrases) : Reader (List Token) := do
  if startsExpression (← get) then value p else return []

/-- Whether the parameters of a closure, and not a loop, follow a `for`. -/
def startsClosureBinder (ls : List Lexeme) : Bool :=
  startsWord "for" ls && starts "<" (ls.drop 1) &&
    (startsLifetime (ls.drop 2) || starts ">" (ls.drop 2))

/-- The label of a loop or block, if there is one. -/
def label : Reader (List Token) := do
  match ← lifetime? with
  | some name => mark ":" *> return Token.lifetime name ++ op ":"
  | none => return []

/-! ## What follows an operand -/

/-- The positions that a number with points in it selects, each behind a point; without the last
point if the number ends with one. -/
def positions (text : String) : Option (List Token × Bool) :=
  let chars := text.toList
  let trailing := chars.getLast? = some '.'
  let parts := (String.ofList (if trailing then chars.dropLast else chars)).splitOn "."
  (parts.mapM Literal.index?).map fun is =>
    (is.flatMap fun i => op "." ++ [Token.number i], trailing)

/-- The positions that a number behind a point selects, if one comes next. -/
def positions? : Reader (Option (List Token × Bool)) := do
  match ← get with
  | .literal text _ _ :: ls =>
    if Literal.isFloat text then
      match positions text with
      | some found => set ls; return some found
      | none => failure
    else return none
  | _ => return none

/-- The field or method that follows a point. -/
def selection (p : Phrases) : Reader (List Token) := do
  let (named, name) ← member
  let turbofish ← if named && starts "::" (← get) then do
      require (starts "<" ((← get).drop 2))
      Arguments.tokens <$> arguments p
    else pure []
  let isCall := !turbofish.isEmpty || (named && startsGroup .parenthesis (← get))
  let call ← if isCall then do pure [Token.parens (← parenthesized (commas (value p)))] else pure []
  return op "." ++ name :: turbofish ++ call

/-- What follows a point. -/
def behindPoint (p : Phrases) : Reader (List Token) := do
  let named : Reader (List Token) := do
    if ← word? "await" then return op "." ++ [.ident "await"] else selection p
  match ← positions? with
  | some (ts, true) => return ts ++ (← named)
  | some (ts, false) => return ts
  | none => named

/-- Calls, fields, elements and `?` that follow an operand; at most `n` of them. -/
def trailersUpTo (p : Phrases) : Nat → Expression → Reader Expression
  | 0, e => return e
  | n + 1, e => do
    let ls ← get
    let isRange := e.kind = .range
    let more (ts : List Token) := trailersUpTo p n ⟨.other, e.tokens ++ ts⟩
    if startsGroup .parenthesis ls then
      more [Token.parens (← parenthesized (commas (value p)))]
    else if startsPoint ls && !isRange then
      mark "."
      more (← behindPoint p)
    else if startsGroup .bracket ls then more [.group .bracket (← bracketed (value p))]
    else if starts "?" ls && !isRange then
      mark "?"
      more (op "?")
    else return e

/-- An operand with the calls, fields, elements and `?` that follow it. -/
def trailers (p : Phrases) (e : Expression) : Reader Expression := do
  trailersUpTo p (← get).length e

/-! ## Operands that begin with a word -/

/-- A field of a struct expression. -/
def fieldValue (p : Phrases) : Reader (List Token) := do
  let attributes ← attributes p
  let (named, name) ← member
  if !named || starts ":" (← get) then
    mark ":"
    return attributes ++ name :: op ":" ++ (← value p)
  else return attributes ++ [name]

/-- The fields of a struct expression, behind which `..` may stand; at most `n`. -/
def fieldValues (p : Phrases) : Nat → Reader (List Token)
  | 0 => failure
  | n + 1 => do
    let ls ← get
    if ls.isEmpty then return []
    if ← mark? ".." then
      if (← get).isEmpty then return op ".." else return op ".." ++ (← value p)
    let field ← fieldValue p
    if (← get).isEmpty then return field
    mark ","
    return field ++ op "," ++ (← fieldValues p n)

def pathExpression (p : Phrases) (braces : Bool) : Reader Expression := do
  let (path, isPlain) ← valuePath p
  let ls ← get
  if startsBang ls && isPlain then
    let inBraces := startsGroup .brace (ls.drop 1)
    return ⟨if inBraces then .bracedCall else .other, path ++ (← callBody)⟩
  else if braces && startsGroup .brace ls then
    let fields ← Reader.braced do fieldValues p ((← get).length + 1)
    return plain (path ++ [Token.braces fields])
  else return plain path

/-- A parameter of a closure. A pattern that is kept in the spacing of the source has no attributes,
unless a type follows it. -/
def closureInput (p : Phrases) : Reader (List Token) := do
  let attributes ← attributes p
  let pattern ← p.pattern
  if ← mark? ":" then return attributes ++ pattern.tokens ++ op ":" ++ (← p.ty true).tokens
  else if pattern.kind = .verbatim then return pattern.tokens
  else return attributes ++ pattern.tokens

/-- A closure. -/
def closure (p : Phrases) (braces : Bool) : Reader (List Token) := do
  let binder ← binder? p
  let words := (← wordToken? "const") ++ (← wordToken? "static") ++ (← wordToken? "async") ++
    (← wordToken? "move")
  mark "|"
  let inputs ← list "," (starts "|") (closureInput p)
  mark "|"
  let head := binder ++ words ++ op "|" ++ separated "," inputs ++ op "|"
  if starts "->" (← get) then return head ++ (← output p true) ++ (← block p false)
  else return head ++ (← p.expression braces).tokens

/-- The rest of a conditional after its `if`: the condition and the block, and further ones after
`else`; at most `n`. -/
def conditional (p : Phrases) : Nat → Reader (List Token)
  | 0 => failure
  | n + 1 => do
    let test ← condition p
    let body ← block p false
    let head := .ident "if" :: test ++ body
    if ← word? "else" then
      if ← word? "if" then return head ++ .ident "else" :: (← conditional p n)
      else return head ++ .ident "else" :: (← block p false)
    else return head

/-- An alternative of a `match`. A comma follows, unless it ends in a block. -/
def arm (p : Phrases) : Reader (List Token) := do
  let attributes ← attributes p
  let pattern ← alternatives p
  let guard ← if ← word? "if" then do pure (.ident "if" :: (← value p)) else pure []
  mark "=>"
  let body ← p.clause
  let comma ← markToken? ","
  require (!comma.isEmpty || body.kind = .block || (← get).isEmpty)
  return attributes ++ pattern.tokens ++ guard ++ op "=>" ++ body.tokens ++ comma

/-- The alternatives of a `match`, up to the end of its block; at most `n`. -/
def arms (p : Phrases) : Nat → Reader (List Token)
  | 0 => failure
  | n + 1 => do
    if (← get).isEmpty then return [] else return (← arm p) ++ (← arms p n)

/-- A block or loop, which may have a label. -/
def labelledBlock (p : Phrases) : Reader (List Token) := do
  let ls ← get
  if startsGroup .brace ls then block p true
  else if ← word? "loop" then return .ident "loop" :: (← block p true)
  else if ← word? "while" then
    let test ← condition p
    return .ident "while" :: test ++ (← block p true)
  else
    word "for"
    let item ← alternatives p
    word "in"
    let source ← condition p
    return .ident "for" :: item.tokens ++ .ident "in" :: source ++ (← block p true)

def blockExpression (p : Phrases) : Reader Expression := do
  let label ← label
  let ls ← get
  let tokens ←
    if !label.isEmpty then labelledBlock p
    else if ← word? "if" then conditional p ((← get).length + 1)
    else if ← word? "match" then do
      let subject ← condition p
      let body ← Reader.braced do
        let attributes ← innerAttributes p
        return attributes ++ (← arms p ((← get).length + 1))
      pure (.ident "match" :: subject ++ [Token.braces body])
    else if ← word? "unsafe" then do pure (.ident "unsafe" :: (← block p true))
    else if ← word? "try" then do pure (.ident "try" :: (← block p false))
    else if startsWord "const" ls then constBlock p
    else labelledBlock p
  return ⟨.block, label ++ tokens⟩

/-- Whether an expression that ends at its block comes next. -/
def startsBlockExpression (ls : List Lexeme) : Bool :=
  startsGroup .brace ls || startsLifetime ls ||
    startsAnyWord ["if", "while", "loop", "match", "unsafe"] ls ||
    (startsWord "for" ls && !startsClosureBinder ls) ||
    (startsAnyWord ["try", "const"] ls && startsGroup .brace (ls.drop 1))

/-- A jump out of a block, with its label and value. -/
def jump (p : Phrases) (braces : Bool) : Reader (List Token) := do
  if ← word? "break" then
    let ls ← get
    require !(startsLifetime ls && starts ":" (ls.drop 2))
    let target := ((← lifetime?).map Token.lifetime).getD []
    let value ← if braces || !startsGroup .brace (← get) then optionalValue p else pure []
    return .ident "break" :: target ++ value
  else if ← word? "continue" then
    return .ident "continue" :: ((← lifetime?).map Token.lifetime).getD []
  else if ← word? "return" then return .ident "return" :: (← optionalValue p)
  else
    word "yield"
    return .ident "yield" :: (← optionalValue p)

/-! ## Operands -/

/-- What stands between the brackets of an array. -/
def arrayBody (p : Phrases) : Reader (List Token) := do
  if (← get).isEmpty then return []
  let first ← value p
  if ← mark? ";" then return first ++ op ";" ++ (← value p)
  else if ← mark? "," then return first ++ op "," ++ (← commas (value p))
  else return first

/-- An operand without what may follow it. -/
def atom (p : Phrases) (braces : Bool) : Reader Expression := do
  let ls ← get
  let next := ls.drop 1
  let verbatim (r : Reader Unit) : Reader Expression := do
    r
    return ⟨.verbatim, ← since ls⟩
  if startsLiteral ls then plain <$> literal
  else if startsWord "async" ls &&
      (startsGroup .brace next || (startsWord "move" next && startsGroup .brace (next.drop 1))) then
    word "async"
    let capture ← wordToken? "move"
    return plain (.ident "async" :: capture ++ (← block p false))
  else if startsWord "try" ls && startsGroup .brace next then blockExpression p
  else if starts "|" ls || startsAnyWord ["move", "static"] ls || startsClosureBinder ls ||
      (startsWord "const" ls && !startsGroup .brace next) ||
      (startsWord "async" ls && (starts "|" next || startsWord "move" next)) then
    plain <$> closure p braces
  else if startsWord "builtin" ls && starts "#" next then verbatim do
    word "builtin"
    mark "#"
    let _ ← ident
    let _ ← group .parenthesis
  else if startsPath ls || (startsWord "try" ls && (starts "!" next || starts "::" next)) then
    pathExpression p braces
  else if startsGroup .parenthesis ls then
    return plain [Token.parens (← parenthesized (commas (value p)))]
  else if startsAnyWord ["break", "continue", "return", "yield"] ls then plain <$> jump p braces
  else if startsWord "become" ls then verbatim do
    word "become"
    let _ ← value p
  else if startsGroup .bracket ls then
    return plain [.group .bracket (← bracketed (arrayBody p))]
  else if ← word? "let" then
    let pattern ← alternatives p
    mark "="
    let e ← operation p braces (p.operand braces) .comparison
    return plain (.ident "let" :: pattern.tokens ++ op "=" ++ e.tokens)
  else if startsBlockExpression ls then blockExpression p
  else if starts ".." ls then
    let sign ← rangeMark false
    let upper ← rangeEndUpTo p braces (p.operand braces) (sign.length = 2)
      (4 * ls.length + 4)
    return ⟨.range, sign ++ upper⟩
  else if ← word? "_" then return plain [.ident "_"]
  else failure

/-- An operand behind its attributes. -/
def bareOperand (p : Phrases) (braces : Bool) : Reader Expression := do
  let ls ← get
  if starts "&" ls then
    mark "&"
    let next ← get
    let words ←
      if startsWord "raw" next && startsAnyWord ["mut", "const"] (next.drop 1) then do
        pure [.ident (← anyIdent).text, .ident (← anyIdent).text]
      else wordToken? "mut"
    return plain (op "&" ++ words ++ (← p.operand braces).tokens)
  else if starts "*" ls || starts "!" ls || starts "-" ls then
    let sign := if starts "*" ls then "*" else if starts "!" ls then "!" else "-"
    mark sign
    return plain (op sign ++ (← p.operand braces).tokens)
  else trailers p (← atom p braces)

/-- An expression without binary operators. Attributes in front of an expression that is kept in the
spacing of the source are kept in it too. -/
def operand (p : Phrases) (braces : Bool) : Reader Expression := do
  let start ← get
  let attributes ← attributes p
  let e ← bareOperand p braces
  require (attributes.isEmpty || e.kind ≠ .range)
  if e.kind = .verbatim then return ⟨.verbatim, ← since start⟩
  else return e.withAttributes attributes

/-- An expression. -/
def expression (p : Phrases) (braces : Bool) : Reader Expression :=
  operation p braces (operand p braces) .nothing

/-- An expression behind the given attributes that ends at its block if it begins with one, unless a
point or `?` follows. -/
def clause (p : Phrases) (outer : List Token) : Reader Expression := do
  let attributes := outer ++ (← attributes p)
  let continued (first : Expression) : Reader Expression := do
    operatorsUpTo p true (operand p true) .nothing (4 * (← get).length + 4)
      (first.withAttributes attributes)
  if startsBlockExpression (← get) then
    let e ← blockExpression p
    if startsPoint (← get) || starts "?" (← get) then continued (← trailers p e)
    else return e.withAttributes attributes
  else continued (← operand p true)

end Reader

end FieldRules
