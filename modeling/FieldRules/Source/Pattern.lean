import FieldRules.Source.Grammar

/-!
# Reading patterns

Patterns occur in closures, in `match` and in the parameters of functions, and so in the constants
that a type may hold. `pattern` reads one pattern, `alternatives` several with `|` between them.
-/

namespace FieldRules.Reader

open Token (op)

/-! ## Parts that expressions have too -/

/-- A path in an expression, and whether it can name a macro. -/
def valuePath (p : Phrases) : Reader (List Token × Bool) := do
  if starts "<" (← get) then return (← qualified p true, false)
  else
    let path ← pathIn p true
    return (path.tokens, isPlain path)

/-- Whether the path of a value can begin here. -/
def startsPath (ls : List Lexeme) : Bool := startsSegment ls || starts "::" ls || starts "<" ls

/-- What follows the path of a macro in its call. -/
def callBody : Reader (List Token) := do
  mark "!"
  return op "!" ++ [← anyGroup]

/-- The name of a field or its position in a tuple, and whether it is a name. -/
def member : Reader (Bool × Token) := do
  match ← get with
  | .literal text _ _ :: ls =>
    match Literal.index? text with
    | some n => set ls; return (false, Token.number n)
    | none => failure
  | _ => return (true, .ident (← ident).text)

/-- The mark of a range. In a pattern, `...` is another spelling of `..=`. -/
def rangeMark (inPattern : Bool) : Reader (List Token) := do
  let ls ← get
  if starts "..=" ls then mark "..=" *> return op "..="
  else if starts "..." ls then do
    require inPattern
    mark "..."
    return op "..="
  else mark ".." *> return op ".."

def constBlock (p : Phrases) : Reader (List Token) := do
  word "const"
  return .ident "const" :: (← block p true)

/-! ## Patterns -/

/-- Whether another alternative follows. -/
def startsAlternative (ls : List Lexeme) : Bool :=
  starts "|" ls && !starts "||" ls && !starts "|=" ls

/-- The alternatives after the first one, each behind a `|`; at most `n`. -/
def moreAlternatives (p : Phrases) : Nat → Reader (List Token)
  | 0 => return []
  | n + 1 => do
    if startsAlternative (← get) then
      mark "|"
      let next ← p.pattern
      return op "|" ++ next.tokens ++ (← moreAlternatives p n)
    else return []

/-- A pattern with its alternatives. A `|` may stand in front of the first one. -/
def alternatives (p : Phrases) : Reader Pattern := do
  let leading ← markToken? "|"
  let first ← p.pattern
  let more ← moreAlternatives p (← get).length
  if leading.isEmpty && more.isEmpty then return first
  else return ⟨.other, leading ++ first.tokens ++ more⟩

/-- Whether a range in a pattern has no bound here. -/
def endsRangePattern (ls : List Lexeme) : Bool :=
  ls.isEmpty || starts "|" ls || starts "=" ls || startsColon ls || starts "," ls ||
    starts ";" ls || startsWord "if" ls

/-- A bound of a range in a pattern; nothing if it is missing. -/
def rangeBound (p : Phrases) : Reader (List Token) := do
  let ls ← get
  if endsRangePattern ls then return []
  else if startsLiteral ls then literal
  else if startsPath ls then return (← valuePath p).1
  else constBlock p

/-- The rest of a range after its lower bound, which is empty if it is missing. -/
def rangePattern (p : Phrases) (lower : List Token) : Reader Pattern := do
  let sign ← rangeMark !lower.isEmpty
  let upper ← rangeBound p
  if upper.isEmpty then
    require (sign.length = 2)
    return ⟨if lower.isEmpty then .rest else .openRange, lower ++ sign⟩
  else return ⟨if lower.isEmpty then .openRange else .other, lower ++ sign ++ upper⟩

/-- A field of a struct pattern. A boxed one keeps the spacing of the source. -/
def fieldPattern (p : Phrases) : Reader (List Token) := do
  let start ← get
  let boxed ← word? "box"
  let modifiers := (← wordToken? "ref") ++ (← wordToken? "mut")
  let plain := !boxed && modifiers.isEmpty
  let (named, name) ← if plain then member else do pure (true, .ident (← ident).text)
  if !named || (plain && starts ":" (← get)) then
    mark ":"
    return name :: op ":" ++ (← alternatives p).tokens
  else if boxed then since start
  else return modifiers ++ [name]

/-- The fields of a struct pattern, of which `..` may be the last; at most `n`. -/
def fieldPatterns (p : Phrases) : Nat → Reader (List Token)
  | 0 => failure
  | n + 1 => do
    if (← get).isEmpty then return []
    let attributes ← attributes p
    if ← mark? ".." then return attributes ++ op ".."
    let field ← fieldPattern p
    if (← get).isEmpty then return attributes ++ field
    mark ","
    return attributes ++ field ++ op "," ++ (← fieldPatterns p n)

/-- The patterns of a tuple. -/
def elements (p : Phrases) : Reader (List Token) := commas (Pattern.tokens <$> alternatives p)

def pathPattern (p : Phrases) : Reader Pattern := do
  let (path, isPlain) ← valuePath p
  let ls ← get
  if startsBang ls && isPlain then return ⟨.other, path ++ (← callBody)⟩
  else if startsGroup .brace ls then
    let fields ← braced do fieldPatterns p ((← get).length + 1)
    return ⟨.other, path ++ [Token.braces fields]⟩
  else if startsGroup .parenthesis ls then
    return ⟨.other, path ++ [Token.parens (← parenthesized (elements p))]⟩
  else if starts ".." ls then rangePattern p path
  else return ⟨.other, path⟩

/-- A pattern of a slice, in which an open range needs parentheses. -/
def sliceElement (p : Phrases) : Reader (List Token) := do
  let pattern ← alternatives p
  require (pattern.kind ≠ .openRange)
  return pattern.tokens

/-- A pattern without alternatives. -/
def pattern (p : Phrases) : Reader Pattern := do
  let ls ← get
  let next := ls.drop 1
  if startsName ls && (starts "::" next || starts "!" next || startsGroup .brace next ||
      startsGroup .parenthesis next || starts ".." next) then pathPattern p
  else if startsWord "self" ls && starts "::" next then pathPattern p
  else if starts "::" ls || starts "<" ls || startsAnyWord ["Self", "super", "crate"] ls then
    pathPattern p
  else if ← word? "_" then return ⟨.other, [.ident "_"]⟩
  else if ← word? "box" then
    let _ ← p.pattern
    return ⟨.verbatim, ← since ls⟩
  else if starts "-" ls || startsLiteral ls || startsWord "const" ls then
    let lower ← rangeBound p
    if starts ".." (← get) then rangePattern p lower else return ⟨.other, lower⟩
  else if startsName ls || startsAnyWord ["ref", "mut", "self"] ls then
    let modifiers := (← wordToken? "ref") ++ (← wordToken? "mut")
    let name ← if startsWord "self" (← get) then anyIdent else ident
    let whole := modifiers ++ [.ident name.text]
    if ← mark? "@" then return ⟨.other, whole ++ op "@" ++ (← p.pattern).tokens⟩
    else return ⟨.other, whole⟩
  else if ← mark? "&" then
    let mutable ← wordToken? "mut"
    return ⟨.other, op "&" ++ mutable ++ (← p.pattern).tokens⟩
  else if startsGroup .parenthesis ls then
    return ⟨.other, [Token.parens (← parenthesized (elements p))]⟩
  else if startsGroup .bracket ls then
    return ⟨.other, [.group .bracket (← bracketed (commas (sliceElement p)))]⟩
  else if starts ".." ls && !starts "..." ls then rangePattern p []
  else failure

end FieldRules.Reader
