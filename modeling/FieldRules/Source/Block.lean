import FieldRules.Source.Container
import FieldRules.Source.Expression

/-!
# Reading blocks and whole texts

`statements` reads the statements of a block. With it every phrase has its reader, and
`Phrases.ofDepth` ties them: of a phrase that stands inside `n` others it knows how to read it if
`n` is within the given depth. Between two phrases that contain each other lies a lexeme, or at most
one further phrase, so that `Phrases.ofLexemes` has a depth that no text reaches.
-/

namespace FieldRules

namespace Reader

open Token (op)

/-- Whether a macro call in braces comes next that is a statement of its own. -/
def startsStatementCall (ls : List Lexeme) : Bool :=
  match plainPath.run ls with
  | some (_, rest) =>
    let next := rest.drop 2
    starts "!" rest && startsGroup .brace (rest.drop 1) && !startsPoint next && !starts "?" next
  | none => false

/-- A `let` statement. -/
def letStatement (p : Phrases) : Reader (List Token) := do
  word "let"
  let pattern ← p.pattern
  let ty ← if ← mark? ":" then do pure (op ":" ++ (← p.ty true).tokens) else pure []
  let value ← if ← mark? "=" then do pure (op "=" ++ (← p.expression true).tokens) else pure []
  let endsInBrace := match value.getLast? with
    | some (.group .brace _) => true
    | _ => false
  let otherwise ←
    if !value.isEmpty && !endsInBrace && startsWord "else" (← get) then do
      word "else"
      pure (.ident "else" :: (← block p false))
    else pure []
  mark ";"
  return .ident "let" :: pattern.tokens ++ ty ++ value ++ otherwise ++ op ";"

/-- A statement, and whether a further one may follow it. -/
def statement (p : Phrases) : Reader (List Token × Bool) := do
  let start ← get
  let attributes ← attributes p
  let ls ← get
  if startsStatementCall ls then
    let path ← plainPath
    let call ← callBody
    return (attributes ++ path.tokens ++ call ++ (← markToken? ";"), true)
  else if startsWord "let" ls then return (attributes ++ (← letStatement p), true)
  else if startsDeclaration ls then
    set start
    return (← p.declaration, true)
  else
    let e ← clause p attributes
    let ending ← markToken? ";"
    return (e.tokens ++ ending,
      !ending.isEmpty || e.kind = .block || e.kind = .bracedCall)

/-- The statements of a block, up to its end; at most `n`. An empty statement is a mere `;`. -/
def statementsUpTo (p : Phrases) : Nat → Reader (List Token)
  | 0 => failure
  | n + 1 => do
    if (← get).isEmpty then return []
    else if ← mark? ";" then return op ";" ++ (← statementsUpTo p n)
    else
      let (ts, closed) ← statement p
      require (closed || (← get).isEmpty)
      return ts ++ (← statementsUpTo p n)

/-- The statements of a block, up to its end. -/
def statements (p : Phrases) : Reader (List Token) := do
  statementsUpTo p ((← get).length + 1)

end Reader

namespace Phrases

/-- The readers of phrases that stand inside at most `n` others. -/
def ofDepth : Nat → Phrases
  | 0 =>
    { ty := fun _ => failure
      expression := fun _ => failure
      operand := fun _ => failure
      clause := failure
      pattern := failure
      statements := failure
      declaration := failure }
  | n + 1 =>
    { ty := fun plus => Reader.ty (ofDepth n) plus
      expression := fun braces => Reader.expression (ofDepth n) braces
      operand := fun braces => Reader.operand (ofDepth n) braces
      clause := fun ls => Reader.clause (ofDepth n) [] ls
      pattern := fun ls => Reader.pattern (ofDepth n) ls
      statements := fun ls => Reader.statements (ofDepth n) ls
      declaration := fun ls => Reader.declaration (ofDepth n) ls }

/-- The readers of the phrases in the given lexemes. -/
def ofLexemes (ls : List Lexeme) : Phrases := ofDepth (4 * Lexeme.sizes ls + 4)

end Phrases

namespace Reader

/-- What `r` reads from all of a source text. -/
def ofText? {α : Type} (r : Phrases → Reader α) (text : String) : Option α :=
  match Lexeme.ofText? text with
  | none => none
  | some ls =>
    match (r (.ofLexemes ls)).run ls with
    | some (a, []) => some a
    | _ => none

end Reader

end FieldRules
