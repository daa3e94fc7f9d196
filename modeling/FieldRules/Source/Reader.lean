import FieldRules.Source.Lexer
import FieldRules.Source.Literal
import FieldRules.Source.Type

/-!
# Readers

A `Reader` takes lexemes from the front of a list, or refuses them. Texts that break the grammar are
refused without a reason, since nothing depends on it. This module has the readers of single
lexemes, of groups and of lists; those of phrases, which may occur inside one another, take the
readers of the phrases inside them from a record, `Phrases`.
-/

namespace FieldRules

/-- A reader of lexemes. -/
abbrev Reader := StateT (List Lexeme) Option

namespace Reader

open Token (op)

/-! ## Looking ahead -/

/-- Whether the lexemes begin with the joined marks `ms`. -/
def startsMarks : List Char → List Lexeme → Bool
  | [], _ => true
  | [c], .punct d _ _ :: _ => c = d && d ≠ '\''
  | c :: ms, .punct d true _ :: ls => c = d && d ≠ '\'' && startsMarks ms ls
  | _, _ => false

/-- Whether the lexemes begin with the operator `s`. -/
def starts (s : String) (ls : List Lexeme) : Bool := startsMarks s.toList ls

def startsWord (w : String) : List Lexeme → Bool
  | .ident i _ :: _ => !i.raw && i.name = w
  | _ => false

def startsAnyWord (ws : List String) (ls : List Lexeme) : Bool := ws.any fun w => startsWord w ls

/-- Whether the lexemes begin with an identifier or keyword. -/
def startsIdent : List Lexeme → Bool
  | .ident .. :: _ => true
  | _ => false

/-- Whether the lexemes begin with a group in the given brackets. -/
def startsGroup (d : Delimiter) : List Lexeme → Bool
  | .group e .. :: _ => d = e
  | _ => false

/-- Whether the lexemes begin with a lifetime, which is two lexemes. -/
def startsLifetime : List Lexeme → Bool
  | .punct '\'' true _ :: .ident .. :: _ => true
  | _ => false

/-- Whether the lexemes begin with a literal, which may be a negative number or a truth value. -/
def startsLiteral : List Lexeme → Bool
  | .literal .. :: _ => true
  | .punct '-' _ _ :: .literal text _ _ :: _ => Literal.isNumber text
  | ls => startsAnyWord ["true", "false"] ls

/-- The words that are no identifiers. -/
def keywords : List String :=
  ["_", "abstract", "as", "async", "await", "become", "box", "break", "const", "continue", "crate",
    "do", "dyn", "else", "enum", "extern", "false", "final", "fn", "for", "if", "impl", "in", "let",
    "loop", "macro", "match", "mod", "move", "mut", "override", "priv", "pub", "ref", "return",
    "Self", "self", "static", "struct", "super", "trait", "true", "try", "type", "typeof", "unsafe",
    "unsized", "use", "virtual", "where", "while", "yield"]

/-- Whether the identifier is no keyword. -/
def isName (i : Ident) : Bool := i.raw || !keywords.contains i.name

/-- Whether the lexemes begin with an identifier that is no keyword. -/
def startsName : List Lexeme → Bool
  | .ident i _ :: _ => isName i
  | _ => false

/-- Whether the lexemes begin with a colon that stands alone. -/
def startsColon (ls : List Lexeme) : Bool := starts ":" ls && !starts "::" ls

/-- Whether the lexemes begin with the mark of a macro call. -/
def startsBang (ls : List Lexeme) : Bool := starts "!" ls && !starts "!=" ls

/-- Whether the lexemes begin with a point that is not part of a range. -/
def startsPoint (ls : List Lexeme) : Bool := starts "." ls && !starts ".." ls

/-! ## Single lexemes -/

/-- Refuses the lexemes unless the condition holds. -/
def require (b : Bool) : Reader Unit := if b then return () else failure

/-- Takes the operator `s`. -/
def mark (s : String) : Reader Unit := do
  let ls ← get
  if starts s ls then set (ls.drop s.length) else failure

/-- Takes the operator `s` if it comes next. -/
def mark? (s : String) : Reader Bool := do
  let ls ← get
  if starts s ls then do set (ls.drop s.length); return true else return false

/-- Takes the word `w` if it comes next. -/
def word? (w : String) : Reader Bool := do
  let ls ← get
  if startsWord w ls then do set (ls.drop 1); return true else return false

def word (w : String) : Reader Unit := do
  if ← word? w then return () else failure

/-- Takes the word `w` if it comes next, as a token. -/
def wordToken? (w : String) : Reader (List Token) := do
  if ← word? w then return [.ident w] else return []

/-- Takes the operator `s` if it comes next, as tokens. -/
def markToken? (s : String) : Reader (List Token) := do
  if ← mark? s then return op s else return []

/-- Takes an identifier or keyword. -/
def anyIdent : Reader Ident := do
  match ← get with
  | .ident i _ :: ls => set ls; return i
  | _ => failure

/-- Takes an identifier that is no keyword. -/
def ident : Reader Ident := do
  let i ← anyIdent
  if isName i then return i else failure

/-- Takes the name of a lifetime. -/
def lifetime : Reader String := do
  match ← get with
  | .punct '\'' true _ :: .ident i _ :: ls => set ls; return i.text
  | _ => failure

/-- Takes a lifetime if it comes next. -/
def lifetime? : Reader (Option String) := do
  if startsLifetime (← get) then some <$> lifetime else return none

/-- Takes a group and gives its lexemes. -/
def group (d : Delimiter) : Reader (List Lexeme) := do
  match ← get with
  | .group e inner _ _ :: ls => if d = e then do set ls; return inner else failure
  | _ => failure

/-- Takes a group in any brackets, as a token. -/
def anyGroup : Reader Token := do
  match ← get with
  | .group d inner _ _ :: ls => set ls; return .group d (Lexeme.tokens inner)
  | _ => failure

def literal : Reader (List Token) := do
  match ← get with
  | .literal text _ _ :: ls => set ls; return [.literal text]
  | .punct '-' _ _ :: .literal text _ _ :: ls => set ls; return op "-" ++ [.literal text]
  | .ident i _ :: ls => set ls; return [.ident i.text]
  | _ => failure

/-! ## Parts of the text -/

/-- Reads all of the given lexemes, and none of those that come next. -/
def within {α : Type} (inner : List Lexeme) (r : Reader α) : Reader α := do
  match r.run inner with
  | some (a, []) => return a
  | _ => failure

def braced {α : Type} (r : Reader α) : Reader α := do within (← group .brace) r

def parenthesized {α : Type} (r : Reader α) : Reader α := do within (← group .parenthesis) r

def bracketed {α : Type} (r : Reader α) : Reader α := do within (← group .bracket) r

/-- The lexemes between two places, of which `before` is the first. -/
def between (before after : List Lexeme) : List Lexeme :=
  before.take (before.length - after.length)

/-- The lexemes that were taken since the given place, as tokens in the spacing of the source. -/
def since (before : List Lexeme) : Reader (List Token) := do
  return Lexeme.tokens (between before (← get))

/-! ## Lists -/

/-- Items with `sep` between them, up to a place where `ends` holds, and whether `sep` follows the
last one; at most `n` items. -/
def listUpTo {α : Type} (sep : String) (ends : List Lexeme → Bool) (r : Reader α) :
    Nat → Reader (List α × Bool)
  | 0 => failure
  | n + 1 => do
    if ends (← get) then return ([], false)
    let a ← r
    if ends (← get) then return ([a], false)
    mark sep
    let (as, trailing) ← listUpTo sep ends r n
    return (a :: as, trailing || as.isEmpty)

/-- Items with `sep` between them, up to a place where `ends` holds, and whether `sep` follows the
last one. -/
def list {α : Type} (sep : String) (ends : List Lexeme → Bool) (r : Reader α) :
    Reader (List α × Bool) := do
  listUpTo sep ends r ((← get).length + 1)

/-- The tokens of a list. -/
def separated (sep : String) : List (List Token) × Bool → List Token
  | ([], _) => []
  | ([ts], trailing) => if trailing then ts ++ op sep else ts
  | (ts :: us :: tss, trailing) => ts ++ op sep ++ separated sep (us :: tss, trailing)

/-- Everything up to the end, as items with commas between them. -/
def commas (r : Reader (List Token)) : Reader (List Token) :=
  separated "," <$> list "," List.isEmpty r

/-- Items with `+` between them, up to a place where `ends` holds or no `+` follows; at most `n`. -/
def sumUpTo (ends : List Lexeme → Bool) (r : Reader (List Token)) : Nat → Reader (List Token)
  | 0 => failure
  | n + 1 => do
    if ends (← get) then return []
    let ts ← r
    if ← mark? "+" then return ts ++ op "+" ++ (← sumUpTo ends r n) else return ts

/-- Items with `+` between them, up to a place where `ends` holds or no `+` follows. There may be
none, and a `+` may be the last. -/
def sum (ends : List Lexeme → Bool) (r : Reader (List Token)) : Reader (List Token) := do
  sumUpTo ends r ((← get).length + 1)

/-- As many items as `r` gives, at most `n`. -/
def manyUpTo (r : Reader (Option (List Token))) : Nat → Reader (List Token)
  | 0 => return []
  | n + 1 => do
    match ← r with
    | some ts => return ts ++ (← manyUpTo r n)
    | none => return []

/-- As many items as `r` gives. -/
def many (r : Reader (Option (List Token))) : Reader (List Token) := do
  manyUpTo r ((← get).length + 1)

end Reader

/-! ## Phrases -/

/-- What the grammar asks about an expression that was read. -/
inductive ExpressionKind where
  | range
  | comparison
  /-- An expression that ends a statement by its block. -/
  | block
  /-- A macro call in braces. -/
  | bracedCall
  /-- An expression that is kept in the spacing of the source. -/
  | verbatim
  | other
deriving DecidableEq

structure Expression where
  kind : ExpressionKind
  tokens : List Token

/-- What the grammar asks about a pattern that was read. -/
inductive PatternKind where
  | rest
  | openRange
  /-- A pattern that is kept in the spacing of the source. -/
  | verbatim
  | other
deriving DecidableEq

structure Pattern where
  kind : PatternKind
  tokens : List Token

/-- The readers of the phrases that occur inside one another. -/
structure Phrases where
  /-- A type. With `plus`, bounds of a trait object may follow. -/
  ty (plus : Bool) : Reader Ty
  /-- An expression. With `braces`, a name may begin a struct in braces. -/
  expression (braces : Bool) : Reader Expression
  /-- An expression without binary operators. -/
  operand (braces : Bool) : Reader Expression
  /-- An expression that ends at its block if it begins with one. -/
  clause : Reader Expression
  pattern : Reader Pattern
  statements : Reader (List Token)
  declaration : Reader (List Token)

end FieldRules
