import FieldRules.Source.Token

/-!
# Lexemes

Source text is read into lexemes: tokens that know where in the text they stand. Lines count from
one, columns count characters from zero. Comments about the following item are lexemes too, since
they stand for attributes.
-/

namespace FieldRules

/-- A place in a source text. -/
structure Position where
  /-- The line, from one. -/
  line : Nat
  /-- The number of characters before the place in its line. -/
  column : Nat
deriving DecidableEq, Repr

namespace Position

/-- The start of a text. -/
def start : Position := ⟨1, 0⟩

/-- The place after some more text. -/
def after (p : Position) : List Char → Position
  | [] => p
  | c :: s => if c = '\n' then after ⟨p.line + 1, 0⟩ s else after ⟨p.line, p.column + 1⟩ s

end Position

/-- A stretch of a source text. -/
structure Span where
  start : Position
  /-- The place after its end. -/
  stop : Position
deriving DecidableEq, Repr

namespace Span

/-- The start of the text, for what stands nowhere in it. -/
def nowhere : Span := ⟨.start, .start⟩

/-- The stretch from one to another. -/
def upTo (a b : Span) : Span := ⟨a.start, b.stop⟩

end Span

/-- A token of a source text. A literal that is a string knows the text it stands for. -/
inductive Lexeme where
  | ident (id : Ident) (span : Span)
  /-- A literal as spelled, and the text of a string literal. -/
  | literal (text : String) (value : Option String) (span : Span)
  /-- A punctuation mark, and whether another one follows it directly. -/
  | punct (mark : Char) (joint : Bool) (span : Span)
  | group (delimiter : Delimiter) (inner : List Lexeme) (opening closing : Span)
deriving Repr

namespace Lexeme

/-- The stretch that the lexeme covers. -/
def span : Lexeme → Span
  | ident _ s => s
  | literal _ _ s => s
  | punct _ _ s => s
  | group _ _ o c => o.upTo c

/-- Where an error about the lexeme points: of a group only the opening bracket. -/
def errorSpan : Lexeme → Span
  | group _ _ o _ => o
  | l => l.span

mutual

/-- The lexeme as a token. -/
def token : Lexeme → Token
  | ident id _ => .ident id.text
  | literal text _ _ => .literal text
  | punct mark joint _ => .punct mark joint
  | group delimiter inner _ _ => .group delimiter (tokens inner)

/-- The lexemes as tokens, spaced as the source has them. -/
def tokens : List Lexeme → List Token
  | [] => []
  | l :: ls => l.token :: tokens ls

end

mutual

def size : Lexeme → Nat
  | group _ inner _ _ => 1 + sizes inner
  | _ => 1

/-- The number of lexemes in a list, groups included. -/
def sizes : List Lexeme → Nat
  | [] => 0
  | l :: ls => l.size + sizes ls

end

end Lexeme

end FieldRules
