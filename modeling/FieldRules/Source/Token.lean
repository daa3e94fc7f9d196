/-!
# Tokens

Generated code is a list of tokens. `Token.render` writes it as text: one space between tokens,
except after a punctuation mark that is joined to the next one (the first mark of `::`), and inside
parentheses and brackets.
-/

namespace FieldRules

/-- An identifier. A raw one is written with `r#` and never a keyword. -/
structure Ident where
  raw : Bool
  name : String
deriving DecidableEq, Repr

namespace Ident

/-- The identifier as code spells it. -/
def text (i : Ident) : String :=
  if i.raw then "r#" ++ i.name else i.name

/-- An identifier that is not raw. -/
def ofName (name : String) : Ident := ⟨false, name⟩

end Ident

/-- The brackets around a group of tokens. -/
inductive Delimiter where
  | parenthesis
  | bracket
  | brace
deriving DecidableEq, Repr

/-- A token of generated code. -/
inductive Token where
  | ident (name : String)
  | literal (text : String)
  /-- A punctuation mark, and whether it is joined to the next one. -/
  | punct (mark : Char) (joint : Bool)
  | group (delimiter : Delimiter) (inner : List Token)
deriving Repr

namespace Token

/-- Whether no space follows the token. -/
def isJoint : Token → Bool
  | punct _ joint => joint
  | _ => false

mutual

/-- The text of a token. -/
def text : Token → String
  | ident name => name
  | literal text => text
  | punct mark _ => mark.toString
  | group .parenthesis inner => "(" ++ render inner ++ ")"
  | group .bracket inner => "[" ++ render inner ++ "]"
  | group .brace [] => "\x7b \x7d"
  | group .brace (t :: ts) => "\x7b " ++ render (t :: ts) ++ " \x7d"

/-- The text of a list of tokens. -/
def render : List Token → String
  | [] => ""
  | [t] => t.text
  | t :: u :: ts => t.text ++ (if t.isJoint then "" else " ") ++ render (u :: ts)

end

/-! ## Building token lists -/

/-- The marks of an operator, each joined to the next. -/
def marks : List Char → List Token
  | [] => []
  | [c] => [punct c false]
  | c :: d :: s => punct c true :: marks (d :: s)

/-- An operator. -/
def op (s : String) : List Token := marks s.toList

/-- A path from the root, `::a::b`. -/
def rooted (names : List String) : List Token :=
  names.flatMap fun n => op "::" ++ [ident n]

def parens (ts : List Token) : Token := group .parenthesis ts

def braces (ts : List Token) : Token := group .brace ts

/-- A count in decimal digits. -/
def number (n : Nat) : Token := literal (toString n)

/-- A whole number, whose sign is a token of its own. -/
def integer (n : Int) : List Token :=
  if n < 0 then op "-" ++ [number n.natAbs] else [number n.natAbs]

def lifetime (name : String) : List Token := [punct '\'' true, ident name]

end Token

end FieldRules
