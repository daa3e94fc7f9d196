import FieldRules.Tag.Basic

/-!
# Errors of annotation texts

What can be wrong with the text of an annotation, and the error that reports it: the whole text, the
byte at which the problem stands, and the problem.
-/

namespace FieldRules

/-- How many scopes may be nested inside one another. -/
def maxDepth : Nat := 16

/-- What is wrong with an annotation. -/
inductive Problem where
  /-- An entry without a key, as in `min=1,,max=2` or `item=[]`. -/
  | emptyKey
  | trailingSeparator
  | unclosedBracket
  /-- A character that cannot stand here, such as a stray `]`. -/
  | unexpectedCharacter (found : Char)
  | unknownKey (name : String)
  /-- A key that needs a parameter and has none, as in `min`. -/
  | missingParameter (k : Key)
  /-- A flag with a parameter, as in `nullable=1`. -/
  | unexpectedParameter (k : Key)
  /-- A key that needs a scope and has none, as in `item=5`. -/
  | expectedScope (k : Key)
  /-- A scope on a key that takes none, as in `min=[...]`. -/
  | unexpectedScope (k : Key)
  | tooDeep
deriving DecidableEq, Repr

/-- The problem in words. -/
def Problem.message : Problem → String
  | emptyKey => "empty tag key"
  | trailingSeparator => "trailing separator"
  | unclosedBracket => "unclosed `[`"
  | unexpectedCharacter c => "unexpected `" ++ c.toString ++ "`"
  | unknownKey name => "unknown tag key `" ++ name ++ "`"
  | missingParameter k => "tag `" ++ k.spelling ++ "` requires a parameter"
  | unexpectedParameter k => "tag `" ++ k.spelling ++ "` does not take a parameter"
  | expectedScope k => "tag `" ++ k.spelling ++ "` expects a `[...]` scope"
  | unexpectedScope k => "tag `" ++ k.spelling ++ "` does not take a `[...]` scope"
  | tooDeep => "tags nested deeper than " ++ toString maxDepth ++ " scopes"

/-- An annotation that is not a list of tags. -/
structure ParseError where
  input : String
  /-- The byte of the annotation at which the problem stands. -/
  position : Nat
  problem : Problem
deriving DecidableEq, Repr

/-- The error in words. -/
def ParseError.message (e : ParseError) : String :=
  "invalid tag `" ++ e.input ++ "` at position " ++ toString e.position ++ ": " ++ e.problem.message

end FieldRules
