import FieldRules.Config.Error
import FieldRules.Source.Lexeme

/-!
# Diagnostics

What a derivation reports when it cannot expand a type: a complaint, and the stretch of source text
that it is about.
-/

namespace FieldRules

/-- What is wrong with the arguments of an attribute. -/
inductive AttributeProblem where
  /-- The arguments begin with something else than a string literal or `skip`. -/
  | unexpectedArgument
  | noArgument
  /-- Something follows the first argument. -/
  | surplus
  | noBrackets
  | valueInsteadOfBrackets
deriving DecidableEq, Repr

def AttributeProblem.message : AttributeProblem → String
  | unexpectedArgument => "expected string literal or `skip`"
  | noArgument => "unexpected end of input, expected string literal or `skip`"
  | surplus => "unexpected token"
  | noBrackets => "expected attribute arguments in parentheses: #[validate(...)]"
  | valueInsteadOfBrackets => "expected parentheses: #[validate(...)]"

/-- Why a type cannot be expanded. -/
inductive Complaint where
  /-- The item is no struct but of the given kind. -/
  | unsupportedShape (kind : String)
  | malformed (problem : AttributeProblem)
  | skipOnStruct
  | skipWithTags
  | field (name : String) (error : AnnotationError)
  | struct (error : AnnotationError)
  /-- The annotations contradict themselves. -/
  | inconsistent (error : ConfigError)
deriving DecidableEq, Repr

def Complaint.message : Complaint → String
  | unsupportedShape kind =>
    "Unsupported shape `" ++ kind ++
      "`. Expected struct with named fields, unnamed fields, or no fields."
  | malformed problem => problem.message
  | skipOnStruct => "`skip` applies to fields only"
  | skipWithTags => "`skip` can't be combined with validation tags"
  | field name error => "field `" ++ name ++ "`: " ++ error.message
  | struct error => error.message
  | inconsistent error => error.message

/-- A complaint and the stretch of source text that it is about. -/
structure Diagnostic where
  complaint : Complaint
  span : Span
deriving DecidableEq, Repr

def Diagnostic.message (d : Diagnostic) : String := d.complaint.message

end FieldRules
