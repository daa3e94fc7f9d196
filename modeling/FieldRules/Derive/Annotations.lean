import FieldRules.Derive.Diagnostic
import FieldRules.Source.Item

/-!
# Annotations of structs and fields

The attributes `#[validate("...")]` and `#[validate(skip)]` of a struct or field. Every malformed
attribute is reported; attributes with other paths are none of our business.
-/

namespace FieldRules

/-- A string literal of an attribute. -/
structure AnnotationText where
  text : String
  span : Span
deriving DecidableEq, Repr

/-- The annotations of a struct or field. -/
structure Annotations where
  tags : List AnnotationText
  /-- The places of the words `skip`. -/
  skips : List Span
deriving DecidableEq, Repr

namespace Attribute

def isValidate (a : Attribute) : Bool := !a.rooted && a.path = [.ofName "validate"]

/-- The one argument of an attribute: a literal with tags or the word `skip`. -/
def argument (a : Attribute) : Except Diagnostic (AnnotationText ⊕ Span) :=
  let complain {α : Type} (p : AttributeProblem) (span : Span) : Except Diagnostic α :=
    .error ⟨.malformed p, span⟩
  let only (arg : AnnotationText ⊕ Span) : List Lexeme → Except Diagnostic (AnnotationText ⊕ Span)
    | [] => .ok arg
    | l :: _ => complain .surplus l.errorSpan
  match a.body with
  | .bare => complain .noBrackets a.pathSpan
  | .value sign => complain .valueInsteadOfBrackets sign
  | .list inner closing =>
    match inner with
    | [] => complain .noArgument closing
    | .literal _ (some text) span :: rest => only (.inl ⟨text, span⟩) rest
    | .ident i span :: rest =>
      if i = .ofName "skip" then only (.inr span) rest else complain .unexpectedArgument span
    | l :: _ => complain .unexpectedArgument l.errorSpan

end Attribute

namespace Annotations

/-- The annotations that the attributes of a struct or field give, or all the malformed
attributes. -/
def ofAttributes (as : List Attribute) : Except (List Diagnostic) Annotations :=
  let args := (as.filter (·.isValidate)).map (·.argument)
  let errors := args.filterMap fun
    | .error d => some d
    | .ok _ => none
  if errors.isEmpty then
    .ok ⟨args.filterMap fun
        | .ok (.inl a) => some a
        | _ => none,
      args.filterMap fun
        | .ok (.inr s) => some s
        | _ => none⟩
  else .error errors

end Annotations

end FieldRules
