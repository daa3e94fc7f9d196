import FieldRules.Tag.Basic
import FieldRules.Tag.Error

/-!
# Errors of configured types

A tag may not fit the type it is written for, and tags that fit may contradict each other. Errors
inside a scope or a field are wrapped (`nested`, `field`), outermost first, so that the path to the
offending node can be read off; `rootCause` is the error without its wrappers and `sources` the
messages of the wrapped errors.
-/

namespace FieldRules

/-- A tag that cannot configure a node, or a configuration that contradicts itself. -/
inductive ConfigError where
  /-- A tag whose key means nothing for the node; `target` describes the node. -/
  | unrecognizedTag (tag target : String)
  | duplicateTag (k : Key)
  | malformedBound (k : Key) (value expected : String)
  | negativeBound (k : Key) (value : String)
  | invertedBounds (lowerKey : Key) (lower : String) (upperKey : Key) (upper : String)
  | conflictingNullability
  /-- An entry of a validator chain that names no method and no function. -/
  | invalidValidator (reference chain : String)
  /-- A tag that is not written in the shape its key needs. -/
  | malformedTag (tag expected : String)
  | nested (k : Key) (source : ConfigError)
  | field (name : String) (source : ConfigError)
deriving DecidableEq, Repr

namespace ConfigError

def message : ConfigError → String
  | unrecognizedTag tag target => "tag `" ++ tag ++ "` is not supported for " ++ target
  | duplicateTag k => "tag `" ++ k.spelling ++ "` is specified more than once"
  | malformedBound k value expected =>
    "bound `" ++ k.spelling ++ "=" ++ value ++ "` is not a valid " ++ expected
  | negativeBound k value => "bound `" ++ k.spelling ++ "=" ++ value ++ "` can't be less than 0"
  | invertedBounds lowerKey lower upperKey upper =>
    "lower bound `" ++ lowerKey.spelling ++ "=" ++ lower ++ "` exceeds upper bound `" ++
      upperKey.spelling ++ "=" ++ upper ++ "`"
  | conflictingNullability => "`nullable` and `not_null` can't be combined"
  | invalidValidator reference chain =>
    "invalid validator reference `" ++ reference ++ "` in `func=" ++ chain ++ "`"
  | malformedTag tag expected => "tag `" ++ tag ++ "` is malformed: expected " ++ expected
  | nested k source => "in `" ++ k.spelling ++ "=[...]`: " ++ source.message
  | field name source => "field `" ++ name ++ "`: " ++ source.message

/-- The error without the scopes and fields around it. -/
def rootCause : ConfigError → ConfigError
  | nested _ source => source.rootCause
  | field _ source => source.rootCause
  | e => e

/-- The messages of the wrapped errors, outermost first. -/
def sources : ConfigError → List String
  | nested _ source => source.message :: source.sources
  | field _ source => source.message :: source.sources
  | _ => []

end ConfigError

namespace Tag

/-- The parameter of a tag `key=param`. -/
def expectParam : Tag → Except ConfigError String
  | simple _ (some p) => .ok p
  | t => .error (.malformedTag t.text "`key=value`")

/-- The tags of a tag `key=[...]`. -/
def expectScope : Tag → Except ConfigError (List Tag)
  | scope _ ts => .ok ts
  | t => .error (.malformedTag t.text "`key=[...]`")

/-- The demand that a tag is a bare key. -/
def expectFlag : Tag → Except ConfigError Unit
  | simple _ none => .ok ()
  | t => .error (.malformedTag t.text "a bare key")

end Tag

/-- Why an annotation could not be applied to a node. -/
inductive AnnotationError where
  | parse (e : ParseError)
  | config (e : ConfigError)
deriving DecidableEq, Repr

def AnnotationError.message : AnnotationError → String
  | parse e => e.message
  | config e => e.message

end FieldRules
