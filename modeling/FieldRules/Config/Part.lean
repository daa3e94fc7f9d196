import FieldRules.Config.Draft

/-!
# Parts of a tree

Tags can be applied to a whole tree, to one field of a struct or to the type inside a wrapper.
`Draft.focus` finds such a part and tells how to put another one in its place.
-/

namespace FieldRules

/-- A part of a tree that takes tags of its own. -/
inductive Part where
  | whole
  | field (name : String)
  | inner
deriving DecidableEq, Repr

namespace Draft

/-- The first field with the given name, and the fields with another type in its place. -/
def focusField (name : String) :
    List (Field Draft) → Option (Draft × (Draft → List (Field Draft)))
  | [] => none
  | f :: fs =>
    if f.name = name then some (f.node, fun d => { f with node := d } :: fs)
    else (focusField name fs).map fun (d, put) => (d, fun e => f :: put e)

/-- A part of the tree, and the tree with another part in its place. -/
def focus : Part → Draft → Option (Draft × (Draft → Draft))
  | .whole, d => some (d, id)
  | .field name, .inline fields func =>
    (focusField name fields).map fun (d, put) => (d, fun e => .inline (put e) func)
  | .inner, .wrapper ty mode inner func => some (inner, (.wrapper ty mode · func))
  | _, _ => none

end Draft

end FieldRules
