import FieldRules.Config.Draft
import FieldRules.Tag.Parser

/-!
# Applying tags

`Draft.setTag` configures a tree with one tag. Every node keeps the tags it has slots for. An
optional value hands all but `nullable` and `not_null` to the value inside, a wrapper all but `func`
and the sizes to the wrapped type, and a scope hands its tags to the elements, keys or values it is
about. A tag that arrives where it means nothing, or at a slot that is filled, is refused.

A refusal does not undo what was set before it, so the result is the tree either way
(`Configured`). It also tells which nodes have seen a tag, in order.
-/

namespace FieldRules

/-- A tag that was shown to a node, as annotations write it, and the node's description. -/
structure Sighting where
  tag : String
  target : String
deriving DecidableEq, Repr

/-- The result of configuring a tree. -/
structure Configured where
  draft : Draft
  seen : List Sighting
  /-- Why the last tag was refused, if it was. -/
  refusal : Option ConfigError

namespace Configured

def unchanged (d : Draft) : Configured := ⟨d, [], none⟩

def refused (d : Draft) (e : ConfigError) : Configured := ⟨d, [], some e⟩

/-- The tree with a part that was configured put in its place. -/
def inside (f : Draft → Draft) (c : Configured) : Configured := { c with draft := f c.draft }

/-- The tree after a node has seen a tag. -/
def after (s : Sighting) (c : Configured) : Configured := { c with seen := s :: c.seen }

/-- A result, with a refusal set inside the scope of `k`. -/
def within (k : Key) (c : Configured) : Configured :=
  { c with refusal := c.refusal.map (.nested k) }

/-- What `next` makes of the tree, unless there was a refusal. -/
def andThen (c : Configured) (next : Draft → Configured) : Configured :=
  match c.refusal with
  | some _ => c
  | none =>
    let n := next c.draft
    { n with seen := c.seen ++ n.seen }

/-- The tree with the slot that was set, or as it was. -/
def ofSlot {α : Type} (d : Draft) (put : α → Draft) : Except ConfigError α → Configured
  | .ok a => unchanged (put a)
  | .error e => refused d e

end Configured

namespace Tag

/-- The parameter of a tag, for a slot that is empty. -/
def fill (t : Tag) : Option String → Except ConfigError (Option String)
  | some _ => .error (.duplicateTag t.key)
  | none => t.expectParam.map some

/-- The flag of a tag, where it is not raised yet. -/
def raise (t : Tag) (flag : Bool) : Except ConfigError Bool := do
  t.expectFlag
  if flag then throw (.duplicateTag t.key) else return true

end Tag

namespace Draft

open Configured

/-- The refusal of a tag that means nothing for the node. -/
def unrecognized (d : Draft) (t : Tag) : Configured :=
  refused d (.unrecognizedTag t.text d.describe)

/-- A slot for limits, with the parameter of `t` on one side. -/
def setLimit (t : Tag) (upper : Bool) (l : Limits String) : Except ConfigError (Limits String) :=
  if upper then (t.fill l.upper).map fun u => { l with upper := u }
  else (t.fill l.lower).map fun v => { l with lower := v }

/-- Which limit of a leaf a key sets: the upper one, the lower one, or none. -/
def scalarLimit? : ScalarKind → Key → Option Bool
  | .integer, .min | .float, .min | .string, .minLen => some false
  | .integer, .max | .float, .max | .string, .maxLen => some true
  | _, _ => none

/-- Which limit of a collection a key sets. -/
def sizeLimit? : Key → Option Bool
  | .minItems => some false
  | .maxItems => some true
  | _ => none

/-- What a node does with a tag. `enter` applies the tags of its scope to a part of the node. -/
def receive (t : Tag) (enter : Draft → Configured) : Draft → Configured
  | d@(.scalar kind limits func) => after ⟨t.text, d.describe⟩ <|
    match scalarLimit? kind t.key with
    | some upper => ofSlot d (.scalar kind · func) (setLimit t upper limits)
    | none =>
      if t.key = .func then ofSlot d (.scalar kind limits ·) (t.fill func) else d.unrecognized t
  | d@(.optional nullable notNull inner) => after ⟨t.text, d.describe⟩ <|
    match t.key with
    | .nullable => ofSlot d (.optional · notNull inner) (t.raise nullable)
    | .notNull => ofSlot d (.optional nullable · inner) (t.raise notNull)
    | _ => (receive t enter inner).inside (.optional nullable notNull)
  | d@(.array size item) => after ⟨t.text, d.describe⟩ <|
    match sizeLimit? t.key with
    | some upper => ofSlot d (.array · item) (setLimit t upper size)
    | none => if t.key = .item then (enter item).inside (.array size) else d.unrecognized t
  | d@(.map size k v) => after ⟨t.text, d.describe⟩ <|
    match sizeLimit? t.key with
    | some upper => ofSlot d (.map · k v) (setLimit t upper size)
    | none =>
      if t.key = .key then (enter k).inside (.map size · v)
      else if t.key = .value then (enter v).inside (.map size k)
      else d.unrecognized t
  | d@(.inline fields func) => after ⟨t.text, d.describe⟩ <|
    if t.key = .func then ofSlot d (.inline fields ·) (t.fill func) else d.unrecognized t
  | d@(.delegated func) => after ⟨t.text, d.describe⟩ <|
    if t.key = .func then ofSlot d .delegated (t.fill func) else d.unrecognized t
  | d@(.wrapper ty mode inner func) => after ⟨t.text, d.describe⟩ <|
    if t.key = .func then ofSlot d (.wrapper ty mode inner ·) (t.fill func)
    else if (sizeLimit? t.key).isSome then d.unrecognized t
    else (receive t enter inner).inside (.wrapper ty mode · func)
  | d@(.interface indirect func) => after ⟨t.text, d.describe⟩ <|
    if t.key = .func then ofSlot d (.interface indirect ·) (t.fill func) else d.unrecognized t
  | d@.skip => after ⟨t.text, d.describe⟩ (d.unrecognized t)

mutual

/-- The tree configured with one tag. The tags of a scope go to the part that `receive` finds for
its key. -/
def setTag (d : Draft) : Tag → Configured
  | .simple k p => d.receive (.simple k p) fun part =>
    refused part (.malformedTag (Tag.simple k p).text "`key=[...]`")
  | .scope k ts => d.receive (.scope k ts) fun part => setScope k part ts

/-- A part of a tree configured with the tags of the scope of `k`, up to the first that is
refused. -/
def setScope (k : Key) (d : Draft) : List Tag → Configured
  | [] => unchanged d
  | t :: ts => ((d.setTag t).within k).andThen fun d => setScope k d ts

end

/-- The tree configured with tags, up to the first that is refused. -/
def setTags (d : Draft) : List Tag → Configured
  | [] => unchanged d
  | t :: ts => (d.setTag t).andThen fun d => setTags d ts

/-- The tree configured with an annotation, the nodes that have seen a tag, and why the annotation
could not be applied in full. -/
def annotate (d : Draft) (text : String) : Draft × List Sighting × Option AnnotationError :=
  match Tag.parse text with
  | .error e => (d, [], some (.parse e))
  | .ok ts =>
    let c := d.setTags ts
    (c.draft, c.seen, c.refusal.map .config)

end Draft

end FieldRules
