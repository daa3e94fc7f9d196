/-!
# Tags

An annotation is a list of tags. A tag is a key of a fixed vocabulary, written bare (`nullable`),
with a parameter (`min=18`) or with a scope of further tags (`item=[min_len=1]`). Every key has one
`Shape`, the way an annotation has to write it. A tag built by hand may have any form for any key,
so that the shape is checked again where a tag is used.

`Tag.text` is the written form of a tag, without blanks.
-/

namespace FieldRules

/-- How a key is written. -/
inductive Shape where
  /-- `key` -/
  | flag
  /-- `key=parameter` -/
  | param
  /-- `key=[...]` -/
  | scope
deriving DecidableEq, Repr

/-- The vocabulary of annotations. Lengths are those of texts, in characters. -/
inductive Key where
  | min
  | max
  | minLen
  | maxLen
  | minItems
  | maxItems
  /-- An absent optional value is accepted. -/
  | nullable
  /-- An optional value has to be present. -/
  | notNull
  /-- Tags for the elements of a collection. -/
  | item
  /-- Tags for the keys of a map. -/
  | key
  /-- Tags for the values of a map. -/
  | value
  | func
deriving DecidableEq, Repr

namespace Key

/-- Every key, in the order of the vocabulary. -/
def all : List Key :=
  [.min, .max, .minLen, .maxLen, .minItems, .maxItems, .nullable, .notNull, .item, .key, .value,
    .func]

/-- The key as annotations spell it. -/
def spelling : Key → String
  | min => "min"
  | max => "max"
  | minLen => "min_len"
  | maxLen => "max_len"
  | minItems => "min_items"
  | maxItems => "max_items"
  | nullable => "nullable"
  | notNull => "not_null"
  | item => "item"
  | key => "key"
  | value => "value"
  | func => "func"

/-- The one way in which annotations write the key. -/
def shape : Key → Shape
  | nullable | notNull => .flag
  | item | key | value => .scope
  | min | max | minLen | maxLen | minItems | maxItems | func => .param

/-- The key with the given spelling. -/
def ofSpelling? (name : String) : Option Key :=
  all.find? (·.spelling == name)

theorem spelling_injective {k l : Key} (h : k.spelling = l.spelling) : k = l := by
  revert h; cases k <;> cases l <;> decide

theorem ofSpelling?_spelling (k : Key) : ofSpelling? k.spelling = some k := by
  cases k <;> decide

theorem spelling_of_ofSpelling? {name : String} {k : Key} (h : ofSpelling? name = some k) :
    k.spelling = name := by
  simpa using List.find?_some h

end Key

/-- One entry of an annotation. -/
inductive Tag where
  | simple (k : Key) (param : Option String)
  | scope (k : Key) (tags : List Tag)
deriving Repr

namespace Tag

def key : Tag → Key
  | simple k _ => k
  | scope k _ => k

mutual

/-- The tag as an annotation writes it. -/
def text : Tag → String
  | simple k none => k.spelling
  | simple k (some p) => k.spelling ++ "=" ++ p
  | scope k ts => k.spelling ++ "=[" ++ texts ts ++ "]"

/-- The tags as one annotation, separated by commas. -/
def texts : List Tag → String
  | [] => ""
  | [t] => t.text
  | t :: u :: ts => t.text ++ "," ++ texts (u :: ts)

end

end Tag

end FieldRules
