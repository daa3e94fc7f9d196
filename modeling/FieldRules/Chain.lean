import FieldRules.Config.Error
import FieldRules.Source.Block

/-!
# Chains of custom validators

The parameter of a `func=` tag is a chain of validators separated by `;`. An entry `.check` calls a
method of the value, any other entry is the path of a function that takes the value. `Chain.parse`
reads a chain and refuses it at the first entry that is neither.
-/

namespace FieldRules

open Text

inductive Validator where
  | method (name : Ident)
  | function (path : Path)

/-- The validators of a `func=` tag, in the order of their calls. -/
abbrev Chain := List Validator

namespace Chain

/-- The parts of a text between the occurrences of `sep`. -/
def splitAt (sep : Char) : List Char → List (List Char)
  | [] => [[]]
  | c :: s =>
    if c = sep then [] :: splitAt sep s
    else match splitAt sep s with
      | [] => [[c]]
      | p :: ps => (c :: p) :: ps

/-- The validator that an entry of a chain names. -/
def entry? (s : List Char) : Option Validator :=
  match s with
  | [] => none
  | '.' :: name => (Reader.ofText? (fun _ => Reader.ident) (String.ofList name)).map .method
  | _ => (Reader.ofText? Reader.path (String.ofList s)).map .function

/-- The validators of the entries; `chain` is the whole text. -/
def entries (chain : String) : List (List Char) → Except ConfigError Chain
  | [] => .ok []
  | s :: ss =>
    match entry? s with
    | none => .error (.invalidValidator (String.ofList s) chain)
    | some v => (entries chain ss).map (v :: ·)

def parse (chain : String) : Except ConfigError Chain :=
  entries chain ((splitAt ';' chain.toList).map trim)

/-- The validators of a `func=` tag that may be missing. -/
def ofSlot : Option String → Except ConfigError Chain
  | none => .ok []
  | some chain => parse chain

end Chain

end FieldRules
