import FieldRules.Tag.Parser

/-!
# Reading annotations by bytes

The reader of annotations as a cursor. It looks at one byte at a time, counts positions in bytes,
and cuts the texts of keys and parameters out between two positions. A text can only be cut between
characters: a cut inside one, or beyond the end, is no error of the annotation but leaves the cursor
without a result. So does the entry loop when the rounds it was given do not suffice.

`Cursor.parse` always has a result, and it is that of `Tag.parse`.
-/

namespace FieldRules.Tag.Cursor

open Text

/-- What the cursor makes of an annotation: a value or the error of the annotation, or neither. -/
abbrev Run (α : Type) := ExceptT ParseError Option α

/-! ## Bytes and cuts -/

/-- The bytes of a text in UTF-8. -/
def bytes (s : List Char) : List UInt8 := s.flatMap String.utf8EncodeChar

/-- The byte of an ASCII character. -/
def byte (c : Char) : UInt8 := c.toUInt8

/-- The bytes of the blanks that separate entries. -/
def isBlankByte (b : UInt8) : Bool :=
  b = byte ' ' || b = byte '\t' || b = byte '\n' || b = byte '\x0c' || b = byte '\r'

/-- The bytes that end a key. -/
def endsKeyByte (b : UInt8) : Bool :=
  b = byte '=' || b = byte ',' || b = byte '[' || b = byte ']'

/-- The bytes that end a parameter. -/
def endsParamByte (b : UInt8) : Bool :=
  b = byte ',' || b = byte '[' || b = byte ']'

/-- The text from a byte on, if a character begins there or the text ends. -/
def textFrom : Nat → List Char → Option (List Char)
  | 0, s => some s
  | _ + 1, [] => none
  | n + 1, c :: s => if c.utf8Size ≤ n + 1 then textFrom (n + 1 - c.utf8Size) s else none

/-- The text up to a byte, if a character begins there or the text ends. -/
def textTo : Nat → List Char → Option (List Char)
  | 0, _ => some []
  | _ + 1, [] => none
  | n + 1, c :: s =>
    if c.utf8Size ≤ n + 1 then (textTo (n + 1 - c.utf8Size) s).map (c :: ·) else none

variable (input : String)

/-- The byte at a position. -/
def peek (pos : Nat) : Option UInt8 := (bytes input.toList)[pos]?

/-- The position after the bytes that `p` accepts. -/
def skip (p : UInt8 → Bool) (pos : Nat) : Nat :=
  pos + (((bytes input.toList).drop pos).takeWhile p).length

/-- The text between two positions. -/
def cut (start stop : Nat) : Option (List Char) := do
  let s ← textFrom start input.toList
  textTo (stop - start) s

/-! ## The reader -/

/-- An error of the annotation. -/
def fail {α : Type} (pos : Nat) (problem : Problem) : Run α :=
  throw ⟨input, pos, problem⟩

/-- The character at a position cannot stand there. -/
def unexpected {α : Type} (pos : Nat) : Run α := do
  let s ← textFrom pos input.toList
  fail input pos (.unexpectedCharacter (s.head?.getD '\x00'))

/-- The text up to a byte of `stops` or the end, without the blanks around it; the position of what
is left of it, and the position after it. -/
def readUntil (stops : UInt8 → Bool) (pos : Nat) : Run (List Char × Nat × Nat) := do
  let stop := skip input (!stops ·) pos
  let raw ← cut input pos stop
  return (trim raw, pos + (byteLength raw - byteLength (trimStart raw)), stop)

/-- The entry of the key `k`, which stands at `keyPos`, with a parameter. -/
def param (k : Key) (keyPos pos : Nat) : Run (Tag × Nat) := do
  let (text, textPos, pos) ← readUntil input endsParamByte pos
  if peek input pos = some (byte '[') then unexpected input pos
  else match k.shape with
    | .flag => fail input keyPos (.unexpectedParameter k)
    | .scope => fail input keyPos (.expectedScope k)
    | .param =>
      if text.isEmpty then fail input textPos (.missingParameter k)
      else return (.simple k (some (String.ofList text)), pos)

/-- The entry of the key `k`, which stands at `keyPos`, with a scope, which `enter` reads. -/
def scope (enter : Nat → Nat → Run (List Tag × Nat)) (depth : Nat) (k : Key) (keyPos pos : Nat) :
    Run (Tag × Nat) :=
  if k.shape ≠ .scope then fail input keyPos (.unexpectedScope k)
  else if maxDepth ≤ depth then fail input pos .tooDeep
  else do
    let (ts, pos) ← enter (depth + 1) (pos + 1)
    return (.scope k ts, pos)

/-- The entry of the key `k`, which stands at `keyPos`; `pos` is the position after the key. -/
def afterKey (enter : Nat → Nat → Run (List Tag × Nat)) (depth : Nat) (k : Key)
    (keyPos pos : Nat) : Run (Tag × Nat) :=
  if peek input pos = some (byte '[') then unexpected input pos
  else if peek input pos = some (byte '=') then
    let pos := skip input isBlankByte (pos + 1)
    if peek input pos = some (byte '[') then scope input enter depth k keyPos pos
    else param input k keyPos pos
  else match k.shape with
    | .flag => return (.simple k none, pos)
    | .param => fail input keyPos (.missingParameter k)
    | .scope => fail input keyPos (.expectedScope k)

/-- An entry, and the position after it. -/
def entry (enter : Nat → Nat → Run (List Tag × Nat)) (depth pos : Nat) : Run (Tag × Nat) := do
  let (name, keyPos, pos) ← readUntil input endsKeyByte (skip input isBlankByte pos)
  if name.isEmpty then fail input keyPos .emptyKey
  else match Key.ofSpelling? (String.ofList name) with
    | none => fail input keyPos (.unknownKey (String.ofList name))
    | some k => afterKey input enter depth k keyPos pos

/-- A round of the entry loop after its entry `t`; `next` reads the entries after a comma. -/
def afterEntry (next : Nat → Run (List Tag × Nat)) (nested : Bool) (t : Tag) (pos : Nat) :
    Run (List Tag × Nat) :=
  let pos := skip input isBlankByte pos
  if peek input pos = some (byte ',') then
    let start := skip input isBlankByte (pos + 1)
    if peek input start = none ∨ peek input start = some (byte ']') then
      fail input pos .trailingSeparator
    else do
      let (ts, pos) ← next start
      return (t :: ts, pos)
  else if peek input pos = some (byte ']') ∧ nested then return ([t], pos + 1)
  else if peek input pos = none then
    if nested then fail input pos .unclosedBracket else return ([t], pos)
  else unexpected input pos

/-- The entry loop: the entries up to the end of the text or, if `nested`, up to a `]`. -/
def entries : Nat → Bool → Nat → Nat → Run (List Tag × Nat)
  | 0, _, _, _ => ExceptT.mk none
  | rounds + 1, nested, depth, pos => do
    let (t, pos) ← entry input (entries rounds true) depth pos
    afterEntry input (entries rounds nested depth) nested t pos

/-- The tags of an annotation. There are no more rounds than bytes. -/
def parse : Run (List Tag) :=
  let pos := skip input isBlankByte 0
  if (bytes input.toList).length ≤ pos then return []
  else do
    let (ts, _) ← entries input ((bytes input.toList).length + 1) false 0 pos
    return ts

end FieldRules.Tag.Cursor
