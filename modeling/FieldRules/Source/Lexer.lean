import FieldRules.Source.Lexeme
import FieldRules.Text.Blank
import FieldRules.Text.Quoted

/-!
# Reading lexemes

`Lexeme.ofText?` reads a source text into lexemes. Blanks and ordinary comments separate lexemes;
a comment about the following item becomes the attribute it stands for. Of a text that starts like
several lexemes the literal is taken first, then the mark, then the identifier.
-/

namespace FieldRules.Lexeme

open Text

/-! ## Blanks and comments -/

/-- Whether the character separates lexemes: a blank or a mark of the writing direction. -/
def isSeparator (c : Char) : Bool :=
  isBlank c || c.toNat = 0x200E || c.toNat = 0x200F

/-- What follows a block comment, in which comments nest, given `depth` comments that are open. -/
def afterBlock? (depth : Nat) : List Char → Option (List Char)
  | [] => none
  | [_] => none
  | c :: d :: s =>
    if c = '/' ∧ d = '*' then afterBlock? (depth + 1) s
    else if c = '*' ∧ d = '/' then if depth ≤ 1 then some s else afterBlock? (depth - 1) s
    else afterBlock? depth (d :: s)

/-- What follows an ordinary comment. -/
def afterComment? (s : List Char) : Option (List Char) :=
  let line := s.dropWhile (· ≠ '\n')
  match s with
  | '/' :: '/' :: '/' :: '/' :: _ => some line
  | '/' :: '/' :: '/' :: _ => none
  | '/' :: '/' :: '!' :: _ => none
  | '/' :: '/' :: _ => some line
  | '/' :: '*' :: '*' :: '/' :: r => some r
  | '/' :: '*' :: '*' :: '*' :: _ => afterBlock? 0 s
  | '/' :: '*' :: '*' :: _ => none
  | '/' :: '*' :: '!' :: _ => none
  | '/' :: '*' :: _ => afterBlock? 0 s
  | _ => none

/-- The text without the blanks and comments it starts with; `fuel` bounds their number. -/
def skipBlanks : Nat → List Char → List Char
  | 0, s => s
  | fuel + 1, s =>
    match s with
    | [] => []
    | c :: r =>
      if isSeparator c then skipBlanks fuel r
      else match afterComment? s with
        | some r => skipBlanks fuel r
        | none => s

/-- Whether every carriage return is followed by a line feed. -/
def hasWholeLineEnds : List Char → Bool
  | [] => true
  | c :: s => (c ≠ '\r' || s.head? = some '\n') && hasWholeLineEnds s

/-- A comment about an item: whether it is about the enclosing one, its text, and what follows. -/
def readDoc? (s : List Char) : Option (Bool × List Char × List Char) :=
  let line (r : List Char) :=
    let t := r.takeWhile (· ≠ '\n')
    let rest := r.dropWhile (· ≠ '\n')
    (if t.getLast? = some '\r' ∧ rest ≠ [] then t.dropLast else t, rest)
  let block := (afterBlock? 0 s).map fun r =>
    ((s.take (s.length - r.length - 2)).drop 3, r)
  let found := match s with
    | '/' :: '/' :: '!' :: r => some (true, line r)
    | '/' :: '*' :: '!' :: _ => block.map fun b => (true, b)
    | '/' :: '/' :: '/' :: r => if r.head? = some '/' then none else some (false, line r)
    | '/' :: '*' :: '*' :: r => if r.head? = some '*' then none else block.map fun b => (false, b)
    | _ => none
  found.filter fun (_, t, _) => hasWholeLineEnds t

/-! ## Identifiers and marks -/

def readWord? : List Char → Option (List Char × List Char)
  | [] => none
  | c :: s =>
    if startsIdent c then some (c :: s.takeWhile continuesIdent, s.dropWhile continuesIdent)
    else none

/-- The words that cannot be raw identifiers. -/
def neverRaw : List String := ["_", "super", "self", "Self", "crate"]

def readIdent? (s : List Char) : Option (Ident × List Char) :=
  match s with
  | 'r' :: '#' :: r =>
    match readWord? r with
    | some (w, r') =>
      let name := String.ofList w
      if name ∈ neverRaw then none else some (⟨true, name⟩, r')
    | none => none
  | _ => (readWord? s).map fun (w, r) => (Ident.ofName (String.ofList w), r)

def startsMark (s : List Char) : Bool :=
  match s with
  | '/' :: '/' :: _ => false
  | '/' :: '*' :: _ => false
  | c :: _ => "~!@#$%^&*-=+|;:,<.>/?'".toList.contains c
  | [] => false

/-- A mark, whether it is joined to the next one, and what follows it. An apostrophe is a mark only
in front of an identifier, with which it names a lifetime. -/
def readMark? (s : List Char) : Option (Char × Bool × List Char) :=
  if !startsMark s then none
  else match s with
    | [] => none
    | '\'' :: r =>
      match readIdent? r with
      | some (i, r') =>
        if r'.head? = some '\'' || (r'.head? = some '#' && !i.raw) then none
        else some ('\'', true, r)
      | none => none
    | c :: r => some (c, startsMark r, r)

/-! ## Literals -/

/-- What follows a literal's suffix, which may be missing. -/
def afterSuffix (s : List Char) : List Char :=
  match readWord? s with
  | some (_, r) => r
  | none => s

/-- What follows the suffix of a number, which no further word may follow. -/
def afterNumberSuffix? (s : List Char) : Option (List Char) :=
  let r := afterSuffix s
  if r.head?.any continuesIdent then none else some r

/-- The text of a raw literal and what follows it, given what follows its `r`. -/
def readRawLiteral? (s : List Char) : Option (List Char × List Char) :=
  let hashes := s.takeWhile (· = '#')
  match s.dropWhile (· = '#') with
  | '"' :: r => if hashes.length ≤ 255 then readRaw hashes.length r else none
  | _ => none

/-- What follows a character literal, given what follows its opening apostrophe. -/
def afterCharacter? (bytes : Bool) (s : List Char) : Option (List Char) :=
  let body := match s with
    | '\\' :: 'x' :: a :: b :: r =>
      match hexValue? a, hexValue? b with
      | some v, some _ => if bytes ∨ v < 8 then some r else none
      | _, _ => none
    | '\\' :: 'u' :: '\x7b' :: r =>
      let digits := r.takeWhile (· ≠ '\x7d')
      let value := (digits.filterMap hexValue?).foldl (16 * · + ·) 0
      let isDigits := digits.all fun c => (hexValue? c).isSome || c = '_'
      let count := (digits.filter (· ≠ '_')).length
      if !bytes && isDigits && count ≤ 6 && digits.head?.any (· ≠ '_') &&
          (ofCodePoint? value).isSome then
        (r.dropWhile (· ≠ '\x7d')).tail?
      else none
    | '\\' :: c :: r => if c ∈ ['n', 'r', 't', '\\', '0', '\'', '"'] then some r else none
    | '\\' :: [] => none
    | c :: r => if bytes ∧ 128 ≤ c.toNat then none else some r
    | [] => none
  match body with
  | some ('\'' :: r) => some (afterSuffix r)
  | _ => none

/-- The digits of an exponent, after its `e`; without any, `none`. -/
def afterExponent? (s : List Char) : Option (List Char) :=
  let r := s.dropWhile (· = '_')
  let r := match r with
    | '+' :: t => t
    | '-' :: t => t
    | _ => r
  let digits := r.takeWhile fun c => c.isDigit || c = '_'
  if digits.any Char.isDigit then some (r.dropWhile fun c => c.isDigit || c = '_') else none

/-- What follows the digits of a number with a point or an exponent. -/
def afterFloatDigits? (s : List Char) : Option (List Char) :=
  let digit (c : Char) := c.isDigit || c = '_'
  let isExponent (r : List Char) := r.head? = some 'e' || r.head? = some 'E'
  if !s.head?.any Char.isDigit then none
  else match s.dropWhile digit with
    | '.' :: r =>
      if r.head?.any fun c => c = '.' || startsIdent c then none
      else
        let t := r.dropWhile digit
        if isExponent t then some ((afterExponent? t.tail).getD t) else some t
    | r => if isExponent r then afterExponent? r.tail else none

/-- What follows the digits of a whole number. -/
def afterIntDigits? (s : List Char) : Option (List Char) :=
  let (base, r) := match s with
    | '0' :: 'x' :: r => (16, r)
    | '0' :: 'o' :: r => (8, r)
    | '0' :: 'b' :: r => (2, r)
    | _ => (10, s)
  let digit (c : Char) := c = '_' || (hexValue? c).any fun v => v < base || v < 10
  let digits := r.takeWhile digit
  let values := digits.filterMap hexValue?
  if values.isEmpty || values.any (fun v => base ≤ v) ||
      (base = 10 && digits.head? = some '_') then none
  else some (r.dropWhile digit)

def afterNumber? (s : List Char) : Option (List Char) :=
  ((afterFloatDigits? s).bind afterNumberSuffix?).or ((afterIntDigits? s).bind afterNumberSuffix?)

/-- A literal: the text of a string literal, and what follows the literal. -/
def readLiteral? (s : List Char) : Option (Option String × List Char) :=
  let string (read : Option (List Char × List Char)) :=
    read.map fun (t, r) => (some (String.ofList t), afterSuffix r)
  let other (read : Option (List Char × List Char)) :=
    read.map fun (_, r) => ((none : Option String), afterSuffix r)
  let found := match s with
    | '"' :: r => string (readQuoted .text .plain r)
    | 'r' :: r => string (readRawLiteral? r)
    | 'b' :: '"' :: r => other (readQuoted .bytes .plain r)
    | 'b' :: 'r' :: r => other ((readRawLiteral? r).filter fun (t, _) => t.all (·.toNat < 128))
    | 'c' :: '"' :: r => other ((readQuoted .mixed .plain r).filter fun (t, _) => '\x00' ∉ t)
    | 'c' :: 'r' :: r => other ((readRawLiteral? r).filter fun (t, _) => '\x00' ∉ t)
    | 'b' :: '\'' :: r => (afterCharacter? true r).map fun r => (none, r)
    | '\'' :: r => (afterCharacter? false r).map fun r => (none, r)
    | _ => none
  found.or ((afterNumber? s).map fun r => (none, r))

/-! ## Texts -/

/-- The starts of texts that are broken literals and not identifiers. -/
def literalStarts : List (List Char) :=
  ["r\"", "r#\"", "r##", "b\"", "b'", "br\"", "br#", "c\"", "cr\"", "cr#"].map String.toList

/-- The text that stands for a piece of code that could not be read. It counts as a literal. -/
def brokenPiece : List Char := "(/*ERROR*/)".toList

/-- A lexeme that is no group, and what follows it; `place r` is where the text `r` starts. -/
def readLeaf? (place : List Char → Position) (s : List Char) : Option (Lexeme × List Char) :=
  let span (r : List Char) : Span := ⟨place s, place r⟩
  match readLiteral? s with
  | some (value, r) =>
    some (.literal (String.ofList (s.take (s.length - r.length))) value (span r), r)
  | none =>
    match readMark? s with
    | some (c, joint, r) => some (.punct c joint (span r), r)
    | none =>
      if literalStarts.any (·.isPrefixOf s) then none
      else if brokenPiece.isPrefixOf s then
        let r := s.drop brokenPiece.length
        some (.literal (String.ofList brokenPiece) none (span r), r)
      else (readIdent? s).map fun (i, r) => (.ident i (span r), r)

/-- The group that a bracket opens. -/
def opening? : Char → Option Delimiter
  | '(' => some .parenthesis
  | '[' => some .bracket
  | '\x7b' => some .brace
  | _ => none

/-- The group that a bracket closes. -/
def closing? : Char → Option Delimiter
  | ')' => some .parenthesis
  | ']' => some .bracket
  | '\x7d' => some .brace
  | _ => none

/-- The attribute that a comment about an item stands for. -/
def docAttribute (inner : Bool) (comment : String) (span : Span) : List Lexeme :=
  let bang : List Lexeme := if inner then [.punct '!' false span] else []
  let content : List Lexeme :=
    [.ident (.ofName "doc") span, .punct '=' false span,
      .literal (quote comment) (some comment) span]
  .punct '#' false span :: bang ++ [.group .bracket content span span]

/-- The lexemes up to the end of the text or the bracket that closes the surrounding group, and the
rest of the text. Each round of reading takes a character, so that `fuel` need not exceed the
number of characters. -/
def readAll? (place : List Char → Position) : Nat → List Char → Option (List Lexeme × List Char)
  | 0, _ => none
  | fuel + 1, s =>
    let s := skipBlanks s.length s
    match readDoc? s with
    | some (inner, comment, r) =>
      (readAll? place fuel r).map fun (ls, r') =>
        (docAttribute inner (String.ofList comment) ⟨place s, place r⟩ ++ ls, r')
    | none =>
      match s with
      | [] => some ([], [])
      | c :: r =>
        if (closing? c).isSome then some ([], s)
        else match if brokenPiece.isPrefixOf s then none else opening? c with
          | some d =>
            match readAll? place fuel r with
            | some (inner, c' :: r') =>
              if closing? c' = some d then
                (readAll? place fuel r').map fun (ls, r'') =>
                  (.group d inner ⟨place s, place r⟩ ⟨place (c' :: r'), place r'⟩ :: ls, r'')
              else none
            | _ => none
          | none =>
            match readLeaf? place s with
            | some (l, r) => (readAll? place fuel r).map fun (ls, r') => (l :: ls, r')
            | none => none

/-- The lexemes of a source text. A byte order mark at its start is no part of it. -/
def ofText? (text : String) : Option (List Lexeme) :=
  let s := text.toList
  let place (r : List Char) := Position.start.after (s.take (s.length - r.length))
  let body := if s.head? = some '\ufeff' then s.tail else s
  match readAll? place (s.length + 1) body with
  | some (ls, []) => some ls
  | _ => none

end FieldRules.Lexeme
