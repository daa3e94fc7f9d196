import FieldRules.Tag.Error
import FieldRules.Text.Blank

/-!
# Reading annotations

`Tag.parse` reads the text of an annotation. The grammar is

* `tags  := entry (',' entry)*`
* `entry := key | key '=' param | key '=' '[' tags ']'`

with blanks allowed around keys, parameters and brackets. A parameter is any text without `,`, `[`
and `]`, so that the chain of a `func=` tag comes through whole.

The reader works on the characters that are left. A problem is located by the text that remains
where it stands (`Fault`), and the byte position of the error is the size of what was read before.
Every entry takes at least one character (`length_lt_of_readEntry`), which is why reading ends.
-/

namespace FieldRules.Tag

open Text

/-- A problem and the text that remains at the place where it stands. -/
structure Fault where
  problem : Problem
  rest : List Char
deriving DecidableEq

/-- The characters that end a key. -/
def endsKey (c : Char) : Bool :=
  c = '=' || c = ',' || c = '[' || c = ']'

/-- The characters that end a parameter. -/
def endsParam (c : Char) : Bool :=
  c = ',' || c = '[' || c = ']'

/-- What the head of an entry is. -/
inductive Entry where
  /-- A whole entry without a scope, and the text after it. -/
  | whole (tag : Tag) (rest : List Char)
  /-- A key whose scope begins, and the text after the `[`. -/
  | opens (k : Key) (rest : List Char)

/-- The text after an entry's head. -/
def Entry.rest : Entry → List Char
  | whole _ r => r
  | opens _ r => r

/-- What follows an entry. -/
inductive Next where
  /-- Another entry, which begins in the given text. -/
  | entry (rest : List Char)
  /-- Nothing: the list ends before the given text. -/
  | done (rest : List Char)

/-- The text after what follows an entry. -/
def Next.rest : Next → List Char
  | entry r => r
  | done r => r

/-! ## Entries -/

/-- The entry of a key without `=`. -/
def readBare (k : Key) (start rest : List Char) : Except Fault Entry :=
  match k.shape with
  | .flag => .ok (.whole (.simple k none) rest)
  | .param => .error ⟨.missingParameter k, start⟩
  | .scope => .error ⟨.expectedScope k, start⟩

/-- The entry of a key with `=` and a parameter, which begins in `s`. -/
def readParam (k : Key) (start s : List Char) : Except Fault Entry :=
  let body := trimStart s
  let param := trimEnd (body.takeWhile (!endsParam ·))
  let rest := body.dropWhile (!endsParam ·)
  if rest.head? = some '[' then .error ⟨.unexpectedCharacter '[', rest⟩
  else match k.shape with
    | .flag => .error ⟨.unexpectedParameter k, start⟩
    | .scope => .error ⟨.expectedScope k, start⟩
    | .param =>
      if param.isEmpty then .error ⟨.missingParameter k, body⟩
      else .ok (.whole (.simple k (some (String.ofList param))) rest)

/-- The head of the entry of a key with `=` and a scope, in the text after its `[`. `depth` scopes
are open around it. -/
def readScope (depth : Nat) (k : Key) (start rest : List Char) : Except Fault Entry :=
  if k.shape ≠ .scope then .error ⟨.unexpectedScope k, start⟩
  else if maxDepth ≤ depth then .error ⟨.tooDeep, '[' :: rest⟩
  else .ok (.opens k rest)

/-- The head of an entry: all of it, or its key and the `[` of its scope. -/
def readEntry (depth : Nat) (s : List Char) : Except Fault Entry :=
  let start := trimStart s
  let name := trimEnd (start.takeWhile (!endsKey ·))
  let rest := start.dropWhile (!endsKey ·)
  if name.isEmpty then .error ⟨.emptyKey, start⟩
  else match Key.ofSpelling? (String.ofList name) with
    | none => .error ⟨.unknownKey (String.ofList name), start⟩
    | some k =>
      match rest with
      | '[' :: _ => .error ⟨.unexpectedCharacter '[', rest⟩
      | '=' :: r =>
        match r.dropWhile isAsciiBlank with
        | '[' :: body => readScope depth k start body
        | body => readParam k start body
      | _ => readBare k start rest

/-- What follows an entry inside `depth` scopes. -/
def readNext (depth : Nat) (s : List Char) : Except Fault Next :=
  match s.dropWhile isAsciiBlank with
  | [] => if depth = 0 then .ok (.done []) else .error ⟨.unclosedBracket, []⟩
  | ',' :: r =>
    match r.dropWhile isAsciiBlank with
    | [] => .error ⟨.trailingSeparator, ',' :: r⟩
    | c :: t =>
      if c = ']' then .error ⟨.trailingSeparator, ',' :: r⟩ else .ok (.entry (c :: t))
  | c :: r =>
    if c = ']' ∧ depth ≠ 0 then .ok (.done r) else .error ⟨.unexpectedCharacter c, c :: r⟩

/-! ## Reading consumes the text -/

theorem length_dropWhile_le (p : Char → Bool) (s : List Char) :
    (s.dropWhile p).length ≤ s.length :=
  (List.dropWhile_suffix p).length_le

theorem trimEnd_nil_of_takeWhile_nil {p : Char → Bool} {s : List Char}
    (h : trimEnd (s.takeWhile p) ≠ []) : (s.dropWhile p).length < s.length := by
  have hl : (s.takeWhile p).length + (s.dropWhile p).length = s.length := by
    rw [← List.length_append, List.takeWhile_append_dropWhile]
  have : s.takeWhile p ≠ [] := by
    intro hn
    rw [hn] at h
    exact h rfl
  have := List.length_pos_iff.mpr this
  omega

theorem length_le_of_readParam {k : Key} {start s : List Char} {e : Entry}
    (h : readParam k start s = .ok e) : e.rest.length ≤ s.length := by
  simp only [readParam] at h
  repeat' split at h
  all_goals cases h
  exact Nat.le_trans (length_dropWhile_le _ _) (length_dropWhile_le _ _)

theorem length_lt_of_readEntry {depth : Nat} {s : List Char} {e : Entry}
    (h : readEntry depth s = .ok e) : e.rest.length < s.length := by
  simp only [readEntry] at h
  split at h
  next => cases h
  next hn =>
    have hs := trimEnd_nil_of_takeWhile_nil (s := trimStart s) (p := (!endsKey ·))
      (by simpa using hn)
    have ht := length_dropWhile_le isBlank s
    simp only [trimStart] at hs
    split at h
    next => cases h
    next k _ =>
      split at h
      next => cases h
      next r hr =>
        have hd := length_dropWhile_le isAsciiBlank r
        simp only [trimStart] at hr
        rw [hr] at hs
        simp only [List.length_cons] at hs
        split at h
        next body hb =>
          simp only [readScope] at h
          repeat' split at h
          all_goals cases h
          rw [hb] at hd
          simp only [Entry.rest, List.length_cons] at hd ⊢
          omega
        next =>
          have := length_le_of_readParam h
          omega
      next =>
        simp only [readBare] at h
        split at h <;> cases h
        simp only [Entry.rest, trimStart]
        omega

theorem length_le_of_readNext {depth : Nat} {s : List Char} {n : Next}
    (h : readNext depth s = .ok n) : n.rest.length ≤ s.length := by
  have hs := length_dropWhile_le isAsciiBlank s
  simp only [readNext] at h
  split at h
  next h₀ =>
    split at h <;> cases h
    simp [Next.rest]
  next r hr =>
    have hd := length_dropWhile_le isAsciiBlank r
    rw [hr] at hs
    simp only [List.length_cons] at hs
    split at h
    next => cases h
    next c t hc =>
      split at h <;> cases h
      rw [hc] at hd
      simp only [Next.rest, List.length_cons] at hd ⊢
      omega
  next c r _ hr =>
    rw [hr] at hs
    simp only [List.length_cons] at hs
    split at h <;> cases h
    simp only [Next.rest]
    omega

/-! ## Lists of entries -/

/-- The entries of a list inside `depth` scopes, up to the end of the text or, in a scope, up to its
`]`; and the text after them. -/
def readEntries (depth : Nat) (s : List Char) :
    Except Fault (List Tag × { r : List Char // r.length < s.length }) :=
  let first : Except Fault (Tag × { r : List Char // r.length < s.length }) :=
    match h : readEntry depth s with
    | .error f => .error f
    | .ok (.whole t r) => .ok (t, ⟨r, length_lt_of_readEntry h⟩)
    | .ok (.opens k r) =>
      have : r.length < s.length := length_lt_of_readEntry h
      match readEntries (depth + 1) r with
      | .error f => .error f
      | .ok (ts, ⟨r', h'⟩) => .ok (.scope k ts, ⟨r', Nat.lt_trans h' this⟩)
  match first with
  | .error f => .error f
  | .ok (t, ⟨r, hr⟩) =>
    match h : readNext depth r with
    | .error f => .error f
    | .ok (.done r') => .ok ([t], ⟨r', Nat.lt_of_le_of_lt (length_le_of_readNext h) hr⟩)
    | .ok (.entry r') =>
      have : r'.length < s.length := Nat.lt_of_le_of_lt (length_le_of_readNext h) hr
      match readEntries depth r' with
      | .error f => .error f
      | .ok (ts, ⟨r'', h'⟩) => .ok (t :: ts, ⟨r'', Nat.lt_trans h' this⟩)
termination_by s.length

/-- The size of a text in bytes. -/
def byteLength (s : List Char) : Nat :=
  s.foldr (fun c n => c.utf8Size + n) 0

/-- The tags of an annotation, in written order; a blank annotation has none. -/
def parse (input : String) : Except ParseError (List Tag) :=
  let s := input.toList
  if (s.dropWhile isAsciiBlank).isEmpty then .ok []
  else match readEntries 0 s with
    | .ok (ts, _) => .ok ts
    | .error f => .error ⟨input, byteLength s - byteLength f.rest, f.problem⟩

end FieldRules.Tag
