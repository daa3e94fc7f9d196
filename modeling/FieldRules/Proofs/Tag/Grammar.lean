import FieldRules.Tag.Parser

/-!
# The grammar of annotations

Which texts are annotations, said without a reader. `Writes n s t` says that the text `s` is an
entry that denotes the tag `t`, and `WritesAll n s ts` that it is a list of entries that denotes
`ts`; in both, at most `n` scopes stand inside one another.

Two kinds of blanks occur. Around keys and parameters any blank may stand (`Blank`), around the
brackets of a scope only those that separate entries (`AsciiBlank`). Entries absorb the latter at
both ends (`Writes.blank_append`, `Writes.append_blank`), so that a comma may be surrounded by them
although the grammar does not say so.
-/

namespace FieldRules.Tag

open Text

/-- A run of blanks. -/
def Blank (s : List Char) : Prop := ∀ c ∈ s, isBlank c = true

/-- A run of the blanks that separate entries from the punctuation around them. -/
def AsciiBlank (s : List Char) : Prop := ∀ c ∈ s, isAsciiBlank c = true

instance (s : List Char) : Decidable (AsciiBlank s) :=
  List.decidableBAll (isAsciiBlank · = true) s

/-- The text of a key, with blanks around it. -/
def WritesKey (s : List Char) (k : Key) : Prop :=
  ∃ u v, Blank u ∧ Blank v ∧ s = u ++ (k.spelling.toList ++ v)

/-- A text that can be a parameter. It may hold `=` and `;`. -/
structure IsParam (p : List Char) : Prop where
  ne_nil : p ≠ []
  plain : ∀ c ∈ p, c ≠ ',' ∧ c ≠ '[' ∧ c ≠ ']'
  head : ∀ c ∈ p.head?, isBlank c = false
  last : ∀ c ∈ p.getLast?, isBlank c = false

mutual

/-- `Writes n s t`: the text `s` is an entry that denotes `t`. -/
inductive Writes : Nat → List Char → Tag → Prop
  /-- `key` -/
  | flag {n s k} (hk : k.shape = .flag) (hs : WritesKey s k) : Writes n s (.simple k none)
  /-- `key = parameter` -/
  | param {n s k u p v} (hk : k.shape = .param) (hs : WritesKey s k) (hu : Blank u) (hp : IsParam p)
      (hv : Blank v) : Writes n (s ++ '=' :: (u ++ (p ++ v))) (.simple k (some (String.ofList p)))
  /-- `key = [...]` -/
  | scope {n s k a body ts b} (hk : k.shape = .scope) (hs : WritesKey s k) (ha : AsciiBlank a)
      (hts : WritesAll n body ts) (hb : AsciiBlank b) :
      Writes (n + 1) (s ++ '=' :: (a ++ '[' :: (body ++ ']' :: b))) (.scope k ts)

/-- `WritesAll n s ts`: the text `s` is a list of entries that denotes `ts`. -/
inductive WritesAll : Nat → List Char → List Tag → Prop
  | last {n s t} (ht : Writes n s t) : WritesAll n s [t]
  | cons {n s t r ts} (ht : Writes n s t) (hts : WritesAll n r ts) :
      WritesAll n (s ++ ',' :: r) (t :: ts)

end

/-! ## Blanks -/

theorem Blank.append {s t : List Char} (hs : Blank s) (ht : Blank t) : Blank (s ++ t) := by
  intro c hc
  rcases List.mem_append.mp hc with hc | hc
  · exact hs c hc
  · exact ht c hc

theorem AsciiBlank.append {s t : List Char} (hs : AsciiBlank s) (ht : AsciiBlank t) :
    AsciiBlank (s ++ t) := by
  intro c hc
  rcases List.mem_append.mp hc with hc | hc
  · exact hs c hc
  · exact ht c hc

theorem AsciiBlank.blank {s : List Char} (hs : AsciiBlank s) : Blank s :=
  fun c hc => isBlank_of_isAsciiBlank (hs c hc)

theorem Blank.nil : Blank [] := by simp [Blank]

theorem AsciiBlank.nil : AsciiBlank [] := by simp [AsciiBlank]

/-- A run of characters that `p` accepts, before a text whose first character it does not accept. -/
theorem dropWhile_append_of_head {p : Char → Bool} {u s : List Char} (hu : ∀ c ∈ u, p c = true)
    (hs : ∀ c ∈ s.head?, p c = false) : (u ++ s).dropWhile p = s := by
  rw [List.dropWhile_append_of_pos hu]
  cases s with
  | nil => rfl
  | cons c s => simp [hs c (by simp)]

/-- The counterpart of `dropWhile_append_of_head` for what is taken. -/
theorem takeWhile_append_of_head {p : Char → Bool} {u s : List Char} (hu : ∀ c ∈ u, p c = true)
    (hs : ∀ c ∈ s.head?, p c = false) : (u ++ s).takeWhile p = u := by
  rw [List.takeWhile_append_of_pos hu]
  cases s with
  | nil => simp
  | cons c s => simp [hs c (by simp)]

/-- A text is a run of characters that `p` accepts and what is left without it. -/
theorem exists_dropWhile (p : Char → Bool) (s : List Char) :
    ∃ u, (∀ c ∈ u, p c = true) ∧ s = u ++ s.dropWhile p := by
  refine ⟨s.takeWhile p, ?_, List.takeWhile_append_dropWhile.symm⟩
  exact List.all_eq_true.mp List.all_takeWhile

theorem head?_dropWhile_false (p : Char → Bool) (s : List Char) :
    ∀ c ∈ (s.dropWhile p).head?, p c = false := by
  intro c hc
  have := List.head?_dropWhile_not p s
  rw [Option.mem_def.mp hc] at this
  simpa using this

theorem trimEnd_append {s v : List Char} (hv : Blank v) : trimEnd (s ++ v) = trimEnd s := by
  induction s with
  | nil =>
    induction v with
    | nil => rfl
    | cons c v ih =>
      have hc := hv c (by simp)
      have hv' : Blank v := fun d hd => hv d (by simp [hd])
      have : trimEnd v = [] := ih hv'
      simp [trimEnd, this, hc]
  | cons c s ih => rw [List.cons_append, trimEnd, trimEnd, ih]

theorem getLast?_trimEnd (s : List Char) : ∀ c ∈ (trimEnd s).getLast?, isBlank c = false := by
  induction s with
  | nil => simp [trimEnd]
  | cons c s ih =>
    rw [trimEnd]
    split
    next =>
      split
      next => simp
      next hc => simpa using hc
    next d t h =>
      rw [List.getLast?_cons_cons, ← h]
      exact ih

/-! ## Keys -/

/-- What annotations spell is neither blank nor the end of a key. -/
theorem spelling_plain (k : Key) :
    ∀ c ∈ k.spelling.toList, isBlank c = false ∧ endsKey c = false ∧ c ≠ ']' := by
  have hall : k.spelling.toList.all (fun c => !isBlank c && !endsKey c && c != ']') = true := by
    cases k <;> rfl
  intro c hc
  simpa [and_assoc] using List.all_eq_true.mp hall c hc

theorem spelling_ne_nil (k : Key) : k.spelling.toList ≠ [] := by
  cases k <;> decide

theorem head?_spelling_append (k : Key) (s : List Char) :
    (k.spelling.toList ++ s).head? = k.spelling.toList.head? := by
  obtain ⟨c, r, hcr⟩ := List.exists_cons_of_ne_nil (spelling_ne_nil k)
  rw [hcr, List.cons_append, List.head?_cons, List.head?_cons]

theorem WritesKey.blank_append {u s : List Char} {k : Key} (hu : Blank u) (hs : WritesKey s k) :
    WritesKey (u ++ s) k := by
  obtain ⟨u', v, hu', hv, rfl⟩ := hs
  exact ⟨u ++ u', v, hu.append hu', hv, by simp⟩

theorem WritesKey.append_blank {s v : List Char} {k : Key} (hs : WritesKey s k) (hv : Blank v) :
    WritesKey (s ++ v) k := by
  obtain ⟨u, v', hu, hv', rfl⟩ := hs
  exact ⟨u, v' ++ v, hu, hv'.append hv, by simp⟩

/-! ## Blanks around entries -/

theorem Writes.blank_append {n : Nat} {a s : List Char} {t : Tag} (ha : AsciiBlank a)
    (h : Writes n s t) : Writes n (a ++ s) t := by
  cases h with
  | flag hk hs => exact .flag hk (hs.blank_append ha.blank)
  | param hk hs hu hp hv =>
    rw [← List.append_assoc]
    exact .param hk (hs.blank_append ha.blank) hu hp hv
  | scope hk hs ha' hts hb =>
    rw [← List.append_assoc]
    exact .scope hk (hs.blank_append ha.blank) ha' hts hb

theorem Writes.append_blank {n : Nat} {s b : List Char} {t : Tag} (h : Writes n s t)
    (hb : AsciiBlank b) : Writes n (s ++ b) t := by
  cases h with
  | flag hk hs => exact .flag hk (hs.append_blank hb.blank)
  | param hk hs hu hp hv =>
    have := Writes.param (n := n) hk hs hu hp (hv.append hb.blank)
    simpa using this
  | scope hk hs ha hts hb' =>
    have := Writes.scope hk hs ha hts (hb'.append hb)
    simpa using this

theorem WritesAll.blank_append {n : Nat} {a s : List Char} {ts : List Tag} (ha : AsciiBlank a)
    (h : WritesAll n s ts) : WritesAll n (a ++ s) ts := by
  cases h with
  | last ht => exact .last (ht.blank_append ha)
  | cons ht hts =>
    rw [← List.append_assoc]
    exact .cons (ht.blank_append ha) hts

/-- An entry begins with its key. -/
theorem Writes.exists_key {n : Nat} {s : List Char} {t : Tag} (h : Writes n s t) :
    ∃ w r, WritesKey w t.key ∧ s = w ++ r := by
  cases h with
  | flag _ hs => exact ⟨_, [], hs, by simp⟩
  | param _ hs => exact ⟨_, _, hs, rfl⟩
  | scope _ hs => exact ⟨_, _, hs, rfl⟩

end FieldRules.Tag
