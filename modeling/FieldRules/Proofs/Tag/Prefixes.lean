import FieldRules.Proofs.Tag.Faults

/-!
# Where an annotation first goes wrong

A text is `Viable` if it has no problem yet, that is, if some annotation begins with it, however
deep its scopes are nested. An error should point behind a viable text, and nearly always does
(`pointed_of_entries`): what is read up to there can be completed, since an entry may begin at every
`Opening` and whatever is left open can be closed again.

The exception is a `[` behind the parameter of a key that takes none, as in `nullable=a[`. It is
reported before the key is looked at, but no annotation begins with `nullable=a`
(`not_viable_of_misplaced`): commas and opening brackets stand nowhere but where an entry begins
(`startsEntry_of_writesAll`), so that the key cannot be read as anything else.
-/

namespace FieldRules.Tag

open Text

/-! ## Texts without a problem -/

/-- The text is an annotation, however deep its scopes are nested. -/
def IsAnnotation (s : List Char) : Prop := AsciiBlank s ∨ ∃ n ts, WritesAll n s ts

/-- Some annotation begins with the text. -/
def Viable (s : List Char) : Prop := ∃ r, IsAnnotation (s ++ r)

/-- Some entry begins with the text. -/
def Begins (s : List Char) : Prop := ∃ r n t, Writes n (s ++ r) t

theorem Viable.left {s t : List Char} (h : Viable (s ++ t)) : Viable s := by
  obtain ⟨r, hr⟩ := h
  exact ⟨t ++ r, by rwa [List.append_assoc] at hr⟩

mutual

/-- The bound on the depth of scopes may be raised. -/
theorem Writes.mono {m n : Nat} {s : List Char} {t : Tag} (h : Writes n s t) (hle : n ≤ m) :
    Writes m s t := by
  cases h with
  | flag hk hs => exact .flag hk hs
  | param hk hs hu hp hv => exact .param hk hs hu hp hv
  | scope hk hs ha hts hb =>
    obtain ⟨l, rfl⟩ : ∃ l, m = l + 1 := ⟨m - 1, by omega⟩
    exact .scope hk hs ha (hts.mono (by omega)) hb

theorem WritesAll.mono {m n : Nat} {s : List Char} {ts : List Tag} (h : WritesAll n s ts)
    (hle : n ≤ m) : WritesAll m s ts := by
  cases h with
  | last ht => exact .last (ht.mono hle)
  | cons ht hts => exact .cons (ht.mono hle) (hts.mono hle)

end

/-! ## Completing entries -/

variable {k : Key} {s u w x : List Char}

theorem writes_nullable (n : Nat) (hu : Blank u) :
    Writes n (u ++ Key.nullable.spelling.toList) (.simple .nullable none) :=
  .flag rfl ⟨u, [], hu, .nil, by rw [List.append_nil]⟩

/-- An entry may begin with blanks. -/
theorem begins_of_blank (hu : Blank u) : Begins u := ⟨_, 0, _, writes_nullable 0 hu⟩

/-- A key that takes a scope can get one. -/
theorem begins_of_scope (hk : k.shape = .scope) (hs : WritesKey s k) (ha : AsciiBlank x) :
    Begins (s ++ '=' :: x) := by
  have h := Writes.scope hk hs ha (.last (writes_nullable 0 .nil)) .nil
  exact ⟨'[' :: (Key.nullable.spelling.toList ++ [']']), 1, _, by simpa using h⟩

/-- A key that takes a parameter can get one that begins with any characters that do not end it. -/
theorem begins_of_param (hk : k.shape = .param) (hs : WritesKey s k)
    (hx : ∀ c ∈ x, endsParam c = false) : Begins (s ++ '=' :: x) := by
  obtain ⟨u, hu, hsplit⟩ := exists_dropWhile isBlank (x ++ ['a'])
  have hlast : (x ++ ['a']).dropWhile isBlank ≠ [] := by
    intro hnil
    rw [hnil, List.append_nil] at hsplit
    exact absurd (hu 'a' (by simp [← hsplit])) (by decide)
  have hplain : ∀ c ∈ x ++ ['a'], c ≠ ',' ∧ c ≠ '[' ∧ c ≠ ']' := by
    intro c hc
    rw [← not_endsParam_iff]
    rcases List.mem_append.mp hc with hc | hc
    · simp [hx c hc]
    · cases List.mem_singleton.mp hc
      rfl
  have hparam : IsParam ((x ++ ['a']).dropWhile isBlank) := by
    refine ⟨hlast, fun c hc => hplain c ((List.dropWhile_suffix _).subset hc),
      head?_dropWhile_false isBlank _, fun c hc => ?_⟩
    have hend : (x ++ ['a']).getLast? = some c := by
      rw [hsplit, List.getLast?_append, Option.mem_def.mp hc]
      rfl
    rw [List.getLast?_append] at hend
    cases hend
    rfl
  have h := Writes.param (n := 0) hk hs hu hparam .nil
  rw [List.append_nil, ← hsplit] at h
  exact ⟨['a'], 0, _, by simpa using h⟩

/-- Every key can be completed. -/
theorem begins_of_key (hs : WritesKey s k) : Begins s := by
  cases hk : k.shape with
  | flag => exact ⟨[], 0, _, by simpa using Writes.flag (n := 0) hk hs⟩
  | param =>
    obtain ⟨r, n, t, h⟩ := begins_of_param (x := []) hk hs nofun
    exact ⟨'=' :: r, n, t, by simpa using h⟩
  | scope =>
    obtain ⟨r, n, t, h⟩ := begins_of_scope (x := []) hk hs .nil
    exact ⟨'=' :: r, n, t, by simpa using h⟩

/-! ## Where entries begin -/

/-- The text ends where an entry begins: it is empty or ends with a comma or an opening bracket. -/
def Marked (x : List Char) : Prop := ∀ c ∈ x.getLast?, c = ',' ∨ c = '['

/-- An entry may begin after the text, and what is open there can be closed. -/
structure Opening (w : List Char) : Prop where
  /-- Only blanks stand between the text and the mark for an entry. -/
  marked : ∃ x a, w = x ++ a ∧ Marked x ∧ AsciiBlank a
  /-- With any list of entries after it, the text has no problem yet. -/
  completes : ∀ {n body us}, WritesAll n body us → Viable (w ++ body)

namespace Opening

theorem nil : Opening [] where
  marked := ⟨[], [], rfl, nofun, .nil⟩
  completes := fun h => ⟨[], .inr ⟨_, _, by simpa using h⟩⟩

theorem viable (h : Opening w) (hs : Begins s) : Viable (w ++ s) := by
  obtain ⟨r, n, t, ht⟩ := hs
  have hall := h.completes (.last ht)
  rw [← List.append_assoc] at hall
  exact hall.left

theorem blank {a : List Char} (h : Opening w) (ha : AsciiBlank a) : Opening (w ++ a) where
  marked := by
    obtain ⟨x, b, rfl, hx, hb⟩ := h.marked
    exact ⟨x, b ++ a, List.append_assoc x b a, hx, hb.append ha⟩
  completes := fun hbody => by
    rw [List.append_assoc]
    exact h.completes (hbody.blank_append ha)

/-- An entry may begin in a scope. -/
theorem scope {a : List Char} (h : Opening w) (hk : k.shape = .scope) (hs : WritesKey s k)
    (ha : AsciiBlank a) : Opening (w ++ (s ++ '=' :: (a ++ ['[']))) where
  marked := by
    refine ⟨_, [], (List.append_nil _).symm, fun c hc => ?_, .nil⟩
    have hlast : w ++ (s ++ '=' :: (a ++ ['['])) = (w ++ (s ++ '=' :: a)) ++ ['['] := by simp
    rw [hlast, List.getLast?_append] at hc
    cases hc
    exact .inr rfl
  completes := fun {n body us} hbody => by
    have hall := h.completes (.last (.scope hk hs ha hbody .nil))
    have hsplit : w ++ (s ++ '=' :: (a ++ '[' :: (body ++ [']']))) =
        (w ++ (s ++ '=' :: (a ++ ['['])) ++ body) ++ [']'] := by simp
    rw [hsplit] at hall
    exact hall.left

/-- An entry may begin after another one and a comma. -/
theorem comma {n : Nat} {e : List Char} {t : Tag} (h : Opening w) (he : Writes n e t) :
    Opening (w ++ (e ++ [','])) where
  marked := by
    refine ⟨_, [], (List.append_nil _).symm, fun c hc => ?_, .nil⟩
    rw [← List.append_assoc, List.getLast?_append] at hc
    cases hc
    exact .inl rfl
  completes := fun {m body us} hbody => by
    have hall := h.completes
      (.cons (he.mono (Nat.le_max_left n m)) (hbody.mono (Nat.le_max_right n m)))
    have hsplit : w ++ (e ++ ',' :: body) = w ++ (e ++ [',']) ++ body := by simp
    rwa [hsplit] at hall

end Opening

/-! ## Errors behind viable texts -/

/-- The text is that of a key with a parameter, although the key takes none. -/
def TakesNone (y : List Char) : Prop :=
  ∃ (k : Key) (v p : List Char), k.shape ≠ .param ∧ Blank v ∧
    y = k.spelling.toList ++ (v ++ '=' :: p) ∧ (∀ c ∈ p, endsParam c = false) ∧
    ∃ c ∈ p, isAsciiBlank c = false

/-- The text ends with a key and a parameter that the key does not take. -/
def Misplaced (s : List Char) : Prop :=
  ∃ x u y, s = x ++ (u ++ y) ∧ Marked x ∧ Blank u ∧ TakesNone y

/-- The fault of a text that stands behind `w`: what comes before it is viable, except for an
opening bracket behind a parameter that is misplaced. -/
def Pointed (w s : List Char) (f : Fault) : Prop :=
  ∃ x, s = x ++ f.rest ∧ (Viable (w ++ x) ∨
    f.problem = .unexpectedCharacter '[' ∧
      ∃ v u y, w ++ x = v ++ (u ++ y) ∧ Opening v ∧ Blank u ∧ TakesNone y)

namespace Pointed

variable {r : List Char} {f : Fault} {p : Problem}

theorem prepend (h : Pointed (w ++ x) r f) : Pointed w (x ++ r) f := by
  obtain ⟨y, rfl, hy⟩ := h
  exact ⟨x ++ y, (List.append_assoc _ _ _).symm, by rwa [← List.append_assoc]⟩

theorem of_begins (h : Opening w) (hx : Begins x) : Pointed w (x ++ r) ⟨p, r⟩ :=
  ⟨x, rfl, .inl (h.viable hx)⟩

/-- A fault of the key after blanks. -/
theorem of_key (h : Opening w) (hu : Blank u) : Pointed w (u ++ r) ⟨p, r⟩ :=
  of_begins h (begins_of_blank hu)

end Pointed

section Entries

variable {depth : Nat} {rest v r body : List Char} {f : Fault}

theorem endsParam_of_isBlank {c : Char} (h : isBlank c = true) : endsParam c = false := by
  rw [← Bool.not_eq_true', not_endsParam_iff]
  refine ⟨?_, ?_, ?_⟩ <;> rintro rfl <;> exact absurd h (by decide)

/-- The fault of a key with an `=` and no scope. -/
theorem pointed_of_readParam (hw : Opening w) (hu : Blank u) (hv : Blank v) (hnone : NoScope r)
    (h : readParam k (k.spelling.toList ++ (v ++ '=' :: r)) (r.dropWhile isAsciiBlank) =
      .error f) :
    Pointed w (u ++ (k.spelling.toList ++ (v ++ '=' :: r))) f := by
  obtain ⟨a, ha, hr⟩ := exists_dropWhile isAsciiBlank r
  obtain ⟨b, hb, hbody⟩ := exists_dropWhile isBlank (r.dropWhile isAsciiBlank)
  rw [← trimStart] at hbody
  have hkey : WritesKey (u ++ (k.spelling.toList ++ v)) k := ⟨u, v, hu, hv, rfl⟩
  have hblank : ∀ c ∈ a ++ b, endsParam c = false := fun c hc =>
    endsParam_of_isBlank (((AsciiBlank.blank ha).append hb) c hc)
  have hsplit := List.takeWhile_append_dropWhile (p := (!endsParam ·))
    (l := trimStart (r.dropWhile isAsciiBlank))
  have htake : ∀ c ∈ (trimStart (r.dropWhile isAsciiBlank)).takeWhile (!endsParam ·),
      endsParam c = false := by
    intro c hc
    have := List.all_eq_true.mp List.all_takeWhile c hc
    rwa [Bool.not_eq_true'] at this
  rw [readParam] at h
  generalize (trimStart (r.dropWhile isAsciiBlank)).takeWhile (!endsParam ·) = p at *
  generalize (trimStart (r.dropWhile isAsciiBlank)).dropWhile (!endsParam ·) = tail at *
  have hparam : ∀ c ∈ a ++ b ++ p, endsParam c = false := by
    intro c hc
    exact (List.mem_append.mp hc).elim (hblank c) (htake c)
  have hwhole : r = (a ++ b ++ p) ++ tail := by
    rw [List.append_assoc, List.append_assoc, hsplit, ← hbody]
    exact hr
  split at h
  next hopen =>
    cases h
    refine ⟨u ++ (k.spelling.toList ++ (v ++ '=' :: (a ++ b ++ p))), ?_, ?_⟩
    · rw [hwhole]
      simp only [List.append_assoc, List.cons_append]
    by_cases hk : k.shape = .param
    · have hbegins := begins_of_param hk hkey hparam
      simp only [List.append_assoc] at hbegins ⊢
      exact .inl (hw.viable hbegins)
    · refine .inr ⟨rfl, w, u, _, rfl, hw, hu, k, v, a ++ b ++ p, hk, hv, rfl, hparam, ?_⟩
      -- Otherwise the bracket would begin a scope.
      refine Classical.byContradiction fun hall => ?_
      have hascii : ∀ c ∈ a ++ b ++ p, isAsciiBlank c = true := by simpa using hall
      refine hnone ?_
      rw [hwhole, List.dropWhile_append_of_pos hascii]
      obtain ⟨rest, rfl⟩ := List.head?_eq_some_iff.mp hopen
      rfl
  next =>
    split at h
    next => cases h; exact .of_key hw hu
    next => cases h; exact .of_key hw hu
    next hk =>
      split at h
      next =>
        cases h
        have htext : u ++ (k.spelling.toList ++ (v ++ '=' :: r)) =
            (u ++ (k.spelling.toList ++ v) ++ '=' :: (a ++ b)) ++
              trimStart (r.dropWhile isAsciiBlank) := by
          conv => lhs; rw [hr, hbody]
          simp only [List.append_assoc, List.cons_append]
        rw [htext]
        exact .of_begins hw (begins_of_param hk hkey hblank)
      next => cases h

/-- The fault of a key with an `=` and the `[` of a scope. -/
theorem pointed_of_readScope {a : List Char} (hw : Opening w) (hu : Blank u) (hv : Blank v)
    (ha : AsciiBlank a)
    (h : readScope depth k (k.spelling.toList ++ (v ++ '=' :: (a ++ '[' :: body))) body =
      .error f) :
    Pointed w (u ++ (k.spelling.toList ++ (v ++ '=' :: (a ++ '[' :: body)))) f := by
  rw [readScope] at h
  split at h
  next => cases h; exact .of_key hw hu
  next hk =>
    split at h
    next =>
      cases h
      have htext : u ++ (k.spelling.toList ++ (v ++ '=' :: (a ++ '[' :: body))) =
          (u ++ (k.spelling.toList ++ v) ++ '=' :: a) ++ '[' :: body := by
        simp only [List.append_assoc, List.cons_append]
      rw [htext]
      exact .of_begins hw (begins_of_scope (Decidable.of_not_not hk) ⟨u, v, hu, hv, rfl⟩ ha)
    next => cases h

/-- The fault of a key that stands where it should. -/
theorem pointed_of_readAfterKey (hw : Opening w) (hu : Blank u) (hv : Blank v)
    (h : readAfterKey depth k (k.spelling.toList ++ (v ++ rest)) rest = .error f) :
    Pointed w (u ++ (k.spelling.toList ++ (v ++ rest))) f := by
  unfold readAfterKey at h
  split at h
  next r =>
    cases h
    rw [← List.append_assoc, ← List.append_assoc, List.append_assoc u]
    exact .of_begins hw (begins_of_key ⟨u, v, hu, hv, rfl⟩)
  next r =>
    split at h
    next body hbody =>
      obtain ⟨a, ha, hr⟩ := exists_dropWhile isAsciiBlank r
      rw [hbody] at hr
      subst hr
      exact pointed_of_readScope hw hu hv ha h
    next hnone =>
      refine pointed_of_readParam hw hu hv (fun hopen => ?_) h
      obtain ⟨body, hbody⟩ := List.head?_eq_some_iff.mp hopen
      exact hnone body hbody
  next =>
    rw [readBare] at h
    split at h
    next => cases h
    next => cases h; exact .of_key hw hu
    next => cases h; exact .of_key hw hu

theorem pointed_of_readEntry (hw : Opening w) (h : readEntry depth s = .error f) :
    Pointed w s f := by
  rcases readEntry_cases depth s with ⟨u, start, hu, rfl, -, hread⟩ |
    ⟨u, name, v, rest, hu, hv, -, rfl, ⟨-, -, -, hread⟩ | ⟨k, rfl, hread⟩⟩
  all_goals rw [hread] at h
  · cases h
    exact .of_key hw hu
  · cases h
    exact .of_key hw hu
  · exact pointed_of_readAfterKey hw hu hv h

/-- Where an entry is followed by what cannot follow it. -/
theorem pointed_of_readNext {n : Nat} {e : List Char} {t : Tag} (hw : Opening w)
    (he : Writes n e t) (h : readNext depth s = .error f) : Pointed w (e ++ s) f := by
  obtain ⟨a, ha, hs⟩ := exists_dropWhile isAsciiBlank s
  have hbegins : Begins (e ++ a) := ⟨[], n, t, by simpa using he.append_blank ha⟩
  have hrest : f.rest = s.dropWhile isAsciiBlank := by
    rw [readNext] at h
    split at h
    next hend =>
      split at h
      next => cases h
      next => cases h; exact hend.symm
    next hcomma =>
      split at h
      next => cases h; exact hcomma.symm
      next =>
        split at h
        next => cases h; exact hcomma.symm
        next => cases h
    next hother =>
      split at h
      next => cases h
      next => cases h; exact hother.symm
  refine ⟨e ++ a, ?_, .inl (hw.viable hbegins)⟩
  rw [hrest, List.append_assoc, ← hs]

/-- An entry that is read is one. -/
theorem exists_writes_of_firstEntry {t : Tag} (h : firstEntry depth s = .ok (t, r)) :
    ∃ n e, Writes n e t ∧ s = e ++ r := by
  rcases firstEntry_eq_ok h with hwhole | ⟨k, body, ts, hopens, hentries, rfl⟩
  · obtain ⟨e, he, rfl⟩ := exists_writes_of_whole 0 hwhole
    exact ⟨0, e, he, rfl⟩
  · obtain ⟨w, a, hw, ha, hk, hlt, rfl⟩ := exists_scope_of_opens hopens
    obtain ⟨inner, tail, hts, rfl, ⟨hzero, -⟩ | ⟨-, rfl⟩⟩ :=
      exists_writesAll_of_entries (show depth + 1 ≤ maxDepth from hlt) hentries
    · cases hzero
    · exact ⟨_, _, .scope hk hw ha hts .nil, by simp⟩

/-- **Reading goes wrong behind viable texts**, or at an opening bracket behind a parameter that
is misplaced. -/
theorem pointed_of_entries (hw : Opening w) (hd : depth ≤ maxDepth)
    (h : entries depth s = .error f) : Pointed w s f := by
  generalize hlen : s.length = len
  induction len using Nat.strongRecOn generalizing depth s w with
  | ind len ih =>
  subst hlen
  rcases entries_eq_error h with hfirst | ⟨t, r, hfirst, hrest⟩
  · rcases firstEntry_eq_error hfirst with hread | ⟨k, body, hopens, hbody⟩
    · exact pointed_of_readEntry hw hread
    · obtain ⟨e, a, he, ha, hk, hlt, hs⟩ := exists_scope_of_opens hopens
      have hinner := ih _ (length_lt_of_readEntry hopens) (hw.scope hk he ha) hlt hbody rfl
      have hsplit : s = (e ++ '=' :: (a ++ ['['])) ++ body := by rw [hs]; simp
      rw [hsplit]
      exact hinner.prepend
  · obtain ⟨n, e, he, hs⟩ := exists_writes_of_firstEntry hfirst
    rcases hrest with hnext | ⟨r', hnext, hlater⟩
    · rw [hs]
      exact pointed_of_readNext hw he hnext
    · have hlt := Nat.lt_of_le_of_lt (length_le_of_readNext hnext) (length_lt_of_firstEntry hfirst)
      obtain ⟨a, b, ha, hb, hr⟩ := exists_comma_of_readNext hnext
      have hinner := ih _ hlt ((hw.comma (he.append_blank ha)).blank hb) hd hlater rfl
      have hsplit : s = ((e ++ a ++ [',']) ++ b) ++ r' := by rw [hs, hr]; simp
      rw [hsplit, List.append_assoc]
      exact hinner.prepend.prepend

end Entries

/-! ## Misplaced parameters -/

/-- The characters that end a key do not occur in it. -/
theorem endsKey_of_writesKey (h : WritesKey s k) : ∀ c ∈ s, endsKey c = false := by
  obtain ⟨u, v, hu, hv, rfl⟩ := h
  intro c hc
  simp only [List.mem_append] at hc
  rcases hc with hc | hc | hc
  · exact endsKey_of_isBlank (hu c hc)
  · exact (spelling_plain k c hc).2.1
  · exact endsKey_of_isBlank (hv c hc)

/-- A text is that of one key. -/
theorem trim_of_writesKey (h : WritesKey s k) : trim s = k.spelling.toList := by
  obtain ⟨u, v, hu, hv, rfl⟩ := h
  have hstart : trimStart (u ++ (k.spelling.toList ++ v)) = k.spelling.toList ++ v := by
    refine dropWhile_append_of_head hu fun c hc => ?_
    rw [head?_spelling_append] at hc
    exact (spelling_plain k c (List.mem_of_mem_head? hc)).1
  rw [trim, hstart, trimEnd_append hv]
  exact trimEnd_eq_self fun c hc => (spelling_plain k c (List.mem_of_mem_getLast? hc)).1

/-- An occurrence of `c` is the first character after a text without it, or comes later. -/
theorem split_of_not_mem {pre rest y : List Char} {c d : Char}
    (h : pre ++ d :: rest = x ++ c :: y) (hc : c ∉ pre) :
    c = d ∧ y = rest ∨ ∃ z, rest = z ++ c :: y := by
  rcases List.append_eq_append_iff.mp h with ⟨_ | ⟨b, z⟩, hx, hrest⟩ | ⟨_ | ⟨b, z⟩, hpre, hy⟩
  · cases hrest
    exact .inl ⟨rfl, rfl⟩
  · cases hrest
    exact .inr ⟨z, rfl⟩
  · cases hy
    exact .inl ⟨rfl, rfl⟩
  · cases hy
    exact absurd (by simp [hpre]) hc

/-- The text begins with a whole entry. -/
def StartsEntry (y : List Char) : Prop :=
  ∃ n e t tail, y = e ++ tail ∧ Writes n e t ∧ EntryEnds tail

theorem StartsEntry.append {y z : List Char} (h : StartsEntry y) (hz : EntryEnds z) :
    StartsEntry (y ++ z) := by
  obtain ⟨n, e, t, tail, rfl, he, htail⟩ := h
  refine ⟨n, e, t, tail ++ z, List.append_assoc e tail z, he, ?_⟩
  cases tail with
  | nil => exact hz
  | cons c tail => exact htail

theorem entryEnds_comma (r : List Char) : EntryEnds (',' :: r) :=
  fun _ hc => .inl (Option.some.inj hc).symm

theorem entryEnds_bracket (r : List Char) : EntryEnds (']' :: r) :=
  fun _ hc => .inr (Option.some.inj hc).symm

theorem startsEntry_of_list {n : Nat} {ts : List Tag} (h : WritesAll n s ts) : StartsEntry s := by
  cases h with
  | last ht => exact ⟨n, s, _, [], (List.append_nil s).symm, ht, nofun⟩
  | cons ht hts => exact ⟨n, _, _, _, rfl, ht, entryEnds_comma _⟩

mutual

/-- Inside an entry, another one begins after every comma and every opening bracket. -/
theorem startsEntry_of_writes {n : Nat} {s x y : List Char} {c : Char} {t : Tag}
    (h : Writes n s t) (hc : c = ',' ∨ c = '[') (hs : s = x ++ c :: y) : StartsEntry y := by
  have hkey : endsKey c = true := by rcases hc with rfl | rfl <;> rfl
  have hblank : isBlank c = false := by rcases hc with rfl | rfl <;> rfl
  have hmem : c ∈ s := by rw [hs]; simp
  cases h with
  | flag _ hw =>
    rw [endsKey_of_writesKey hw c hmem] at hkey
    cases hkey
  | @param _ w _ u p v _ hw hu hp hv =>
    refine absurd hmem ?_
    simp only [List.mem_append, List.mem_cons, not_or]
    refine ⟨fun hmem => ?_, ?_, fun hmem => ?_, fun hmem => ?_, fun hmem => ?_⟩
    · rw [endsKey_of_writesKey hw c hmem] at hkey
      cases hkey
    · rcases hc with rfl | rfl <;> decide
    · rw [hu c hmem] at hblank
      cases hblank
    · have hplain := hp.plain c hmem
      exact hc.elim hplain.1 hplain.2.1
    · rw [hv c hmem] at hblank
      cases hblank
  | @scope n w _ a body ts b _ hw ha hts hb =>
    have hpre : c ∉ w ++ '=' :: a := by
      simp only [List.mem_append, List.mem_cons, not_or]
      refine ⟨fun hmem => ?_, ?_, fun hmem => ?_⟩
      · rw [endsKey_of_writesKey hw c hmem] at hkey
        cases hkey
      · rcases hc with rfl | rfl <;> decide
      · rw [AsciiBlank.blank ha c hmem] at hblank
        cases hblank
    have hsplit : (w ++ '=' :: a) ++ '[' :: (body ++ ']' :: b) = x ++ c :: y := by
      rw [← hs]
      simp
    rcases split_of_not_mem hsplit hpre with ⟨-, rfl⟩ | ⟨z, hz⟩
    · exact (startsEntry_of_list hts).append (entryEnds_bracket b)
    · rcases List.append_eq_append_iff.mp hz with ⟨q, -, hq⟩ | ⟨q, hbody, hq⟩
      · -- Behind the body there are a closing bracket and blanks only.
        have hlate : c ∈ ']' :: b := by rw [hq]; simp
        rcases List.mem_cons.mp hlate with rfl | hmem
        · rcases hc with hc | hc <;> exact absurd hc (by decide)
        · rw [AsciiBlank.blank hb c hmem] at hblank
          cases hblank
      · cases q with
        | nil =>
          cases hq
          rcases hc with hc | hc <;> exact absurd hc (by decide)
        | cons d q =>
          cases hq
          exact (startsEntry_of_writesAll hts hc hbody).append (entryEnds_bracket b)

theorem startsEntry_of_writesAll {n : Nat} {s x y : List Char} {c : Char} {ts : List Tag}
    (h : WritesAll n s ts) (hc : c = ',' ∨ c = '[') (hs : s = x ++ c :: y) : StartsEntry y := by
  cases h with
  | last ht => exact startsEntry_of_writes ht hc hs
  | @cons _ e _ r ts ht hts =>
    rcases List.append_eq_append_iff.mp hs with ⟨_ | ⟨d, q⟩, -, hq⟩ | ⟨_ | ⟨d, q⟩, he, hq⟩
    · cases hq
      exact startsEntry_of_list hts
    · cases hq
      exact startsEntry_of_writesAll hts hc rfl
    · cases hq
      exact startsEntry_of_list hts
    · cases hq
      exact (startsEntry_of_writes ht hc he).append (entryEnds_comma r)

end

/-- In an annotation, an entry begins at every mark for one. -/
theorem startsEntry_of_marked {n : Nat} {y : List Char} {ts : List Tag}
    (h : WritesAll n (x ++ y) ts) (hx : Marked x) : StartsEntry y := by
  rcases List.eq_nil_or_concat x with rfl | ⟨z, c, rfl⟩
  · exact startsEntry_of_list h
  · have hsplit : z.concat c ++ y = z ++ c :: y := by simp
    exact startsEntry_of_writesAll h (hx c (by simp)) hsplit

/-- Where a key ends with an `=`, the text tells the key and what comes after the sign. -/
theorem key_of_equals {w w' r r' : List Char} {l : Key} (hw : WritesKey w k) (hw' : WritesKey w' l)
    (h : w ++ '=' :: r = w' ++ '=' :: r') : k = l ∧ r = r' := by
  have hkey : ∀ {v : List Char} {m : Key}, WritesKey v m → ∀ c ∈ v, (!endsKey c) = true :=
    fun hv c hc => by simp [endsKey_of_writesKey hv c hc]
  have hends : ∀ q : List Char, ∀ c ∈ ('=' :: q).head?, (!endsKey c) = false := fun q c hc => by
    cases hc
    rfl
  have hword := congrArg (List.takeWhile (!endsKey ·)) h
  have hrest := congrArg (List.dropWhile (!endsKey ·)) h
  rw [takeWhile_append_of_head (hkey hw) (hends r),
    takeWhile_append_of_head (hkey hw') (hends r')] at hword
  rw [dropWhile_append_of_head (hkey hw) (hends r),
    dropWhile_append_of_head (hkey hw') (hends r')] at hrest
  refine ⟨Key.spelling_injective (String.toList_injective ?_), (List.cons.inj hrest).2⟩
  rw [← trim_of_writesKey hw, ← trim_of_writesKey hw', hword]

/-- No entry begins with a parameter of a key that takes none. -/
theorem not_startsEntry {y : List Char} (hu : Blank u) (hy : TakesNone y) (r : List Char) :
    ¬ StartsEntry (u ++ y ++ r) := by
  obtain ⟨k, v, p, hk, hv, rfl, hp, c, hc, hascii⟩ := hy
  rintro ⟨n, e, t, tail, hsplit, he, htail⟩
  have hkey : WritesKey (u ++ (k.spelling.toList ++ v)) k := ⟨u, v, hu, hv, rfl⟩
  have htext : u ++ (k.spelling.toList ++ v) ++ '=' :: (p ++ r) = e ++ tail := by
    rw [← hsplit]
    simp
  generalize u ++ (k.spelling.toList ++ v) = word at hkey htext
  cases he with
  | flag _ hw =>
    -- A bare key ends where its entry ends, and not with an `=`.
    have hends : ∀ c ∈ tail.head?, (!endsKey c) = false := by
      intro c hc
      rcases htail c hc with rfl | rfl <;> rfl
    have hdrop := congrArg (List.dropWhile (!endsKey ·)) htext
    rw [dropWhile_append_of_head (fun c hc => by simp [endsKey_of_writesKey hkey c hc])
        (fun c hc => by cases hc; rfl),
      dropWhile_append_of_head (fun c hc => by simp [endsKey_of_writesKey hw c hc]) hends] at hdrop
    have hmark := htail '=' (by rw [← hdrop]; rfl)
    exact absurd hmark (by decide)
  | param hk' hw =>
    rw [List.append_assoc, List.cons_append] at htext
    exact hk ((key_of_equals hkey hw htext).1 ▸ hk')
  | @scope n w l a body ts b hk' hw ha hts hb =>
    rw [List.append_assoc, List.cons_append] at htext
    have hscope : p ++ r = a ++ '[' :: (body ++ ']' :: (b ++ tail)) := by
      rw [(key_of_equals hkey hw htext).2]
      simp
    have hopen : '[' ∉ p := fun hmem => absurd (hp '[' hmem) (by decide)
    rcases List.append_eq_append_iff.mp hscope with ⟨q, hq, -⟩ | ⟨_ | ⟨d, q⟩, hq, hrest⟩
    · rw [ha c (by simp [hq, hc])] at hascii
      cases hascii
    · rw [List.append_nil] at hq
      rw [ha c (hq ▸ hc)] at hascii
      cases hascii
    · rw [← (List.cons.inj hrest).1] at hq
      exact hopen (by simp [hq])

/-- **No annotation begins with a misplaced parameter.** -/
theorem not_viable_of_misplaced (h : Misplaced s) : ¬ Viable s := by
  obtain ⟨x, u, y, rfl, hx, hu, hy⟩ := h
  rintro ⟨r, hblank | ⟨n, ts, hts⟩⟩
  · obtain ⟨k, v, p, -, -, rfl, -⟩ := hy
    exact absurd (hblank '=' (by simp)) (by decide)
  · rw [List.append_assoc] at hts
    exact not_startsEntry hu hy r (startsEntry_of_marked hts hx)

/-! ## Errors of annotations -/

/-- **An error stands at the first problem**, with one exception. The text before the position of an
error is the beginning of some annotation, unless it ends with a parameter of a key that takes none.
Only an opening bracket behind such a parameter is reported there, and then the first problem is the
key: the text before it is the beginning of some annotation, and with the parameter it is not. -/
theorem parse_points {input : String} {e : ParseError} (h : parse input = .error e) :
    ∃ before after, input.toList = before ++ after ∧ e.position = byteLength before ∧
      (Viable before ↔ ¬ Misplaced before) ∧
      (Misplaced before → e.problem = .unexpectedCharacter '[' ∧ after.head? = some '[' ∧
        ∃ x y, before = x ++ y ∧ Viable x ∧ TakesNone y) := by
  rw [parse_eq] at h
  split at h
  next => cases h
  next =>
    split at h
    next => cases h
    next f hf =>
      cases h
      obtain ⟨x, hsplit, hx⟩ := pointed_of_entries .nil (Nat.zero_le _) hf
      obtain ⟨w, m, hsplit', -, hholds⟩ := faulty_of_entries (Nat.zero_le _) hf
      refine ⟨x, f.rest, hsplit, ?_, ?_⟩
      · dsimp only
        rw [hsplit, byteLength_append]
        omega
      rcases hx with hviable | ⟨hproblem, v, u, y, hword, hv, hu, hy⟩
      · have hnot : ¬ Misplaced x := fun hmis => not_viable_of_misplaced hmis hviable
        exact ⟨iff_of_true hviable hnot, fun hmis => absurd hmis hnot⟩
      · obtain ⟨v', a, rfl, hmarked, ha⟩ := hv.marked
        rw [List.nil_append] at hword
        have hmis : Misplaced x :=
          ⟨v', a ++ u, y, by rw [hword]; simp, hmarked, (AsciiBlank.blank ha).append hu, hy⟩
        refine ⟨iff_of_false (not_viable_of_misplaced hmis) (not_not_intro hmis), fun _ => ?_⟩
        rw [hproblem] at hholds
        refine ⟨hproblem, hholds, v' ++ a ++ u, y, ?_, hv.viable (begins_of_blank hu), hy⟩
        rw [hword]
        simp

/-- A flag with a parameter, in a scope and behind a character of two bytes. -/
theorem parse_points_flag :
    let input := "item=[func=é,nullable=1["
    let e : ParseError := ⟨input, 24, .unexpectedCharacter '['⟩
    parse input = .error e ∧
      ∃ before after, input.toList = before ++ after ∧ 24 = byteLength before ∧
        (Viable before ↔ ¬ Misplaced before) ∧
        (Misplaced before → e.problem = .unexpectedCharacter '[' ∧ after.head? = some '[' ∧
          ∃ x y, before = x ++ y ∧ Viable x ∧ TakesNone y) := by
  intro input e
  have hlast : entries 1 "nullable=1[".toList =
      .error ⟨.unexpectedCharacter '[', "[".toList⟩ := by
    rw [entries_eq]
    rfl
  have hscope : entries 1 "func=é,nullable=1[".toList =
      .error ⟨.unexpectedCharacter '[', "[".toList⟩ := by
    have hfirst : firstEntry 1 "func=é,nullable=1[".toList =
        .ok (.simple .func (some "é"), ",nullable=1[".toList) := rfl
    have hnext : readNext 1 ",nullable=1[".toList = .ok (.entry "nullable=1[".toList) := rfl
    rw [entries_eq, hfirst]
    dsimp only
    rw [entriesAfter, hnext]
    dsimp only
    rw [hlast]
    rfl
  have hread : entries 0 "item=[func=é,nullable=1[".toList =
      .error ⟨.unexpectedCharacter '[', "[".toList⟩ := by
    have hopens : readEntry 0 "item=[func=é,nullable=1[".toList =
        .ok (.opens .item "func=é,nullable=1[".toList) := rfl
    rw [entries_eq, firstEntry, hopens]
    dsimp only
    rw [hscope]
    rfl
  have herror : parse input = .error e := by
    have hposition : byteLength input.toList - byteLength "[".toList = 24 := by decide +kernel
    rw [parse_eq, hread, if_neg (by decide +kernel)]
    dsimp only
    rw [hposition]
  exact ⟨herror, parse_points herror⟩

/-- An opening bracket is reported although no annotation begins with the text before it. -/
theorem parse_misses :
    parse "nullable=a[" = .error ⟨"nullable=a[", 10, .unexpectedCharacter '['⟩ ∧
      ∃ before after, "nullable=a[".toList = before ++ after ∧ byteLength before = 10 ∧
        ¬ Viable before := by
  have hread : entries 0 "nullable=a[".toList =
      .error ⟨.unexpectedCharacter '[', "[".toList⟩ := by
    rw [entries_eq]
    rfl
  refine ⟨?_, "nullable=a".toList, ['['], rfl, rfl, not_viable_of_misplaced ?_⟩
  · have hposition : byteLength "nullable=a[".toList - byteLength "[".toList = 10 := by
      decide +kernel
    rw [parse_eq, hread, if_neg (by decide +kernel)]
    dsimp only
    rw [hposition]
  · exact ⟨[], [], "nullable=a".toList, rfl, nofun, .nil, .nullable, [], ['a'], by decide, .nil,
      rfl, List.forall_mem_singleton.mpr (by decide), 'a', List.mem_singleton_self _, by decide⟩

end FieldRules.Tag
