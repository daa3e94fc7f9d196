import FieldRules.Proofs.Tag.Grammar

/-!
# Reading is the inverse of writing

`Tag.parse` accepts exactly the texts of the grammar and gives the tags that they denote
(`parse_eq_ok_iff`).

`entries` is the reader of lists without the bound on what it leaves, and `entries_eq` unfolds it by
one entry. Soundness follows the text, which every entry shortens (`exists_writesAll_of_entries`);
completeness follows the derivation (`entries_of_writesAll`). Both speak about a list and the text
after it, which is empty at the top and begins with a `]` inside a scope (`Ends`).
-/

namespace FieldRules.Tag

open Text

/-! ## The text after a key -/

/-- What `readEntry` makes of the text after the key `k`. -/
def readAfterKey (depth : Nat) (k : Key) (start rest : List Char) : Except Fault Entry :=
  match rest with
  | '[' :: _ => .error ⟨.unexpectedCharacter '[', rest⟩
  | '=' :: r =>
    match r.dropWhile isAsciiBlank with
    | '[' :: body => readScope depth k start body
    | body => readParam k start body
  | _ => readBare k start rest

theorem endsKey_of_isBlank {c : Char} (h : isBlank c = true) : endsKey c = false := by
  cases hc : endsKey c with
  | false => rfl
  | true =>
    simp only [endsKey, Bool.or_eq_true, decide_eq_true_eq] at hc
    rcases hc with ((rfl | rfl) | rfl) | rfl <;> exact absurd h (by decide)

/-- A key is read up to the character that ends it, whatever blanks are around it. -/
theorem readEntry_append {s : List Char} {k : Key} (depth : Nat) (hs : WritesKey s k)
    (tail : List Char) (ht : ∀ c ∈ tail.head?, endsKey c = true) :
    ∃ start, readEntry depth (s ++ tail) = readAfterKey depth k start tail := by
  obtain ⟨u, v, hu, hv, rfl⟩ := hs
  have hkv : ∀ c ∈ k.spelling.toList ++ v, (!endsKey c) = true := by
    intro c hc
    rcases List.mem_append.mp hc with hc | hc
    · simp [(spelling_plain k c hc).2.1]
    · simp [endsKey_of_isBlank (hv c hc)]
  have htail : ∀ c ∈ tail.head?, (!endsKey c) = false := by
    intro c hc
    simp [ht c hc]
  have hstart : trimStart (u ++ (k.spelling.toList ++ v) ++ tail) =
      (k.spelling.toList ++ v) ++ tail := by
    rw [trimStart, List.append_assoc]
    refine dropWhile_append_of_head hu fun c hc => ?_
    rw [List.append_assoc, head?_spelling_append] at hc
    exact (spelling_plain k c (List.mem_of_mem_head? hc)).1
  have hname : trimEnd (k.spelling.toList ++ v) = k.spelling.toList := by
    rw [trimEnd_append hv]
    exact trimEnd_eq_self fun c hc => (spelling_plain k c (List.mem_of_mem_getLast? hc)).1
  refine ⟨(k.spelling.toList ++ v) ++ tail, ?_⟩
  simp only [readEntry, hstart, takeWhile_append_of_head hkv htail,
    dropWhile_append_of_head hkv htail, hname, String.ofList_toList, Key.ofSpelling?_spelling]
  rw [if_neg (by simpa using spelling_ne_nil k)]
  rfl

/-- What is read as an entry begins with a key. -/
theorem exists_key_of_readEntry {depth : Nat} {s : List Char} {e : Entry}
    (h : readEntry depth s = .ok e) :
    ∃ w k start rest, WritesKey w k ∧ s = w ++ rest ∧ readAfterKey depth k start rest = .ok e := by
  obtain ⟨u, hu, hs⟩ := exists_dropWhile isBlank s
  have hsplit := List.takeWhile_append_dropWhile (p := (!endsKey ·)) (l := trimStart s)
  obtain ⟨b, hb, hname⟩ := trimEnd_append_blank ((trimStart s).takeWhile (!endsKey ·))
  simp only [readEntry] at h
  split at h
  next => cases h
  next =>
    split at h
    next => cases h
    next k hk =>
      have hspell : k.spelling.toList = trimEnd ((trimStart s).takeWhile (!endsKey ·)) := by
        rw [Key.spelling_of_ofSpelling? hk, String.toList_ofList]
      refine ⟨u ++ (k.spelling.toList ++ b), k, trimStart s,
        (trimStart s).dropWhile (!endsKey ·), ⟨u, b, hu, hb, rfl⟩, ?_, h⟩
      rw [hspell, hname, List.append_assoc, hsplit]
      exact hs

/-! ## Entries -/

theorem not_endsParam_iff {c : Char} :
    (!endsParam c) = true ↔ c ≠ ',' ∧ c ≠ '[' ∧ c ≠ ']' := by
  simp [endsParam, and_assoc]

/-- A text that is read as a parameter is one, with blanks around it. -/
theorem exists_param_of_readParam {k : Key} {start s : List Char} {e : Entry}
    (h : readParam k start s = .ok e) :
    ∃ u p v r, k.shape = .param ∧ Blank u ∧ IsParam p ∧ Blank v ∧ s = u ++ (p ++ v) ++ r ∧
      e = .whole (.simple k (some (String.ofList p))) r := by
  obtain ⟨u, hu, hs⟩ := exists_dropWhile isBlank s
  have hsplit := List.takeWhile_append_dropWhile (p := (!endsParam ·)) (l := trimStart s)
  obtain ⟨v, hv, hp⟩ := trimEnd_append_blank ((trimStart s).takeWhile (!endsParam ·))
  have hplain : ∀ c ∈ (trimStart s).takeWhile (!endsParam ·), (!endsParam c) = true :=
    List.all_eq_true.mp List.all_takeWhile
  simp only [readParam] at h
  split at h
  next => cases h
  next =>
    split at h
    next => cases h
    next => cases h
    next hk =>
      split at h
      next => cases h
      next hne =>
        cases h
        have hlast := getLast?_trimEnd ((trimStart s).takeWhile (!endsParam ·))
        generalize trimEnd ((trimStart s).takeWhile (!endsParam ·)) = p at hp hne hlast ⊢
        have hne : p ≠ [] := by simpa using hne
        refine ⟨u, p, v, _, hk, hu, ⟨hne, ?_, ?_, hlast⟩, hv, ?_, rfl⟩
        · intro c hc
          exact not_endsParam_iff.mp (hplain c (hp ▸ List.mem_append_left v hc))
        · intro c hc
          refine head?_dropWhile_false isBlank s c ?_
          rw [← trimStart, ← hsplit, ← hp]
          obtain ⟨d, q, hq⟩ := List.exists_cons_of_ne_nil hne
          rw [hq] at hc ⊢
          simpa using hc
        · rw [hp, List.append_assoc, hsplit]
          exact hs

/-- A parameter with blanks around it is read up to the character that ends it. -/
theorem readParam_append {k : Key} {u p v tail : List Char} (start : List Char)
    (hk : k.shape = .param) (hu : Blank u) (hp : IsParam p) (hv : Blank v)
    (ht : ∀ c ∈ tail.head?, c = ',' ∨ c = ']') :
    readParam k start (u ++ (p ++ v) ++ tail) =
      .ok (.whole (.simple k (some (String.ofList p))) tail) := by
  have hpv : ∀ c ∈ p ++ v, (!endsParam c) = true := by
    intro c hc
    rw [not_endsParam_iff]
    rcases List.mem_append.mp hc with hc | hc
    · exact hp.plain c hc
    · refine ⟨?_, ?_, ?_⟩ <;> rintro rfl <;> exact absurd (hv _ hc) (by decide)
  have htail : ∀ c ∈ tail.head?, (!endsParam c) = false := by
    intro c hc
    rcases ht c hc with rfl | rfl <;> rfl
  have hbody : trimStart (u ++ (p ++ v) ++ tail) = (p ++ v) ++ tail := by
    rw [trimStart, List.append_assoc]
    refine dropWhile_append_of_head hu fun c hc => hp.head c ?_
    obtain ⟨d, q, rfl⟩ := List.exists_cons_of_ne_nil hp.ne_nil
    simpa using hc
  have hend : tail.head? ≠ some '[' := by
    intro h
    rcases ht '[' h with h | h <;> exact absurd h (by decide)
  simp only [readParam, hbody, takeWhile_append_of_head hpv htail,
    dropWhile_append_of_head hpv htail, trimEnd_append hv, trimEnd_eq_self hp.last, hk]
  rw [if_neg hend, if_neg (by simpa using hp.ne_nil)]

/-! ## Lists of entries -/

/-- The result of `readEntries`, without the bound on what is left. -/
def entries (depth : Nat) (s : List Char) : Except Fault (List Tag × List Char) :=
  (readEntries depth s).map fun p => (p.1, p.2.1)

/-- The first entry of a list inside `depth` scopes, and the text after it. -/
def firstEntry (depth : Nat) (s : List Char) : Except Fault (Tag × List Char) :=
  match readEntry depth s with
  | .error f => .error f
  | .ok (.whole t r) => .ok (t, r)
  | .ok (.opens k body) => (entries (depth + 1) body).map fun p => (.scope k p.1, p.2)

/-- The entries after `t`, which leaves `r`. -/
def entriesAfter (depth : Nat) (t : Tag) (r : List Char) : Except Fault (List Tag × List Char) :=
  match readNext depth r with
  | .error f => .error f
  | .ok (.done r') => .ok ([t], r')
  | .ok (.entry r') => (entries depth r').map fun p => (t :: p.1, p.2)

theorem entries_eq (depth : Nat) (s : List Char) :
    entries depth s =
      match firstEntry depth s with
      | .error f => .error f
      | .ok (t, r) => entriesAfter depth t r := by
  rw [entries, readEntries]
  dsimp only
  split
  next f hf =>
    have : firstEntry depth s = .error f := by
      split at hf
      next he => cases hf; simp only [firstEntry, he]
      next => cases hf
      next he =>
        split at hf
        next hus => cases hf; simp only [firstEntry, he, entries, hus, Except.map]
        next => cases hf
    rw [this, Except.map]
  next t r hr hf =>
    have : firstEntry depth s = .ok (t, r) := by
      split at hf
      next => cases hf
      next he => cases hf; simp only [firstEntry, he]
      next he =>
        split at hf
        next => cases hf
        next hus => cases hf; simp only [firstEntry, he, entries, hus, Except.map]
    rw [this]
    dsimp only
    split
    next hn => simp only [entriesAfter, hn, Except.map]
    next hn => simp only [entriesAfter, hn, Except.map]
    next hn =>
      split
      next hus => simp only [entriesAfter, hn, entries, hus, Except.map]
      next hus => simp only [entriesAfter, hn, entries, hus, Except.map]

theorem firstEntry_eq_ok {depth : Nat} {s r : List Char} {t : Tag}
    (h : firstEntry depth s = .ok (t, r)) :
    readEntry depth s = .ok (.whole t r) ∨
      ∃ k body ts, readEntry depth s = .ok (.opens k body) ∧
        entries (depth + 1) body = .ok (ts, r) ∧ t = .scope k ts := by
  rw [firstEntry] at h
  split at h
  next => cases h
  next he => cases h; exact .inl he
  next k body he =>
    cases hb : entries (depth + 1) body with
    | error f => rw [hb] at h; cases h
    | ok p => rw [hb] at h; cases h; exact .inr ⟨k, body, p.1, he, hb, rfl⟩

/-- A list is read by its first entry and what follows it. -/
theorem entries_eq_ok {depth : Nat} {s r : List Char} {ts : List Tag}
    (h : entries depth s = .ok (ts, r)) :
    ∃ t r₁, firstEntry depth s = .ok (t, r₁) ∧
      (readNext depth r₁ = .ok (.done r) ∧ ts = [t] ∨
        ∃ r₂ us, readNext depth r₁ = .ok (.entry r₂) ∧ entries depth r₂ = .ok (us, r) ∧
          ts = t :: us) := by
  rw [entries_eq] at h
  split at h
  next => cases h
  next t r₁ hf =>
    refine ⟨t, r₁, hf, ?_⟩
    rw [entriesAfter] at h
    split at h
    next => cases h
    next hn => cases h; exact .inl ⟨hn, rfl⟩
    next r₂ hn =>
      cases hr : entries depth r₂ with
      | error f => rw [hr] at h; cases h
      | ok p => rw [hr] at h; cases h; exact .inr ⟨r₂, p.1, hn, hr, rfl⟩

/-- `tail` is what may follow a list inside `depth` scopes: nothing at the top, and the `]` of its
scope otherwise; `r` is left after it. -/
def Ends (depth : Nat) (tail r : List Char) : Prop :=
  depth = 0 ∧ tail = [] ∧ r = [] ∨ depth ≠ 0 ∧ tail = ']' :: r

theorem exists_ends_of_readNext {depth : Nat} {s r : List Char}
    (h : readNext depth s = .ok (.done r)) :
    ∃ a tail, AsciiBlank a ∧ s = a ++ tail ∧ Ends depth tail r := by
  obtain ⟨a, ha, hs⟩ := exists_dropWhile isAsciiBlank s
  refine ⟨a, s.dropWhile isAsciiBlank, ha, hs, ?_⟩
  rw [readNext] at h
  split at h
  next hd =>
    split at h
    next h₀ => cases h; exact .inl ⟨h₀, hd, rfl⟩
    next => cases h
  next =>
    split at h
    next => cases h
    next => split at h <;> cases h
  next hd =>
    split at h
    next hc => cases h; exact .inr ⟨hc.2, by rw [hd, hc.1]⟩
    next => cases h

theorem readNext_of_ends {depth : Nat} {a tail r : List Char} (ha : AsciiBlank a)
    (h : Ends depth tail r) : readNext depth (a ++ tail) = .ok (.done r) := by
  rcases h with ⟨rfl, rfl, rfl⟩ | ⟨hd, rfl⟩
  · rw [readNext, dropWhile_append_of_head ha (by simp)]
    rfl
  · rw [readNext, dropWhile_append_of_head ha (by simp; decide)]
    simp [hd]

theorem exists_comma_of_readNext {depth : Nat} {s r : List Char}
    (h : readNext depth s = .ok (.entry r)) :
    ∃ a b, AsciiBlank a ∧ AsciiBlank b ∧ s = a ++ ',' :: (b ++ r) := by
  obtain ⟨a, ha, hs⟩ := exists_dropWhile isAsciiBlank s
  rw [readNext] at h
  split at h
  next => split at h <;> cases h
  next q hd =>
    obtain ⟨b, hb, hq⟩ := exists_dropWhile isAsciiBlank q
    split at h
    next => cases h
    next hc =>
      split at h
      next => cases h
      next =>
        cases h
        exact ⟨a, b, ha, hb, by rw [← hc, ← hq, ← hd]; exact hs⟩
  next => split at h <;> cases h

theorem readNext_of_comma {a q x : List Char} {c : Char} (depth : Nat) (ha : AsciiBlank a)
    (hq : q.dropWhile isAsciiBlank = c :: x) (hc : c ≠ ']') :
    readNext depth (a ++ ',' :: q) = .ok (.entry (c :: x)) := by
  rw [readNext, dropWhile_append_of_head ha (by simp; decide)]
  simp [hq, hc]

/-! ## Soundness -/

/-- An entry without a scope is read as what it denotes. -/
theorem exists_writes_of_whole {depth : Nat} {s r : List Char} {t : Tag} (n : Nat)
    (h : readEntry depth s = .ok (.whole t r)) : ∃ e, Writes n e t ∧ s = e ++ r := by
  obtain ⟨w, k, start, rest, hw, rfl, hafter⟩ := exists_key_of_readEntry h
  clear h
  unfold readAfterKey at hafter
  split at hafter
  next => cases hafter
  next q =>
    split at hafter
    next =>
      rw [readScope] at hafter
      split at hafter
      next => cases hafter
      next => split at hafter <;> cases hafter
    next =>
      obtain ⟨a, ha, hq⟩ := exists_dropWhile isAsciiBlank q
      obtain ⟨u, p, v, r', hk, hu, hp, hv, hbody, he⟩ := exists_param_of_readParam hafter
      cases he
      refine ⟨_, .param hk hw ((AsciiBlank.blank ha).append hu) hp hv, ?_⟩
      rw [hq, hbody]
      simp
  next =>
    rw [readBare] at hafter
    split at hafter
    next hk => cases hafter; exact ⟨w, .flag hk hw, rfl⟩
    next => cases hafter
    next => cases hafter

/-- The head of a scope is read where a scope may begin. -/
theorem exists_scope_of_opens {depth : Nat} {s r : List Char} {k : Key}
    (h : readEntry depth s = .ok (.opens k r)) :
    ∃ w a, WritesKey w k ∧ AsciiBlank a ∧ k.shape = .scope ∧ depth < maxDepth ∧
      s = w ++ '=' :: (a ++ '[' :: r) := by
  obtain ⟨w, k', start, rest, hw, rfl, hafter⟩ := exists_key_of_readEntry h
  clear h
  unfold readAfterKey at hafter
  split at hafter
  next => cases hafter
  next q =>
    obtain ⟨a, ha, hq⟩ := exists_dropWhile isAsciiBlank q
    split at hafter
    next body hbody =>
      rw [readScope] at hafter
      split at hafter
      next => cases hafter
      next hk =>
        split at hafter
        next => cases hafter
        next hd =>
          cases hafter
          refine ⟨w, a, hw, ha, Decidable.of_not_not hk, Nat.lt_of_not_le hd, ?_⟩
          rw [← hbody, ← hq]
    next =>
      obtain ⟨_, _, _, _, -, -, -, -, -, he⟩ := exists_param_of_readParam hafter
      cases he
  next =>
    rw [readBare] at hafter
    split at hafter <;> cases hafter

/-- **A text that is read as a list of entries is one.** -/
theorem exists_writesAll_of_entries {depth : Nat} {s r : List Char} {ts : List Tag}
    (hd : depth ≤ maxDepth) (h : entries depth s = .ok (ts, r)) :
    ∃ body tail, WritesAll (maxDepth - depth) body ts ∧ s = body ++ tail ∧ Ends depth tail r := by
  generalize hlen : s.length = len
  induction len using Nat.strongRecOn generalizing depth s r ts with
  | ind len ih =>
  subst hlen
  obtain ⟨t, r₁, hf, hn⟩ := entries_eq_ok h
  have hfirst : ∃ e, Writes (maxDepth - depth) e t ∧ s = e ++ r₁ := by
    rcases firstEntry_eq_ok hf with he | ⟨k, body, us, he, hb, rfl⟩
    · exact exists_writes_of_whole _ he
    · obtain ⟨w, a, hw, ha, hk, hlt, rfl⟩ := exists_scope_of_opens he
      obtain ⟨inner, tail, hus, rfl, hends⟩ :=
        ih body.length (length_lt_of_readEntry he) (by omega) hb rfl
      obtain ⟨h₀, -⟩ | ⟨-, rfl⟩ := hends
      · omega
      · rw [show maxDepth - depth = maxDepth - (depth + 1) + 1 by omega]
        exact ⟨_, .scope hk hw ha hus .nil, by simp⟩
  obtain ⟨e, he, rfl⟩ := hfirst
  rcases hn with ⟨hn, rfl⟩ | ⟨r₂, us, hn, hr, rfl⟩
  · obtain ⟨a, tail, ha, rfl, hends⟩ := exists_ends_of_readNext hn
    exact ⟨e ++ a, tail, .last (he.append_blank ha), by simp, hends⟩
  · obtain ⟨a, b, ha, hb, rfl⟩ := exists_comma_of_readNext hn
    obtain ⟨body, tail, hus, rfl, hends⟩ :=
      ih r₂.length (by simp; omega) hd hr rfl
    refine ⟨e ++ a ++ ',' :: (b ++ body), tail, ?_, by simp, hends⟩
    exact .cons (he.append_blank ha) (hus.blank_append hb)

/-! ## Completeness -/

/-- Dropping the blanks that separate entries from a run of blanks leaves the rest whole. -/
theorem dropWhile_blank_append {u s : List Char} (hs : ∀ c ∈ s.head?, isBlank c = false) :
    (u ++ s).dropWhile isAsciiBlank = u.dropWhile isAsciiBlank ++ s := by
  rw [List.dropWhile_append]
  split
  next hu =>
    rw [List.isEmpty_iff.mp hu, List.nil_append]
    refine dropWhile_append_of_head (u := []) (by simp) fun c hc => ?_
    cases ha : isAsciiBlank c with
    | false => rfl
    | true => exact absurd (hs c hc) (by simp [isBlank_of_isAsciiBlank ha])
  next => rfl

theorem Blank.dropWhile {u : List Char} (hu : Blank u) : Blank (u.dropWhile isAsciiBlank) :=
  fun c hc => hu c ((List.dropWhile_suffix _).subset hc)

/-- A list of entries goes on with something other than a `]`. -/
theorem WritesAll.exists_cons {n : Nat} {s : List Char} {ts : List Tag} (h : WritesAll n s ts)
    (tail : List Char) :
    ∃ c x, (s ++ tail).dropWhile isAsciiBlank = c :: x ∧ c ≠ ']' := by
  obtain ⟨w, k, r, ⟨u, v, hu, hv, rfl⟩, rfl⟩ : ∃ w k r, WritesKey w k ∧ s = w ++ r := by
    cases h with
    | last ht =>
      obtain ⟨w, r, hw, rfl⟩ := ht.exists_key
      exact ⟨w, _, r, hw, rfl⟩
    | cons ht =>
      obtain ⟨w, r, hw, rfl⟩ := ht.exists_key
      exact ⟨w, _, _, hw, List.append_assoc ..⟩
  obtain ⟨c, q, hcq⟩ := List.exists_cons_of_ne_nil (spelling_ne_nil k)
  have hc := spelling_plain k c (by simp [hcq])
  have hdrop : (u ++ (k.spelling.toList ++ v) ++ r ++ tail).dropWhile isAsciiBlank =
      u.dropWhile isAsciiBlank ++ (c :: (q ++ v ++ r ++ tail)) := by
    rw [← dropWhile_blank_append (by simpa using hc.1)]
    simp [hcq]
  rw [hdrop]
  cases hu' : u.dropWhile isAsciiBlank with
  | nil => exact ⟨c, _, rfl, hc.2.2⟩
  | cons d x =>
    refine ⟨d, _, rfl, ?_⟩
    rintro rfl
    exact absurd (hu.dropWhile ']' (by simp [hu'])) (by decide)

theorem readEntry_dropWhile (depth : Nat) (s : List Char) :
    readEntry depth (s.dropWhile isAsciiBlank) = readEntry depth s := by
  obtain ⟨a, ha, hs⟩ := exists_dropWhile isAsciiBlank s
  have : trimStart (s.dropWhile isAsciiBlank) = trimStart s := by
    conv => rhs; rw [hs]
    rw [trimStart, trimStart, List.dropWhile_append_of_pos (AsciiBlank.blank ha)]
  simp only [readEntry, this]

theorem entries_dropWhile (depth : Nat) (s : List Char) :
    entries depth (s.dropWhile isAsciiBlank) = entries depth s := by
  rw [entries_eq, entries_eq, firstEntry, firstEntry, readEntry_dropWhile]

theorem readAfterKey_param {k : Key} {u p v tail : List Char} (depth : Nat) (start : List Char)
    (hk : k.shape = .param) (hu : Blank u) (hp : IsParam p) (hv : Blank v)
    (ht : ∀ c ∈ tail.head?, c = ',' ∨ c = ']') :
    readAfterKey depth k start ('=' :: (u ++ (p ++ v) ++ tail)) =
      .ok (.whole (.simple k (some (String.ofList p))) tail) := by
  obtain ⟨c, q, rfl⟩ := List.exists_cons_of_ne_nil hp.ne_nil
  have hc : isBlank c = false := hp.head c rfl
  have hdrop : (u ++ (c :: q ++ v) ++ tail).dropWhile isAsciiBlank =
      u.dropWhile isAsciiBlank ++ (c :: q ++ v) ++ tail := by
    rw [List.append_assoc, dropWhile_blank_append (by simpa using hc), ← List.append_assoc]
  have hread := readParam_append start hk hu.dropWhile hp hv ht
  unfold readAfterKey
  simp only [hdrop]
  split
  next body hbody =>
    -- the first character is a blank or the first one of the parameter
    cases hu' : u.dropWhile isAsciiBlank with
    | nil =>
      simp only [hu', List.nil_append, List.cons_append, List.cons.injEq] at hbody
      exact absurd hbody.1 (hp.plain c (by simp)).2.1
    | cons d x =>
      simp only [hu', List.cons_append, List.cons.injEq] at hbody
      have := hu.dropWhile d (by simp [hu'])
      rw [hbody.1] at this
      exact absurd this (by decide)
  next => exact hread

mutual

/-- An entry is read as what it denotes, up to the blanks after a scope. -/
theorem firstEntry_of_writes {n depth : Nat} {s : List Char} {t : Tag} (h : Writes n s t)
    (hd : depth + n ≤ maxDepth) (tail : List Char) (ht : ∀ c ∈ tail.head?, c = ',' ∨ c = ']') :
    ∃ b, AsciiBlank b ∧ firstEntry depth (s ++ tail) = .ok (t, b ++ tail) := by
  cases h with
  | @flag _ _ k hk hs =>
    obtain ⟨start, he⟩ := readEntry_append depth hs tail fun c hc => by
      rcases ht c hc with rfl | rfl <;> rfl
    have hbare : readAfterKey depth k start tail = .ok (.whole (.simple k none) tail) := by
      unfold readAfterKey
      split
      next => exact absurd (ht '[' rfl) (by decide)
      next => exact absurd (ht '=' rfl) (by decide)
      next => rw [readBare, hk]
    exact ⟨[], .nil, by rw [firstEntry, he, hbare]; rfl⟩
  | param hk hs hu hp hv =>
    obtain ⟨start, he⟩ := readEntry_append depth hs ('=' :: (_ ++ (_ ++ _) ++ tail)) (by simp; rfl)
    refine ⟨[], .nil, ?_⟩
    rw [firstEntry, List.append_assoc, List.cons_append, he,
      readAfterKey_param depth start hk hu hp hv ht]
    rfl
  | @scope n _ k a body ts b hk hs ha hts hb =>
    obtain ⟨start, he⟩ := readEntry_append depth hs
      ('=' :: (a ++ '[' :: (body ++ ']' :: (b ++ tail)))) (by simp; rfl)
    have hopens : readAfterKey depth k start ('=' :: (a ++ '[' :: (body ++ ']' :: (b ++ tail)))) =
        .ok (.opens k (body ++ ']' :: (b ++ tail))) := by
      unfold readAfterKey
      simp only [dropWhile_append_of_head (s := '[' :: (body ++ ']' :: (b ++ tail))) ha
        (by simp; decide), readScope, hk]
      rw [if_neg (by simp), if_neg (by omega)]
    have hbody : entries (depth + 1) (body ++ ']' :: (b ++ tail)) = .ok (ts, b ++ tail) :=
      entries_of_writesAll hts (by omega) (.inr ⟨by omega, rfl⟩)
    refine ⟨b, hb, ?_⟩
    rw [firstEntry, List.append_assoc, List.cons_append, List.append_assoc, List.cons_append,
      List.append_assoc, List.cons_append, he, hopens]
    simp only [hbody]
    rfl

theorem entries_of_writesAll {n depth : Nat} {s : List Char} {ts : List Tag} (h : WritesAll n s ts)
    (hd : depth + n ≤ maxDepth) {tail r : List Char} (ht : Ends depth tail r) :
    entries depth (s ++ tail) = .ok (ts, r) := by
  cases h with
  | last h =>
    have hhead : ∀ c ∈ tail.head?, c = ',' ∨ c = ']' := by
      rcases ht with ⟨-, rfl, -⟩ | ⟨-, rfl⟩ <;> simp
    obtain ⟨b, hb, hf⟩ := firstEntry_of_writes h hd tail hhead
    rw [entries_eq, hf]
    simp only [entriesAfter, readNext_of_ends hb ht]
  | @cons _ s t q ts h hts =>
    obtain ⟨b, hb, hf⟩ := firstEntry_of_writes h hd (',' :: (q ++ tail)) (by simp)
    obtain ⟨c, x, hcx, hc⟩ := hts.exists_cons tail
    have hrest : entries depth (q ++ tail) = .ok (ts, r) := entries_of_writesAll hts hd ht
    rw [List.append_assoc, List.cons_append, entries_eq, hf]
    simp only [entriesAfter, readNext_of_comma depth hb hcx hc, ← hcx, entries_dropWhile, hrest]
    rfl

end

/-! ## Annotations -/

theorem isEmpty_dropWhile_iff {s : List Char} :
    (s.dropWhile isAsciiBlank).isEmpty = true ↔ AsciiBlank s := by
  rw [List.isEmpty_iff]
  constructor
  · intro h
    obtain ⟨a, ha, hs⟩ := exists_dropWhile isAsciiBlank s
    rw [h, List.append_nil] at hs
    exact hs ▸ ha
  · intro h
    simpa using dropWhile_append_of_head (s := []) h (by simp)

/-- Reading a text by its entries. -/
theorem parse_eq (input : String) : parse input =
    if (input.toList.dropWhile isAsciiBlank).isEmpty then .ok []
    else match entries 0 input.toList with
      | .ok (ts, _) => .ok ts
      | .error f => .error ⟨input, byteLength input.toList - byteLength f.rest, f.problem⟩ := by
  rw [parse, entries]
  cases readEntries 0 input.toList <;> rfl

theorem parse_of_blank {input : String} (h : AsciiBlank input.toList) : parse input = .ok [] := by
  rw [parse, if_pos (isEmpty_dropWhile_iff.mpr h)]

theorem parse_of_writesAll {input : String} {ts : List Tag}
    (h : WritesAll maxDepth input.toList ts) : parse input = .ok ts := by
  obtain ⟨c, x, hcx, -⟩ := h.exists_cons []
  have hne : ¬(input.toList.dropWhile isAsciiBlank).isEmpty = true := by
    rw [List.append_nil] at hcx
    simp [hcx]
  have hread : entries 0 (input.toList ++ []) = .ok (ts, []) :=
    entries_of_writesAll h (by omega) (.inl ⟨rfl, rfl, rfl⟩)
  rw [List.append_nil, entries] at hread
  rw [parse, if_neg hne]
  cases hr : readEntries 0 input.toList with
  | ok p =>
    rw [hr, Except.map, Except.ok.injEq, Prod.mk.injEq] at hread
    exact congrArg Except.ok hread.1
  | error f => rw [hr] at hread; cases hread

theorem writesAll_of_parse {input : String} {ts : List Tag} (h : parse input = .ok ts) :
    AsciiBlank input.toList ∧ ts = [] ∨ WritesAll maxDepth input.toList ts := by
  rw [parse] at h
  split at h
  next hb =>
    cases h
    exact .inl ⟨isEmpty_dropWhile_iff.mp hb, rfl⟩
  next =>
    split at h
    next us r hus =>
      cases h
      have hread : entries 0 input.toList = .ok (ts, r.1) := by rw [entries, hus]; rfl
      obtain ⟨body, tail, hts, hinput, ⟨-, rfl, -⟩ | ⟨h₀, -⟩⟩ :=
        exists_writesAll_of_entries (Nat.zero_le _) hread
      · rw [List.append_nil] at hinput
        exact .inr (hinput ▸ hts)
      · exact absurd rfl h₀
    next => cases h

/-- **The annotations are the texts of the grammar.** A text is read as `ts` if it is blank and
there are no tags, or if it is a list of entries that denotes `ts`; in particular it denotes one
list. -/
theorem parse_eq_ok_iff (input : String) (ts : List Tag) :
    parse input = .ok ts ↔
      AsciiBlank input.toList ∧ ts = [] ∨ WritesAll maxDepth input.toList ts := by
  refine ⟨writesAll_of_parse, ?_⟩
  rintro (⟨hb, rfl⟩ | h)
  · exact parse_of_blank hb
  · exact parse_of_writesAll h

end FieldRules.Tag
