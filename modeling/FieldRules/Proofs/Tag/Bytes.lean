import FieldRules.Tag.Cursor
import FieldRules.Proofs.Tag.Faults

/-!
# The cursor over bytes

`Cursor.parse` reads what `Tag.parse` reads.

Positions of the cursor are places of the texts that remain there (`place`), so that every step of
the one reader is compared with a step of the other. A run of bytes is a run of characters, because
the bytes that the cursor looks for are those of ASCII characters and occur in no others (`Agrees`).
Hence the cursor stands between characters whenever it cuts.
-/

namespace FieldRules.Tag

theorem byteLength_cons (c : Char) (s : List Char) :
    byteLength (c :: s) = c.utf8Size + byteLength s := rfl

theorem length_le_byteLength (s : List Char) : s.length ≤ byteLength s := by
  induction s with
  | nil => exact Nat.le_refl 0
  | cons c s ih =>
    have := Char.utf8Size_pos c
    rw [byteLength_cons, List.length_cons]
    omega

namespace Cursor

open Text

/-! ## Bytes of characters -/

theorem length_bytes (s : List Char) : (bytes s).length = byteLength s := by
  induction s with
  | nil => rfl
  | cons c s ih =>
    rw [bytes, List.flatMap_cons, ← bytes, List.length_append, String.length_utf8EncodeChar, ih,
      byteLength_cons]

theorem bytes_append (u s : List Char) : bytes (u ++ s) = bytes u ++ bytes s :=
  List.flatMap_append

theorem toNat_byte {d : Char} (hd : d.toNat < 128) : (byte d).toNat = d.toNat := by
  have hval : d.val.toNat = d.toNat := rfl
  rw [byte, Char.toUInt8, UInt32.toNat_toUInt8, hval]
  omega

/-- The byte of an ASCII character occurs in no other character. -/
theorem eq_byte_iff {c d : Char} (hd : d.toNat < 128) {b : UInt8}
    (hb : b ∈ String.utf8EncodeChar c) : b = byte d ↔ c = d := by
  have hval : c.val.toNat = c.toNat := rfl
  rw [← UInt8.toNat_inj, toNat_byte hd, ← Char.toNat_inj]
  rw [String.utf8EncodeChar] at hb
  -- the one byte of an ASCII character is its number, and all bytes of others are above it
  by_cases hc : c.toNat < 128
  · rw [if_pos (by omega), List.mem_singleton] at hb
    rw [hb, UInt8.toNat_ofNat', hval]
    omega
  · refine iff_of_false (fun h => ?_) (by omega)
    rw [if_neg (by omega)] at hb
    have hhigh : 128 ≤ b.toNat := by
      repeat' split at hb
      all_goals
        simp only [List.mem_cons, List.not_mem_nil, or_false] at hb
        rcases hb with rfl | rfl | rfl | rfl <;> rw [UInt8.toNat_ofNat'] <;> omega
    omega

/-- A test of bytes that judges every byte of a character as a test of characters judges it. -/
def Agrees (p : UInt8 → Bool) (q : Char → Bool) : Prop :=
  ∀ c, ∀ b ∈ String.utf8EncodeChar c, p b = q c

theorem agrees_blank : Agrees isBlankByte isAsciiBlank := by
  intro c b hb
  simp only [isBlankByte, isAsciiBlank, eq_byte_iff (show ' '.toNat < 128 by decide) hb,
    eq_byte_iff (show '\t'.toNat < 128 by decide) hb,
    eq_byte_iff (show '\n'.toNat < 128 by decide) hb,
    eq_byte_iff (show '\x0c'.toNat < 128 by decide) hb,
    eq_byte_iff (show '\r'.toNat < 128 by decide) hb]

theorem agrees_key : Agrees (!endsKeyByte ·) (!endsKey ·) := by
  intro c b hb
  simp only [endsKeyByte, endsKey, eq_byte_iff (show '='.toNat < 128 by decide) hb,
    eq_byte_iff (show ','.toNat < 128 by decide) hb,
    eq_byte_iff (show '['.toNat < 128 by decide) hb,
    eq_byte_iff (show ']'.toNat < 128 by decide) hb]

theorem agrees_param : Agrees (!endsParamByte ·) (!endsParam ·) := by
  intro c b hb
  simp only [endsParamByte, endsParam, eq_byte_iff (show ','.toNat < 128 by decide) hb,
    eq_byte_iff (show '['.toNat < 128 by decide) hb,
    eq_byte_iff (show ']'.toNat < 128 by decide) hb]

/-- A run of bytes is a run of characters. -/
theorem takeWhile_bytes {p : UInt8 → Bool} {q : Char → Bool} (h : Agrees p q) (s : List Char) :
    (bytes s).takeWhile p = bytes (s.takeWhile q) := by
  induction s with
  | nil => rfl
  | cons c s ih =>
    rw [bytes, List.flatMap_cons, ← bytes, List.takeWhile_cons]
    cases hc : q c with
    | true =>
      rw [List.takeWhile_append_of_pos fun b hb => (h c b hb).trans hc, ih]
      rfl
    | false =>
      obtain ⟨b, bs, hbs⟩ := List.exists_cons_of_ne_nil (String.utf8EncodeChar_ne_nil (c := c))
      have hb : p b = false := (h c b (hbs ▸ List.mem_cons_self)).trans hc
      rw [hbs, List.cons_append, List.takeWhile_cons_of_neg (by rw [hb]; exact Bool.false_ne_true)]
      rfl

/-! ## Places -/

theorem textFrom_byteLength (u s : List Char) : textFrom (byteLength u) (u ++ s) = some s := by
  induction u with
  | nil => rw [byteLength, List.foldr_nil, textFrom, List.nil_append]
  | cons c u ih =>
    obtain ⟨n, hn⟩ := Nat.exists_eq_add_one_of_ne_zero (Nat.ne_of_gt (Char.utf8Size_pos c))
    have hsub : n + byteLength u + 1 - (n + 1) = byteLength u := by omega
    rw [List.cons_append, byteLength_cons, hn, Nat.add_right_comm, textFrom, hn,
      if_pos (by omega), hsub, ih]

theorem textTo_byteLength (u s : List Char) : textTo (byteLength u) (u ++ s) = some u := by
  induction u with
  | nil => rw [byteLength, List.foldr_nil, textTo]
  | cons c u ih =>
    obtain ⟨n, hn⟩ := Nat.exists_eq_add_one_of_ne_zero (Nat.ne_of_gt (Char.utf8Size_pos c))
    have hsub : n + byteLength u + 1 - (n + 1) = byteLength u := by omega
    rw [List.cons_append, byteLength_cons, hn, Nat.add_right_comm, textTo, hn,
      if_pos (by omega), hsub, ih]
    rfl

variable {input : String} {s r : List Char}

/-- The position at which the text `s` remains. -/
def place (input : String) (s : List Char) : Nat := byteLength input.toList - byteLength s

theorem place_eq {u : List Char} (h : input.toList = u ++ s) : place input s = byteLength u := by
  rw [place, h, byteLength_append]
  omega

theorem place_append {u : List Char} (h : u ++ s <:+ input.toList) :
    place input s = place input (u ++ s) + byteLength u := by
  obtain ⟨v, hv⟩ := h
  rw [place_eq hv.symm, ← byteLength_append]
  exact place_eq (by rw [List.append_assoc]; exact hv.symm)

theorem textFrom_place (h : s <:+ input.toList) :
    textFrom (place input s) input.toList = some s := by
  obtain ⟨u, hu⟩ := h
  rw [place_eq hu.symm, ← hu]
  exact textFrom_byteLength u s

theorem drop_place (h : s <:+ input.toList) :
    (bytes input.toList).drop (place input s) = bytes s := by
  obtain ⟨u, hu⟩ := h
  rw [place_eq hu.symm, ← hu, bytes_append, ← length_bytes, List.drop_left]

theorem peek_place (h : s <:+ input.toList) : peek input (place input s) = (bytes s).head? := by
  rw [peek, ← drop_place h, List.head?_drop]

theorem skip_place {p : UInt8 → Bool} {q : Char → Bool} (h : Agrees p q) (hs : s <:+ input.toList) :
    skip input p (place input s) = place input (s.dropWhile q) := by
  have hsplit : s.takeWhile q ++ s.dropWhile q = s := List.takeWhile_append_dropWhile
  rw [skip, drop_place hs, takeWhile_bytes h, length_bytes]
  have hplace := place_append (hsplit.symm ▸ hs)
  rw [hplace, hsplit]

theorem cut_place (hs : r ++ s <:+ input.toList) :
    cut input (place input (r ++ s)) (place input s) = some r := by
  rw [cut, textFrom_place hs, place_append hs, Nat.add_sub_cancel_left]
  exact textTo_byteLength r s

theorem place_cons {c : Char} (h : c :: s <:+ input.toList) :
    place input s = place input (c :: s) + c.utf8Size :=
  place_append (u := [c]) h

theorem peek_eq_some_iff {d : Char} (hd : d.toNat < 128) (h : s <:+ input.toList) :
    peek input (place input s) = some (byte d) ↔ s.head? = some d := by
  rw [peek_place h]
  cases s with
  | nil => exact iff_of_false nofun nofun
  | cons c s =>
    obtain ⟨b, bs, hbs⟩ := List.exists_cons_of_ne_nil (String.utf8EncodeChar_ne_nil (c := c))
    rw [bytes, List.flatMap_cons, hbs, List.cons_append, List.head?_cons, List.head?_cons,
      Option.some_inj, Option.some_inj]
    exact eq_byte_iff hd (hbs ▸ List.mem_cons_self)

theorem peek_eq_none_iff (h : s <:+ input.toList) : peek input (place input s) = none ↔ s = [] := by
  rw [peek_place h, List.head?_eq_none_iff, ← List.length_eq_zero_iff, length_bytes,
    ← List.length_eq_zero_iff]
  have := length_le_byteLength s
  cases s with
  | nil => exact iff_of_true rfl rfl
  | cons c s =>
    rw [List.length_cons] at this ⊢
    omega

/-! ## Steps of the reader -/

theorem liftM_some {α : Type} (a : α) : (liftM (some a) : Run α) = pure a := rfl

/-- The error for a problem. -/
def errorAt (input : String) (f : Fault) : ParseError := ⟨input, place input f.rest, f.problem⟩

theorem unexpected_place {α : Type} {c : Char} (h : c :: s <:+ input.toList) :
    (unexpected input (place input (c :: s)) : Run α) =
      throw (errorAt input ⟨.unexpectedCharacter c, c :: s⟩) := by
  rw [unexpected, textFrom_place h, liftM_some, pure_bind]
  rfl

/-- Blanks in front of a text belong to what is read up to one of `stops`. -/
theorem trimStart_takeWhile {q : Char → Bool} (hq : ∀ c, isBlank c = true → q c = true)
    (s : List Char) : trimStart (s.takeWhile q) = (trimStart s).takeWhile q ∧
      (trimStart s).dropWhile q = s.dropWhile q := by
  induction s with
  | nil => exact ⟨rfl, rfl⟩
  | cons c s ih =>
    cases hc : isBlank c with
    | true =>
      have hstart : ∀ t, trimStart (c :: t) = trimStart t := fun t => List.dropWhile_cons_of_pos hc
      rw [List.takeWhile_cons_of_pos (hq c hc), List.dropWhile_cons_of_pos (hq c hc), hstart,
        hstart]
      exact ih
    | false =>
      have hstart : ∀ t, trimStart (c :: t) = c :: t :=
        fun t => List.dropWhile_cons_of_neg (by rw [hc]; exact Bool.false_ne_true)
      rw [hstart]
      refine ⟨?_, rfl⟩
      cases hqc : q c with
      | true => rw [List.takeWhile_cons_of_pos hqc, hstart]
      | false =>
        rw [List.takeWhile_cons_of_neg (by rw [hqc]; exact Bool.false_ne_true)]
        rfl

theorem readUntil_place {stops : UInt8 → Bool} {q : Char → Bool} (h : Agrees (!stops ·) q)
    (hq : ∀ c, isBlank c = true → q c = true) (hs : s <:+ input.toList) :
    readUntil input stops (place input s) =
      pure (trimEnd ((trimStart s).takeWhile q), place input (trimStart s),
        place input ((trimStart s).dropWhile q)) := by
  obtain ⟨htake, hdrop⟩ := trimStart_takeWhile hq s
  have hsplit : s.takeWhile q ++ s.dropWhile q = s := List.takeWhile_append_dropWhile
  obtain ⟨u, -, hu⟩ := exists_dropWhile isBlank (s.takeWhile q)
  rw [← trimStart] at hu
  have hstart : u ++ trimStart s = s := by
    conv =>
      rhs
      rw [← hsplit, hu, htake, ← hdrop, List.append_assoc, List.takeWhile_append_dropWhile]
  have hplace : place input s +
      (byteLength (s.takeWhile q) - byteLength (trimStart (s.takeWhile q))) =
        place input (trimStart s) := by
    have hlength := congrArg byteLength hu
    rw [byteLength_append] at hlength
    have hafter := place_append (u := u) (by rw [hstart]; exact hs)
    rw [hafter, hstart]
    omega
  have hcut : cut input (place input s) (place input (s.dropWhile q)) = some (s.takeWhile q) := by
    have hcut := cut_place (hsplit.symm ▸ hs)
    rwa [hsplit] at hcut
  rw [readUntil, skip_place h hs, hcut, hdrop, liftM_some, pure_bind, hplace, trim, htake]

/-- The entry that a head begins. -/
def ofEntry (input : String) (enter : Nat → Nat → Run (List Tag × Nat)) (depth : Nat) :
    Except Fault Entry → Run (Tag × Nat)
  | .error f => throw (errorAt input f)
  | .ok (.whole t r) => pure (t, place input r)
  | .ok (.opens k r) => do
    let (ts, pos) ← enter (depth + 1) (place input r)
    return (.scope k ts, pos)

variable (enter : Nat → Nat → Run (List Tag × Nat)) (depth : Nat) (k : Key) (start : List Char)

theorem not_endsParam_of_isBlank {c : Char} (h : isBlank c = true) : (!endsParam c) = true := by
  have hkey := endsKey_of_isBlank h
  simp only [endsKey, endsParam, Bool.or_eq_false_iff, Bool.not_eq_true'] at hkey ⊢
  exact ⟨⟨hkey.1.1.2, hkey.1.2⟩, hkey.2⟩

theorem param_place (hs : s <:+ input.toList) :
    param input k (place input start) (place input s) =
      ofEntry input enter depth (readParam k start s) := by
  have hrest : (trimStart s).dropWhile (!endsParam ·) <:+ input.toList :=
    ((List.dropWhile_suffix _).trans (List.dropWhile_suffix _)).trans hs
  rw [param, readUntil_place agrees_param (fun c => not_endsParam_of_isBlank) hs, pure_bind,
    readParam]
  dsimp only
  by_cases hopen : ((trimStart s).dropWhile (!endsParam ·)).head? = some '['
  · rw [if_pos ((peek_eq_some_iff (by decide) hrest).mpr hopen), if_pos hopen]
    obtain ⟨r, hr⟩ := List.head?_eq_some_iff.mp hopen
    rw [hr, unexpected_place (hr ▸ hrest)]
    rfl
  · rw [if_neg (mt (peek_eq_some_iff (by decide) hrest).mp hopen), if_neg hopen]
    cases k.shape with
    | flag => rfl
    | scope => rfl
    | param =>
      dsimp only
      split <;> rfl

theorem scope_place (h : '[' :: s <:+ input.toList) :
    scope input enter depth k (place input start) (place input ('[' :: s)) =
      ofEntry input enter depth (readScope depth k start s) := by
  rw [scope, readScope]
  split
  · rfl
  · split
    · rfl
    · rw [ofEntry, place_cons h]
      rfl

/-- The cursor behind a byte and the blanks after it. -/
theorem skip_place_cons {c : Char} (hc : c.utf8Size = 1) (hs : c :: s <:+ input.toList) :
    skip input isBlankByte (place input (c :: s) + 1) =
      place input (s.dropWhile isAsciiBlank) := by
  rw [← hc, ← place_cons hs]
  exact skip_place agrees_blank ((List.suffix_cons c s).trans hs)

theorem afterKey_place (hs : s <:+ input.toList) :
    afterKey input enter depth k (place input start) (place input s) =
      ofEntry input enter depth (readAfterKey depth k start s) := by
  simp only [afterKey, peek_eq_some_iff (show '['.toNat < 128 by decide) hs,
    peek_eq_some_iff (show '='.toNat < 128 by decide) hs]
  split
  next hopen =>
    obtain ⟨r, rfl⟩ := List.head?_eq_some_iff.mp hopen
    exact unexpected_place hs
  next hopen =>
    split
    next hequals =>
      obtain ⟨r, rfl⟩ := List.head?_eq_some_iff.mp hequals
      have hbody : r.dropWhile isAsciiBlank <:+ input.toList :=
        ((List.dropWhile_suffix _).trans (List.suffix_cons '=' r)).trans hs
      simp only [skip_place_cons rfl hs, peek_eq_some_iff (show '['.toNat < 128 by decide) hbody,
        readAfterKey]
      split
      next hscope =>
        obtain ⟨body, hopens⟩ := List.head?_eq_some_iff.mp hscope
        rw [hopens]
        exact scope_place enter depth k start (hopens ▸ hbody)
      next hscope =>
        rw [param_place enter depth k start hbody]
        split
        next body hopens => exact absurd (by rw [hopens]; rfl) hscope
        next => rfl
    next hequals =>
      have hbare : readAfterKey depth k start s = readBare k start s := by
        unfold readAfterKey
        split
        next => exact (hopen rfl).elim
        next => exact (hequals rfl).elim
        next => rfl
      rw [hbare, readBare]
      cases k.shape <;> rfl

/-- An entry of the cursor begins with the head that the reader of characters finds. -/
theorem entry_place (hs : s <:+ input.toList) :
    entry input enter depth (place input s) = ofEntry input enter depth (readEntry depth s) := by
  have hskip : s.dropWhile isAsciiBlank <:+ input.toList := (List.dropWhile_suffix _).trans hs
  have hrest : (trimStart (s.dropWhile isAsciiBlank)).dropWhile (!endsKey ·) <:+ input.toList :=
    ((List.dropWhile_suffix _).trans (List.dropWhile_suffix _)).trans hskip
  have hblank : ∀ c, isBlank c = true → (!endsKey c) = true :=
    fun c hc => by rw [endsKey_of_isBlank hc]; rfl
  rw [entry, skip_place agrees_blank hs, readUntil_place agrees_key hblank hskip, pure_bind,
    ← readEntry_dropWhile, readEntry]
  dsimp only
  split
  · rfl
  · generalize Key.ofSpelling? _ = key
    cases key with
    | none => rfl
    | some k => exact afterKey_place enter depth k _ hrest

/-! ## The entry loop -/

/-- What is read of a list, with positions for the texts that remain. -/
def ofRead {α : Type} (input : String) : Except Fault (α × List Char) → Run (α × Nat)
  | .error f => throw (errorAt input f)
  | .ok (a, r) => pure (a, place input r)

theorem suffix_of_readEntry {e : Entry} (h : readEntry depth s = .ok e) : e.rest <:+ s := by
  cases e with
  | whole t r =>
    obtain ⟨w, -, rfl⟩ := exists_writes_of_whole 0 h
    exact List.suffix_append w r
  | opens k r =>
    obtain ⟨-, w, rfl, -⟩ := leads_of_opens h
    exact List.suffix_append w r

/-- What follows an entry that another one may follow. -/
theorem readNext_of_head_comma (hs : s.dropWhile isAsciiBlank = ',' :: r) :
    readNext depth s =
      match r.dropWhile isAsciiBlank with
      | [] => .error ⟨.trailingSeparator, ',' :: r⟩
      | c :: q =>
        if c = ']' then .error ⟨.trailingSeparator, ',' :: r⟩ else .ok (.entry (c :: q)) := by
  rw [readNext, hs]
  rfl

theorem readNext_of_head_ne {c : Char} (hs : s.dropWhile isAsciiBlank = c :: r) (hc : c ≠ ',') :
    readNext depth s =
      if c = ']' ∧ depth ≠ 0 then .ok (.done r) else .error ⟨.unexpectedCharacter c, c :: r⟩ := by
  rw [readNext, hs]
  split
  next h => cases h
  next h => exact absurd (List.cons.inj h).1 hc
  next h =>
    cases h
    rfl

/-- A round after its entry, if `next` reads what `entries` reads. -/
theorem afterEntry_place {next : Nat → Run (List Tag × Nat)} (t : Tag) (hs : s <:+ input.toList)
    (hnext : ∀ r, readNext depth s = .ok (.entry r) →
      next (place input r) = ofRead input (Tag.entries depth r)) :
    afterEntry input next (decide (depth ≠ 0)) t (place input s) =
      ofRead input (entriesAfter depth t s) := by
  have hrest : s.dropWhile isAsciiBlank <:+ input.toList := (List.dropWhile_suffix _).trans hs
  rw [afterEntry, skip_place agrees_blank hs, entriesAfter]
  simp only [peek_eq_some_iff (show ','.toNat < 128 by decide) hrest,
    peek_eq_some_iff (show ']'.toNat < 128 by decide) hrest, peek_eq_none_iff hrest]
  cases hdrop : s.dropWhile isAsciiBlank with
  | nil =>
    rw [if_neg nofun, if_neg nofun, if_pos rfl, readNext, hdrop]
    by_cases hdepth : depth = 0
    · subst hdepth
      rfl
    · rw [if_pos (decide_eq_true hdepth)]
      dsimp only
      rw [if_neg hdepth]
      rfl
  | cons c r =>
    rw [hdrop] at hrest
    simp only [List.head?_cons, Option.some_inj, if_neg (List.cons_ne_nil c r)]
    by_cases hcomma : c = ','
    · subst hcomma
      have hstart : r.dropWhile isAsciiBlank <:+ input.toList :=
        ((List.dropWhile_suffix _).trans (List.suffix_cons ',' r)).trans hrest
      rw [if_pos rfl]
      simp only [skip_place_cons rfl hrest, peek_eq_none_iff hstart,
        peek_eq_some_iff (show ']'.toNat < 128 by decide) hstart]
      rw [readNext_of_head_comma _ hdrop] at hnext ⊢
      cases hbehind : r.dropWhile isAsciiBlank with
      | nil =>
        rw [if_pos (.inl rfl)]
        rfl
      | cons d q =>
        rw [hbehind] at hnext
        dsimp only at hnext ⊢
        by_cases hclose : d = ']'
        · rw [if_pos (.inr (congrArg some hclose)), if_pos hclose]
          rfl
        · rw [if_neg hclose] at hnext ⊢
          rw [if_neg (by simpa using hclose), hnext _ rfl]
          dsimp only
          cases Tag.entries depth (d :: q) <;> rfl
    · rw [if_neg hcomma, readNext_of_head_ne _ hdrop hcomma]
      by_cases hclose : c = ']' ∧ depth ≠ 0
      · obtain ⟨rfl, hdepth⟩ := hclose
        rw [if_pos ⟨rfl, decide_eq_true hdepth⟩, if_pos ⟨rfl, hdepth⟩, ofRead, place_cons hrest]
        rfl
      · rw [if_neg (by simpa using hclose), if_neg hclose, unexpected_place hrest]
        rfl

/-- **The entry loop reads what `entries` reads.** There are no more rounds than characters. -/
theorem entries_place {rounds : Nat} (hrounds : s.length < rounds) (hs : s <:+ input.toList)
    (hd : depth ≤ maxDepth) :
    entries input rounds (decide (depth ≠ 0)) depth (place input s) =
      ofRead input (Tag.entries depth s) := by
  induction rounds generalizing depth s with
  | zero => exact absurd hrounds (Nat.not_lt_zero _)
  | succ rounds ih =>
    have hfirst : entry input (entries input rounds true) depth (place input s) =
        ofRead input (firstEntry depth s) := by
      rw [entry_place _ _ hs, firstEntry]
      cases he : readEntry depth s with
      | error f => rfl
      | ok e =>
        cases e with
        | whole t r => rfl
        | opens k r =>
          have hlength : r.length < s.length := length_lt_of_readEntry he
          have hbody := ih (s := r) (depth + 1) (by omega) ((suffix_of_readEntry depth he).trans hs)
            (leads_of_opens he).1
          rw [decide_eq_true (Nat.succ_ne_zero depth)] at hbody
          rw [ofEntry, hbody]
          dsimp only
          cases Tag.entries (depth + 1) r <;> rfl
    rw [entries, hfirst, entries_eq]
    cases hfirst' : firstEntry depth s with
    | error f => rfl
    | ok p =>
      obtain ⟨t, r⟩ := p
      have hlength := length_lt_of_firstEntry hfirst'
      obtain ⟨w, rfl, -⟩ := leads_of_firstEntry hd hfirst'
      have hr : r <:+ input.toList := (List.suffix_append w r).trans hs
      rw [ofRead, pure_bind]
      refine afterEntry_place _ t hr fun r' hn => ?_
      obtain ⟨w', rfl, -⟩ := leads_of_readNext hn
      have hlength' := length_le_of_readNext hn
      rw [Next.rest] at hlength'
      exact ih depth (by omega) ((List.suffix_append w' r').trans hr) hd

/-- The cursor has a result, and it is what is read of the characters. -/
theorem run_parse (input : String) : (parse input).run = some (Tag.parse input) := by
  have hall : input.toList <:+ input.toList := List.suffix_rfl
  have hstart : place input input.toList = 0 := Nat.sub_self _
  have hskip := skip_place agrees_blank hall
  have hrest : input.toList.dropWhile isAsciiBlank <:+ input.toList := List.dropWhile_suffix _
  rw [hstart] at hskip
  rw [parse, hskip, Tag.parse_eq]
  have hend : (bytes input.toList).length ≤ place input (input.toList.dropWhile isAsciiBlank) ↔
      (input.toList.dropWhile isAsciiBlank).isEmpty = true := by
    rw [← List.getElem?_eq_none_iff, ← peek, peek_eq_none_iff hrest, List.isEmpty_iff]
  by_cases hempty : (input.toList.dropWhile isAsciiBlank).isEmpty = true
  · rw [if_pos hempty]
    simp only [if_pos (hend.mpr hempty)]
    rfl
  · have hlength : (input.toList.dropWhile isAsciiBlank).length <
        (bytes input.toList).length + 1 := by
      have := length_le_byteLength input.toList
      have := hrest.length_le
      rw [length_bytes]
      omega
    rw [if_neg hempty]
    simp only [if_neg (mt hend.mp hempty)]
    have hread : entries input ((bytes input.toList).length + 1) false 0 _ = _ :=
      entries_place 0 hlength hrest (Nat.zero_le _)
    rw [hread, entries_dropWhile]
    cases Tag.entries 0 input.toList <;> rfl

/-! ## Progress -/

theorem bind_eq_pure {α β : Type} {x : Run α} {f : α → Run β} {b : β} (h : x >>= f = pure b) :
    ∃ a, x = pure a ∧ f a = pure b := by
  match x with
  | none => cases h
  | some (.error _) => cases h
  | some (.ok a) => exact ⟨a, rfl, h⟩

theorem liftM_eq_pure {α : Type} {x : Option α} {a : α} (h : (liftM x : Run α) = pure a) :
    x = some a := by
  cases x with
  | none => cases h
  | some b => exact congrArg some (Except.ok.inj (Option.some.inj h))

theorem pure_inj {α : Type} {a b : α} (h : (pure a : Run α) = pure b) : a = b :=
  Except.ok.inj (Option.some.inj h)

theorem le_skip (input : String) (p : UInt8 → Bool) (pos : Nat) : pos ≤ skip input p pos :=
  Nat.le_add_right _ _

/-- A text that is not empty takes a byte. -/
theorem readUntil_eq_pure {stops : UInt8 → Bool} {pos start stop : Nat} {text : List Char}
    (h : readUntil input stops pos = pure (text, start, stop)) :
    pos ≤ stop ∧ (text ≠ [] → pos < stop) := by
  obtain ⟨raw, hraw, htext⟩ := bind_eq_pure h
  obtain ⟨rfl, hrest⟩ := Prod.mk.inj (pure_inj htext)
  obtain ⟨-, rfl⟩ := Prod.mk.inj hrest
  have hle := le_skip input (!stops ·) pos
  refine ⟨hle, fun hne => Nat.lt_of_le_of_ne hle fun heq => hne ?_⟩
  have hcut := liftM_eq_pure hraw
  rw [← heq, cut, Nat.sub_self] at hcut
  obtain ⟨s, -, hs⟩ := Option.bind_eq_some_iff.mp hcut
  rw [textTo] at hs
  cases hs
  rfl

variable {enter : Nat → Nat → Run (List Tag × Nat)} {depth keyPos pos pos' : Nat} {k : Key}
  {t : Tag}

theorem fail_ne_pure {α : Type} {p : Problem} {a : α} : fail input pos p ≠ pure a := nofun

theorem unexpected_ne_pure {α : Type} {a : α} : unexpected input pos ≠ pure a := by
  intro h
  obtain ⟨s, -, hs⟩ := bind_eq_pure h
  exact fail_ne_pure hs

theorem le_of_param (h : param input k keyPos pos = pure (t, pos')) : pos ≤ pos' := by
  obtain ⟨⟨text, textPos, stop⟩, hread, hrest⟩ := bind_eq_pure h
  have hle := (readUntil_eq_pure hread).1
  dsimp only at hrest
  split at hrest
  next => exact absurd hrest unexpected_ne_pure
  next =>
    split at hrest
    next => exact absurd hrest fail_ne_pure
    next => exact absurd hrest fail_ne_pure
    next =>
      split at hrest
      next => exact absurd hrest fail_ne_pure
      next =>
        obtain ⟨-, rfl⟩ := Prod.mk.inj (pure_inj hrest)
        exact hle

/-- What reads the entries of a scope does not go back. -/
def Advances (enter : Nat → Nat → Run (List Tag × Nat)) : Prop :=
  ∀ depth pos ts pos', enter depth pos = pure (ts, pos') → pos ≤ pos'

theorem le_of_scope (henter : Advances enter)
    (h : scope input enter depth k keyPos pos = pure (t, pos')) : pos ≤ pos' := by
  rw [scope] at h
  split at h
  next => exact absurd h fail_ne_pure
  next =>
    split at h
    next => exact absurd h fail_ne_pure
    next =>
      obtain ⟨⟨ts, stop⟩, hread, hrest⟩ := bind_eq_pure h
      obtain ⟨-, rfl⟩ := Prod.mk.inj (pure_inj hrest)
      have := henter _ _ _ _ hread
      omega

theorem le_of_afterKey (henter : Advances enter)
    (h : afterKey input enter depth k keyPos pos = pure (t, pos')) : pos ≤ pos' := by
  rw [afterKey] at h
  split at h
  next => exact absurd h unexpected_ne_pure
  next =>
    split at h
    next =>
      have hle := le_skip input isBlankByte (pos + 1)
      dsimp only at h
      split at h
      next =>
        have := le_of_scope henter h
        omega
      next =>
        have := le_of_param h
        omega
    next =>
      split at h
      next =>
        obtain ⟨-, rfl⟩ := Prod.mk.inj (pure_inj h)
        exact Nat.le_refl _
      next => exact absurd h fail_ne_pure
      next => exact absurd h fail_ne_pure

/-- An entry takes a byte, that of its key. -/
theorem lt_of_entry (henter : Advances enter)
    (h : entry input enter depth pos = pure (t, pos')) : pos < pos' := by
  obtain ⟨⟨name, start, stop⟩, hread, hrest⟩ := bind_eq_pure h
  have hle := le_skip input isBlankByte pos
  have hlt := (readUntil_eq_pure hread).2
  dsimp only at hrest
  split at hrest
  next => exact absurd hrest fail_ne_pure
  next hname =>
    split at hrest
    next => exact absurd hrest fail_ne_pure
    next =>
      have := hlt (mt List.isEmpty_iff.mpr hname)
      have := le_of_afterKey henter hrest
      omega

theorem le_of_afterEntry {next : Nat → Run (List Tag × Nat)} {nested : Bool} {ts : List Tag}
    (hnext : ∀ pos ts pos', next pos = pure (ts, pos') → pos ≤ pos')
    (h : afterEntry input next nested t pos = pure (ts, pos')) : pos ≤ pos' := by
  have hle := le_skip input isBlankByte pos
  rw [afterEntry] at h
  dsimp only at h
  split at h
  next =>
    have hle' := le_skip input isBlankByte (skip input isBlankByte pos + 1)
    split at h
    next => exact absurd h fail_ne_pure
    next =>
      obtain ⟨⟨us, stop⟩, hread, hrest⟩ := bind_eq_pure h
      obtain ⟨-, rfl⟩ := Prod.mk.inj (pure_inj hrest)
      have := hnext _ _ _ hread
      omega
  next =>
    split at h
    next =>
      obtain ⟨-, rfl⟩ := Prod.mk.inj (pure_inj h)
      omega
    next =>
      split at h
      next =>
        split at h
        next => exact absurd h fail_ne_pure
        next =>
          obtain ⟨-, rfl⟩ := Prod.mk.inj (pure_inj h)
          exact hle
      next => exact absurd h unexpected_ne_pure

theorem advances_entries (rounds : Nat) (nested : Bool) :
    Advances (entries input rounds nested) := by
  induction rounds generalizing nested with
  | zero =>
    intro depth pos ts pos' h
    cases h
  | succ rounds ih =>
    intro depth pos ts pos' h
    obtain ⟨⟨t, stop⟩, hread, hrest⟩ := bind_eq_pure h
    have hlt := lt_of_entry (ih true) hread
    have hle := le_of_afterEntry (ih nested depth) hrest
    omega

end Cursor

/-! ## Reports -/

theorem utf8ByteSize_ofList (s : List Char) : (String.ofList s).utf8ByteSize = byteLength s := by
  induction s with
  | nil => rfl
  | cons c s ih =>
    rw [String.ofList_cons, String.utf8ByteSize_append, String.utf8ByteSize_singleton, ih,
      byteLength_cons]

/-- The length of what a text begins with is a boundary between its characters. -/
theorem isValid_byteLength {input : String} {before after : List Char}
    (h : input.toList = before ++ after) : String.Pos.Raw.IsValid input ⟨byteLength before⟩ := by
  refine String.Pos.Raw.isValid_iff_exists_append.mpr
    ⟨String.ofList before, String.ofList after, ?_, ?_⟩
  · rw [← String.ofList_append, ← h, String.ofList_toList]
  · rw [String.rawEndPos, utf8ByteSize_ofList]

/-- **Reading ends, and what it reports is true.** Over the bytes of any text, the cursor cuts
between characters only and ends within its rounds, of which each takes a byte; at most `maxDepth`
scopes are open at any point. An error quotes the text, and its position is a boundary between
characters at which the problem holds. -/
theorem parse_reports (input : String) :
    (Cursor.parse input).run = some (parse input) ∧
    (∀ rounds depth pos t pos',
      Cursor.entry input (Cursor.entries input rounds true) depth pos = pure (t, pos') →
        pos < pos') ∧
    (∀ ts, parse input = .ok ts → ∀ u, u <+: input.toList →
      ∃ n ≤ maxDepth, scopesAfter 0 u = some n) ∧
    ∀ e, parse input = .error e → e.input = input ∧ String.Pos.Raw.IsValid input ⟨e.position⟩ ∧
      ∃ before after scopes, input.toList = before ++ after ∧ e.position = byteLength before ∧
        (∀ u, u <+: before → ∃ n ≤ maxDepth, scopesAfter 0 u = some n) ∧
        scopesAfter 0 before = some scopes ∧ e.problem.Holds before after scopes := by
  refine ⟨Cursor.run_parse input, fun rounds depth pos t pos' h =>
    Cursor.lt_of_entry (Cursor.advances_entries rounds true) h,
    fun ts h u => exists_scopesAfter (Nat.zero_le _) (scopesAfter_of_parse h), fun e h => ?_⟩
  obtain ⟨hinput, before, after, scopes, hsplit, hposition, hscopes, hholds⟩ := faulty_of_parse h
  exact ⟨hinput, hposition ▸ isValid_byteLength hsplit, before, after, scopes, hsplit, hposition,
    fun u => exists_scopesAfter (Nat.zero_le _) hscopes, hscopes, hholds⟩

/-- An unknown key after a character of two bytes, inside a scope. -/
theorem parse_reports_unknown :
    let input := "item=[func=é,naïve=1]"
    let e : ParseError := ⟨input, 14, .unknownKey "naïve"⟩
    parse input = .error e ∧ String.Pos.Raw.IsValid input ⟨14⟩ ∧
      ∃ before after scopes, input.toList = before ++ after ∧ 14 = byteLength before ∧
        e.problem.Holds before after scopes := by
  intro input e
  have hlast : entries 1 "naïve=1]".toList =
      .error ⟨.unknownKey "naïve", "naïve=1]".toList⟩ := by
    rw [entries_eq]
    rfl
  have hscope : entries 1 "func=é,naïve=1]".toList =
      .error ⟨.unknownKey "naïve", "naïve=1]".toList⟩ := by
    have hfirst : firstEntry 1 "func=é,naïve=1]".toList =
        .ok (.simple .func (some "é"), ",naïve=1]".toList) := rfl
    have hnext : readNext 1 ",naïve=1]".toList = .ok (.entry "naïve=1]".toList) := rfl
    rw [entries_eq, hfirst]
    dsimp only
    rw [entriesAfter, hnext]
    dsimp only
    rw [hlast]
    rfl
  have hread : entries 0 "item=[func=é,naïve=1]".toList =
      .error ⟨.unknownKey "naïve", "naïve=1]".toList⟩ := by
    have hopens : readEntry 0 "item=[func=é,naïve=1]".toList =
        .ok (.opens .item "func=é,naïve=1]".toList) := rfl
    rw [entries_eq, firstEntry, hopens]
    dsimp only
    rw [hscope]
    rfl
  have herror : parse input = .error e := by
    have hposition : byteLength input.toList - byteLength "naïve=1]".toList = 14 := by
      decide +kernel
    rw [parse_eq, hread, if_neg (by decide +kernel)]
    dsimp only
    rw [hposition]
  obtain ⟨-, hvalid, before, after, scopes, hsplit, hposition, -, -, hholds⟩ :=
    (parse_reports input).2.2.2 e herror
  exact ⟨herror, hvalid, before, after, scopes, hsplit, hposition, hholds⟩

end FieldRules.Tag
