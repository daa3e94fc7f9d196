import FieldRules.Proofs.Tag.Printing

/-!
# What errors of annotations say

A problem is a statement about the text around the place where it stands (`Problem.Holds`), and what
is reported is true, inside scopes (`faulty_of_entries`) and of a whole annotation
(`faulty_of_parse`). `scopesAfter` counts the scopes that are open along a text; it has no value if
more than `maxDepth` are open at one point or one is closed that is not open. Reading never gets
that far: what is read before a problem opens and closes as many scopes as the reader has entered
(`Faulty`).
-/

namespace FieldRules

open Text Tag

/-! ## Open scopes -/

/-- The number of open scopes after a character. -/
def scopesStep (n : Nat) (c : Char) : Option Nat :=
  if c = '[' then if n < maxDepth then some (n + 1) else none
  else if c = ']' then if n = 0 then none else some (n - 1)
  else some n

/-- The number of open scopes after a text, from that before it. -/
def scopesAfter (n : Nat) (s : List Char) : Option Nat := s.foldlM scopesStep n

theorem scopesAfter_cons {m n : Nat} {c : Char} (h : scopesStep n c = some m) (s : List Char) :
    scopesAfter n (c :: s) = scopesAfter m s := by
  rw [scopesAfter, List.foldlM_cons, h]
  rfl

theorem scopesAfter_append {m n : Nat} {w : List Char} (h : scopesAfter n w = some m)
    (s : List Char) : scopesAfter n (w ++ s) = scopesAfter m s := by
  rw [scopesAfter] at h
  rw [scopesAfter, List.foldlM_append, h]
  rfl

theorem le_of_scopesAfter {m n : Nat} {s : List Char} (hn : n ≤ maxDepth)
    (h : scopesAfter n s = some m) : m ≤ maxDepth := by
  induction s generalizing n with
  | nil =>
    cases h
    exact hn
  | cons c s ih =>
    cases hstep : scopesStep n c with
    | none =>
      rw [scopesAfter, List.foldlM_cons, hstep] at h
      cases h
    | some k =>
      rw [scopesAfter_cons hstep] at h
      refine ih ?_ h
      rw [scopesStep] at hstep
      repeat' split at hstep
      all_goals cases hstep
      all_goals omega

/-- Along a text of which the scopes can be counted, at most `maxDepth` are open. -/
theorem exists_scopesAfter {m n : Nat} {s u : List Char} (hn : n ≤ maxDepth)
    (h : scopesAfter n s = some m) (hu : u <+: s) : ∃ k ≤ maxDepth, scopesAfter n u = some k := by
  obtain ⟨v, rfl⟩ := hu
  rw [scopesAfter, List.foldlM_append] at h
  obtain ⟨k, hk, -⟩ := Option.bind_eq_some_iff.mp h
  exact ⟨k, le_of_scopesAfter hn hk, hk⟩

/-- A text without brackets. -/
def Flat (s : List Char) : Prop := ∀ c ∈ s, c ≠ '[' ∧ c ≠ ']'

namespace Flat

theorem append {s t : List Char} (hs : Flat s) (ht : Flat t) : Flat (s ++ t) := by
  intro c hc
  rcases List.mem_append.mp hc with hc | hc
  · exact hs c hc
  · exact ht c hc

theorem cons {c : Char} {s : List Char} (hc : c ≠ '[' ∧ c ≠ ']') (hs : Flat s) : Flat (c :: s) :=
  List.forall_mem_cons.mpr ⟨hc, hs⟩

theorem of_blank {s : List Char} (h : Blank s) : Flat s := by
  intro c hc
  constructor <;> rintro rfl <;> exact absurd (h _ hc) (by decide)

theorem of_endsKey {s : List Char} (h : ∀ c ∈ s, endsKey c = false) : Flat s := by
  intro c hc
  constructor <;> rintro rfl <;> exact absurd (h _ hc) (by decide)

theorem of_endsParam {s : List Char} (h : ∀ c ∈ s, endsParam c = false) : Flat s := by
  intro c hc
  constructor <;> rintro rfl <;> exact absurd (h _ hc) (by decide)

theorem spelling (k : Key) : Flat k.spelling.toList :=
  of_endsKey fun c hc => (spelling_plain k c hc).2.1

theorem key {s : List Char} {k : Key} (h : WritesKey s k) : Flat s := by
  obtain ⟨u, v, hu, hv, rfl⟩ := h
  exact (of_blank hu).append ((spelling k).append (of_blank hv))

/-- Brackets alone open and close scopes. -/
theorem scopesAfter {s : List Char} (h : Flat s) (n : Nat) : scopesAfter n s = some n := by
  induction s with
  | nil => rfl
  | cons c s ih =>
    obtain ⟨hc, hs⟩ := List.forall_mem_cons.mp h
    rw [scopesAfter_cons (by rw [scopesStep, if_neg hc.1, if_neg hc.2])]
    exact ih hs

end Flat

mutual

/-- An entry closes the scopes that it opens. -/
theorem scopesAfter_of_writes {n d : Nat} {s : List Char} {t : Tag} (h : Writes n s t)
    (hd : d + n ≤ maxDepth) : scopesAfter d s = some d := by
  cases h with
  | flag _ hs => exact (Flat.key hs).scopesAfter d
  | param _ hs hu hp hv =>
    have hparam : Flat _ := fun c hc => (hp.plain c hc).2
    exact ((Flat.key hs).append (.cons (by decide)
      ((Flat.of_blank hu).append (hparam.append (Flat.of_blank hv))))).scopesAfter d
  | @scope n s _ a body ts b _ hs ha hts hb =>
    have hopen : Flat (s ++ '=' :: a) :=
      (Flat.key hs).append (.cons (by decide) (.of_blank ha.blank))
    have hbody := scopesAfter_of_writesAll hts (show d + 1 + n ≤ maxDepth by omega)
    have hclose : scopesAfter (d + 1) (']' :: b) = some d :=
      (scopesAfter_cons rfl b).trans ((Flat.of_blank hb.blank).scopesAfter d)
    have hstep : scopesStep d '[' = some (d + 1) := by
      rw [scopesStep, if_pos rfl, if_pos (by omega)]
    have hsplit : s ++ '=' :: (a ++ '[' :: (body ++ ']' :: b)) =
        (s ++ '=' :: a) ++ '[' :: (body ++ ']' :: b) := by
      rw [List.append_assoc, List.cons_append]
    rw [hsplit, scopesAfter_append (hopen.scopesAfter d), scopesAfter_cons hstep,
      scopesAfter_append hbody, hclose]

theorem scopesAfter_of_writesAll {n d : Nat} {s : List Char} {ts : List Tag}
    (h : WritesAll n s ts) (hd : d + n ≤ maxDepth) : scopesAfter d s = some d := by
  cases h with
  | last ht => exact scopesAfter_of_writes ht hd
  | cons ht hts =>
    rw [scopesAfter_append (scopesAfter_of_writes ht hd), scopesAfter_cons rfl]
    exact scopesAfter_of_writesAll hts hd

end

/-! ## Problems as statements -/

/-- An end of a key: the end of the text, or one of the characters after a key. -/
def KeyEnds (s : List Char) : Prop := ∀ c ∈ s.head?, endsKey c = true

/-- An end of an entry: the end of the text, a comma or a `]`. -/
def EntryEnds (s : List Char) : Prop := ∀ c ∈ s.head?, c = ',' ∨ c = ']'

/-- The key `k` stands at the beginning of a text, and `tail` comes after it. -/
def StandsAt (k : Key) (s tail : List Char) : Prop :=
  ∃ v, Blank v ∧ s = k.spelling.toList ++ (v ++ tail)

/-- What follows the `=` of a key is not a scope. -/
def NoScope (s : List Char) : Prop := (s.dropWhile isAsciiBlank).head? ≠ some '['

/-- A problem of a text that is split at the place of the problem; `scopes` are open there. -/
def Problem.Holds (before after : List Char) (scopes : Nat) : Problem → Prop
  -- There is no key where an entry begins.
  | .emptyKey => KeyEnds after
  | .trailingSeparator =>
    ∃ a tail, AsciiBlank a ∧ after = ',' :: (a ++ tail) ∧ ∀ c ∈ tail.head?, c = ']'
  | .unclosedBracket => after = [] ∧ 0 < scopes
  | .unexpectedCharacter c => after.head? = some c
  | .unknownKey name =>
    name ≠ "" ∧ trim name.toList = name.toList ∧ Key.ofSpelling? name = none ∧
      ∃ v tail, Blank v ∧ KeyEnds tail ∧ after = name.toList ++ (v ++ tail)
  -- The key is bare, or the parameter after its `=` is empty.
  | .missingParameter k => k.shape = .param ∧
    ((∃ tail, StandsAt k after tail ∧ EntryEnds tail) ∨
      ∃ x y u, before = x ++ y ∧ StandsAt k y ('=' :: u) ∧ Blank u ∧ EntryEnds after)
  | .unexpectedParameter k =>
    k.shape = .flag ∧ ∃ tail, StandsAt k after ('=' :: tail) ∧ NoScope tail
  -- The key is bare, or there is no `[` after its `=`.
  | .expectedScope k => k.shape = .scope ∧ ∃ tail, StandsAt k after tail ∧
    (EntryEnds tail ∨ ∃ param, tail = '=' :: param ∧ NoScope param)
  | .unexpectedScope k => k.shape ≠ .scope ∧
    ∃ a tail, AsciiBlank a ∧ StandsAt k after ('=' :: (a ++ '[' :: tail))
  | .tooDeep => after.head? = some '[' ∧ scopes = maxDepth

theorem Problem.Holds.prepend {before after : List Char} {scopes : Nat} {p : Problem}
    (h : p.Holds before after scopes) (x : List Char) : p.Holds (x ++ before) after scopes := by
  cases p
  case missingParameter k =>
    obtain ⟨hk, hbare | ⟨y, z, u, rfl, hrest⟩⟩ := h
    · exact ⟨hk, .inl hbare⟩
    · exact ⟨hk, .inr ⟨x ++ y, z, u, (List.append_assoc x y z).symm, hrest⟩⟩
  all_goals exact h

/-- The fault of a text that begins inside `n` scopes: its problem holds where the rest of the text
begins. -/
def Faulty (n : Nat) (s : List Char) (f : Fault) : Prop :=
  ∃ w m, s = w ++ f.rest ∧ scopesAfter n w = some m ∧ f.problem.Holds w f.rest m

namespace Faulty

variable {n m : Nat} {s w r : List Char} {f : Fault}

theorem prepend (hw : scopesAfter n w = some m) (h : Faulty m r f) : Faulty n (w ++ r) f := by
  obtain ⟨w', m', rfl, hw', hholds⟩ := h
  refine ⟨w ++ w', m', (List.append_assoc _ _ _).symm, ?_, hholds.prepend w⟩
  rw [scopesAfter_append hw]
  exact hw'

/-- A fault after a text without brackets. -/
theorem of_flat (hw : Flat w) {p : Problem} (hp : p.Holds w r n) : Faulty n (w ++ r) ⟨p, r⟩ :=
  ⟨w, n, rfl, hw.scopesAfter n, hp⟩

/-- A fault of the text as a whole. -/
theorem here {p : Problem} (hp : p.Holds [] s n) : Faulty n s ⟨p, s⟩ :=
  of_flat (w := []) (fun _ hc => nomatch hc) hp

end Faulty

/-! ## Faults of entries -/

variable {depth : Nat} {k : Key} {s rest : List Char} {f : Fault}

/-- What is blank at the beginning of a text without blanks there is nothing. -/
theorem takeWhile_eq_nil {p : Char → Bool} (h : trimEnd ((trimStart s).takeWhile p) = []) :
    (trimStart s).takeWhile p = [] := by
  obtain ⟨b, hb, htake⟩ := trimEnd_append_blank ((trimStart s).takeWhile p)
  rw [h, List.nil_append] at htake
  have hhead := head?_dropWhile_false isBlank s
  rw [← trimStart] at hhead
  rw [← htake]
  cases b with
  | nil => rfl
  | cons c b =>
    have hfirst : (trimStart s).head? = some c := by
      rw [← List.takeWhile_append_dropWhile (p := p) (l := trimStart s), ← htake]
      rfl
    have hblank := hhead c hfirst
    rw [hb c List.mem_cons_self] at hblank
    cases hblank

/-- How an entry begins: without a key, with one that is unknown, or with one that is known. -/
theorem readEntry_cases (depth : Nat) (s : List Char) :
    (∃ u start, Blank u ∧ s = u ++ start ∧ KeyEnds start ∧
      readEntry depth s = .error ⟨.emptyKey, start⟩) ∨
    ∃ u name v rest, Blank u ∧ Blank v ∧ KeyEnds rest ∧ s = u ++ (name.toList ++ (v ++ rest)) ∧
      ((name ≠ "" ∧ trim name.toList = name.toList ∧ Key.ofSpelling? name = none ∧
        readEntry depth s = .error ⟨.unknownKey name, name.toList ++ (v ++ rest)⟩) ∨
      ∃ k : Key, k.spelling = name ∧
        readEntry depth s = readAfterKey depth k (name.toList ++ (v ++ rest)) rest) := by
  obtain ⟨u, hu, hs⟩ := exists_dropWhile isBlank s
  rw [← trimStart] at hs
  have hsplit := List.takeWhile_append_dropWhile (p := (!endsKey ·)) (l := trimStart s)
  have hends : KeyEnds ((trimStart s).dropWhile (!endsKey ·)) := by
    intro c hc
    have := head?_dropWhile_false (!endsKey ·) (trimStart s) c hc
    rwa [Bool.not_eq_false'] at this
  rw [readEntry]
  by_cases hempty : trimEnd ((trimStart s).takeWhile (!endsKey ·)) = []
  · rw [takeWhile_eq_nil hempty, List.nil_append] at hsplit
    rw [hsplit] at hends
    refine .inl ⟨u, trimStart s, hu, hs, hends, ?_⟩
    rw [if_pos (List.isEmpty_iff.mpr hempty)]
  · obtain ⟨v, hv, hname⟩ := trimEnd_append_blank ((trimStart s).takeWhile (!endsKey ·))
    have hlast := getLast?_trimEnd ((trimStart s).takeWhile (!endsKey ·))
    rw [if_neg (mt List.isEmpty_iff.mp hempty)]
    generalize trimEnd ((trimStart s).takeWhile (!endsKey ·)) = name at hname hlast hempty ⊢
    generalize (trimStart s).dropWhile (!endsKey ·) = rest at hsplit hends ⊢
    rw [← hname, List.append_assoc] at hsplit
    refine .inr ⟨u, String.ofList name, v, rest, hu, hv, hends, ?_, ?_⟩
    all_goals rw [String.toList_ofList, hsplit]
    · exact hs
    · cases hkey : Key.ofSpelling? (String.ofList name) with
      | none =>
        have hfirst : ∀ c ∈ name.head?, isBlank c = false := by
          intro c hc
          refine head?_dropWhile_false isBlank s c ?_
          obtain ⟨d, q, rfl⟩ := List.exists_cons_of_ne_nil hempty
          rw [← trimStart, ← hsplit]
          exact hc
        exact .inl ⟨by simpa using hempty, trim_eq_self_iff.mpr ⟨hfirst, hlast⟩, rfl, rfl⟩
      | some k => exact .inr ⟨k, Key.spelling_of_ofSpelling? hkey, rfl⟩

/-- A parameter ends with its entry, or at a `[`. -/
theorem entryEnds_of_param (h : (s.dropWhile (!endsParam ·)).head? ≠ some '[') :
    EntryEnds (s.dropWhile (!endsParam ·)) := by
  intro c hc
  have hend := head?_dropWhile_false (!endsParam ·) s c hc
  rw [Bool.not_eq_false'] at hend
  simp only [endsParam, Bool.or_eq_true, decide_eq_true_eq] at hend
  rcases hend with (rfl | rfl) | rfl
  · exact .inl rfl
  · exact absurd hc h
  · exact .inr rfl

/-- The fault of a key with an `=` and no scope. -/
theorem faulty_of_readParam {v r : List Char} (hv : Blank v) (hnone : NoScope r)
    (h : readParam k (k.spelling.toList ++ (v ++ '=' :: r)) (r.dropWhile isAsciiBlank) =
      .error f) :
    Faulty depth (k.spelling.toList ++ (v ++ '=' :: r)) f := by
  have hkey : StandsAt k (k.spelling.toList ++ (v ++ '=' :: r)) ('=' :: r) := ⟨v, hv, rfl⟩
  obtain ⟨a, ha, hr⟩ := exists_dropWhile isAsciiBlank r
  obtain ⟨b, hb, hbody⟩ := exists_dropWhile isBlank (r.dropWhile isAsciiBlank)
  have hu : Blank (a ++ b) := (AsciiBlank.blank ha).append hb
  have hw : Flat (k.spelling.toList ++ (v ++ '=' :: (a ++ b))) :=
    (Flat.spelling k).append ((Flat.of_blank hv).append (.cons (by decide) (.of_blank hu)))
  have htext : k.spelling.toList ++ (v ++ '=' :: r) =
      k.spelling.toList ++ (v ++ '=' :: (a ++ b)) ++ trimStart (r.dropWhile isAsciiBlank) := by
    conv => lhs; rw [hr, hbody, ← trimStart]
    simp only [List.append_assoc, List.cons_append]
  have hsplit := List.takeWhile_append_dropWhile (p := (!endsParam ·))
    (l := trimStart (r.dropWhile isAsciiBlank))
  have htake : Flat ((trimStart (r.dropWhile isAsciiBlank)).takeWhile (!endsParam ·)) := by
    refine .of_endsParam fun c hc => ?_
    have := List.all_eq_true.mp List.all_takeWhile c hc
    rwa [Bool.not_eq_true'] at this
  rw [readParam] at h
  split at h
  next hopen =>
    cases h
    have hfault := Faulty.of_flat (n := depth) (hw.append htake)
      (show Problem.Holds _ _ depth (.unexpectedCharacter '[') from hopen)
    rw [List.append_assoc, hsplit, ← htext] at hfault
    exact hfault
  next hopen =>
    split at h
    next hk =>
      cases h
      exact .here ⟨hk, r, hkey, hnone⟩
    next hk =>
      cases h
      exact .here ⟨hk, '=' :: r, hkey, .inr ⟨r, rfl, hnone⟩⟩
    next hk =>
      split at h
      next hempty =>
        cases h
        rw [takeWhile_eq_nil (List.isEmpty_iff.mp hempty), List.nil_append] at hsplit
        have hends := entryEnds_of_param hopen
        rw [hsplit] at hends
        rw [htext]
        exact .of_flat hw ⟨hk, .inr ⟨[], _, a ++ b, rfl, ⟨v, hv, rfl⟩, hu, hends⟩⟩
      next => cases h

/-- The fault of a key with an `=` and the `[` of a scope. -/
theorem faulty_of_readScope {v a body : List Char} (hv : Blank v) (ha : AsciiBlank a)
    (hd : depth ≤ maxDepth)
    (h : readScope depth k (k.spelling.toList ++ (v ++ '=' :: (a ++ '[' :: body))) body =
      .error f) :
    Faulty depth (k.spelling.toList ++ (v ++ '=' :: (a ++ '[' :: body))) f := by
  rw [readScope] at h
  split at h
  next hk =>
    cases h
    exact .here ⟨hk, a, body, ha, v, hv, rfl⟩
  next =>
    split at h
    next hdeep =>
      cases h
      have hflat : Flat (k.spelling.toList ++ (v ++ '=' :: a)) :=
        (Flat.spelling k).append
          ((Flat.of_blank hv).append (.cons (by decide) (.of_blank (AsciiBlank.blank ha))))
      have htext : k.spelling.toList ++ (v ++ '=' :: (a ++ '[' :: body)) =
          k.spelling.toList ++ (v ++ '=' :: a) ++ '[' :: body := by
        simp only [List.append_assoc, List.cons_append]
      rw [htext]
      exact .of_flat hflat ⟨rfl, Nat.le_antisymm hd hdeep⟩
    next => cases h

/-- The fault of a key without an `=`. -/
theorem faulty_of_readBare (hstands : StandsAt k s rest) (hentry : EntryEnds rest)
    (h : readBare k s rest = .error f) : Faulty depth s f := by
  rw [readBare] at h
  split at h
  next => cases h
  next hk =>
    cases h
    exact .here ⟨hk, .inl ⟨rest, hstands, hentry⟩⟩
  next hk =>
    cases h
    exact .here ⟨hk, rest, hstands, .inl hentry⟩

/-- The fault of a key that stands where it should. -/
theorem faulty_of_readAfterKey {v : List Char} (hv : Blank v) (hends : KeyEnds rest)
    (hd : depth ≤ maxDepth)
    (h : readAfterKey depth k (k.spelling.toList ++ (v ++ rest)) rest = .error f) :
    Faulty depth (k.spelling.toList ++ (v ++ rest)) f := by
  unfold readAfterKey at h
  split at h
  next r =>
    cases h
    rw [← List.append_assoc]
    exact .of_flat ((Flat.spelling k).append (.of_blank hv)) rfl
  next r =>
    split at h
    next body hbody =>
      obtain ⟨a, ha, hr⟩ := exists_dropWhile isAsciiBlank r
      rw [hbody] at hr
      subst hr
      exact faulty_of_readScope hv ha hd h
    next hnone =>
      refine faulty_of_readParam hv (fun hopen => ?_) h
      obtain ⟨body, hbody⟩ := List.head?_eq_some_iff.mp hopen
      exact hnone body hbody
  next hopen hequals =>
    have hentry : EntryEnds rest := by
      intro c hc
      obtain ⟨r, rfl⟩ := List.head?_eq_some_iff.mp hc
      have hend := hends c rfl
      simp only [endsKey, Bool.or_eq_true, decide_eq_true_eq] at hend
      rcases hend with ((rfl | rfl) | rfl) | rfl
      · exact (hequals _ rfl).elim
      · exact .inl rfl
      · exact (hopen _ rfl).elim
      · exact .inr rfl
    exact faulty_of_readBare ⟨v, hv, rfl⟩ hentry h

theorem faulty_of_readEntry (hd : depth ≤ maxDepth) (h : readEntry depth s = .error f) :
    Faulty depth s f := by
  rcases readEntry_cases depth s with ⟨u, start, hu, rfl, hends, hread⟩ |
    ⟨u, name, v, rest, hu, hv, hends, rfl, ⟨hne, htrim, hnone, hread⟩ | ⟨k, rfl, hread⟩⟩
  all_goals
    rw [hread] at h
    refine .prepend ((Flat.of_blank hu).scopesAfter depth) ?_
  · cases h
    exact .here hends
  · cases h
    exact .here ⟨hne, htrim, hnone, v, rest, hv, hends, rfl⟩
  · exact faulty_of_readAfterKey hv hends hd h

/-! ## Faults of lists -/

/-- Where an entry is followed by what cannot follow it. -/
theorem faulty_of_readNext (h : readNext depth s = .error f) : Faulty depth s f := by
  obtain ⟨a, ha, hs⟩ := exists_dropWhile isAsciiBlank s
  have hblank : Flat a := .of_blank (AsciiBlank.blank ha)
  rw [hs]
  refine .prepend (hblank.scopesAfter depth) ?_
  rw [readNext] at h
  split at h
  next hend =>
    split at h
    next => cases h
    next hdepth =>
      cases h
      rw [hend]
      exact .here ⟨rfl, Nat.pos_of_ne_zero hdepth⟩
  next r hcomma =>
    obtain ⟨b, hb, hr⟩ := exists_dropWhile isAsciiBlank r
    split at h
    next hend =>
      cases h
      rw [hcomma]
      refine .here ⟨b, [], hb, ?_, fun d hd => ?_⟩
      · rw [← hend, ← hr]
      · cases hd
    next c t hnext =>
      split at h
      next hc =>
        cases h
        rw [hcomma]
        refine .here ⟨b, c :: t, hb, ?_, fun d hd => Option.some.inj hd ▸ hc⟩
        rw [← hnext, ← hr]
      next => cases h
  next c r _ hrest =>
    split at h
    next => cases h
    next =>
      cases h
      rw [hrest]
      exact .here rfl

/-- The text `s` leads to the rest `r`, and from `n` open scopes to `m`. -/
def Leads (n : Nat) (s : List Char) (m : Nat) (r : List Char) : Prop :=
  ∃ w, s = w ++ r ∧ scopesAfter n w = some m

theorem Leads.faulty {n m : Nat} {r : List Char} (h : Leads n s m r) (hf : Faulty m r f) :
    Faulty n s f := by
  obtain ⟨w, rfl, hw⟩ := h
  exact hf.prepend hw

theorem leads_of_opens {body : List Char} (h : readEntry depth s = .ok (.opens k body)) :
    depth < maxDepth ∧ Leads depth s (depth + 1) body := by
  obtain ⟨w, a, hw, ha, -, hd, rfl⟩ := exists_scope_of_opens h
  have hflat : Flat (w ++ '=' :: a) := (Flat.key hw).append (.cons (by decide) (.of_blank ha.blank))
  refine ⟨hd, (w ++ '=' :: a) ++ ['['], ?_, ?_⟩
  · simp only [List.append_assoc, List.cons_append, List.nil_append]
  · rw [scopesAfter_append (hflat.scopesAfter depth)]
    refine scopesAfter_cons ?_ []
    rw [scopesStep, if_pos rfl, if_pos hd]

/-- An entry leads to what follows it, in the scope that it stands in. -/
theorem leads_of_firstEntry {r : List Char} {t : Tag} (hd : depth ≤ maxDepth)
    (h : firstEntry depth s = .ok (t, r)) : Leads depth s depth r := by
  rcases firstEntry_eq_ok h with hwhole | ⟨k, body, ts, hopens, hentries, -⟩
  · obtain ⟨w, hw, rfl⟩ := exists_writes_of_whole 0 hwhole
    exact ⟨w, rfl, scopesAfter_of_writes hw hd⟩
  · obtain ⟨hlt, w, rfl, hw⟩ := leads_of_opens hopens
    obtain ⟨b, tail, hts, rfl, ⟨hzero, -⟩ | ⟨-, rfl⟩⟩ :=
      exists_writesAll_of_entries (show depth + 1 ≤ maxDepth from hlt) hentries
    · cases hzero
    · refine ⟨w ++ (b ++ [']']), ?_, ?_⟩
      · simp only [List.append_assoc, List.cons_append, List.nil_append]
      · rw [scopesAfter_append hw, scopesAfter_append (scopesAfter_of_writesAll hts (by omega))]
        exact scopesAfter_cons rfl []

theorem leads_of_readNext {r : List Char} (h : readNext depth s = .ok (.entry r)) :
    Leads depth s depth r := by
  obtain ⟨a, b, ha, hb, rfl⟩ := exists_comma_of_readNext h
  have hflat : Flat (a ++ ',' :: b) :=
    (Flat.of_blank ha.blank).append (.cons (by decide) (.of_blank hb.blank))
  refine ⟨a ++ ',' :: b, ?_, hflat.scopesAfter depth⟩
  rw [List.append_assoc, List.cons_append]

theorem firstEntry_eq_error (h : firstEntry depth s = .error f) :
    readEntry depth s = .error f ∨
      ∃ k body, readEntry depth s = .ok (.opens k body) ∧ entries (depth + 1) body = .error f := by
  rw [firstEntry] at h
  split at h
  next he =>
    cases h
    exact .inl he
  next => cases h
  next k body he =>
    cases hb : entries (depth + 1) body with
    | error g =>
      rw [hb] at h
      cases h
      exact .inr ⟨k, body, he, hb⟩
    | ok p =>
      rw [hb] at h
      cases h

/-- A list fails in its first entry, behind it, or in a later one. -/
theorem entries_eq_error (h : entries depth s = .error f) :
    firstEntry depth s = .error f ∨ ∃ t r, firstEntry depth s = .ok (t, r) ∧
      (readNext depth r = .error f ∨
        ∃ r', readNext depth r = .ok (.entry r') ∧ entries depth r' = .error f) := by
  rw [entries_eq] at h
  split at h
  next hf =>
    cases h
    exact .inl hf
  next t r hf =>
    refine .inr ⟨t, r, hf, ?_⟩
    rw [entriesAfter] at h
    split at h
    next hn =>
      cases h
      exact .inl hn
    next => cases h
    next r' hn =>
      cases hr : entries depth r' with
      | error g =>
        rw [hr] at h
        cases h
        exact .inr ⟨r', hn, hr⟩
      | ok p =>
        rw [hr] at h
        cases h

theorem length_lt_of_firstEntry {r : List Char} {t : Tag} (h : firstEntry depth s = .ok (t, r)) :
    r.length < s.length := by
  rcases firstEntry_eq_ok h with hwhole | ⟨k, body, ts, hopens, hentries, -⟩
  · exact length_lt_of_readEntry hwhole
  · have hbody := length_lt_of_readEntry hopens
    rw [entries] at hentries
    cases hread : readEntries (depth + 1) body with
    | error g =>
      rw [hread] at hentries
      cases hentries
    | ok p =>
      rw [hread] at hentries
      cases hentries
      exact Nat.lt_trans p.2.2 hbody

/-- **What is reported of a list is true.** -/
theorem faulty_of_entries (hd : depth ≤ maxDepth) (h : entries depth s = .error f) :
    Faulty depth s f := by
  generalize hlen : s.length = len
  induction len using Nat.strongRecOn generalizing depth s with
  | ind len ih =>
  subst hlen
  rcases entries_eq_error h with hfirst | ⟨t, r, hfirst, hrest⟩
  · rcases firstEntry_eq_error hfirst with hread | ⟨k, body, hopens, hbody⟩
    · exact faulty_of_readEntry hd hread
    · obtain ⟨hlt, hleads⟩ := leads_of_opens hopens
      exact hleads.faulty (ih _ (length_lt_of_readEntry hopens) hlt hbody rfl)
  · refine (leads_of_firstEntry hd hfirst).faulty ?_
    rcases hrest with hnext | ⟨r', hnext, hlater⟩
    · exact faulty_of_readNext hnext
    · have hlt := Nat.lt_of_le_of_lt (length_le_of_readNext hnext) (length_lt_of_firstEntry hfirst)
      exact (leads_of_readNext hnext).faulty (ih _ hlt hd hlater rfl)

/-! ## Errors of annotations -/

/-- An annotation that is read closes the scopes that it opens. -/
theorem scopesAfter_of_parse {input : String} {ts : List Tag} (h : parse input = .ok ts) :
    scopesAfter 0 input.toList = some 0 := by
  rcases writesAll_of_parse h with ⟨hblank, -⟩ | hts
  · exact (Flat.of_blank hblank.blank).scopesAfter 0
  · exact scopesAfter_of_writesAll hts (Nat.le_refl _)

namespace Tag

theorem byteLength_append (u s : List Char) :
    byteLength (u ++ s) = byteLength u + byteLength s := by
  induction u with
  | nil => exact (Nat.zero_add _).symm
  | cons c u ih =>
    rw [List.cons_append, byteLength, List.foldr_cons, ← byteLength, ih, ← Nat.add_assoc]
    rfl

end Tag

/-- An error quotes the annotation and is located between two characters of it. -/
theorem faulty_of_parse {input : String} {e : ParseError} (h : parse input = .error e) :
    e.input = input ∧ ∃ before after scopes, input.toList = before ++ after ∧
      e.position = byteLength before ∧ scopesAfter 0 before = some scopes ∧
        e.problem.Holds before after scopes := by
  rw [parse_eq] at h
  split at h
  next => cases h
  next =>
    split at h
    next => cases h
    next f hf =>
      cases h
      obtain ⟨before, scopes, hsplit, hscopes, hholds⟩ := faulty_of_entries (Nat.zero_le _) hf
      refine ⟨rfl, before, f.rest, scopes, hsplit, ?_, hscopes, hholds⟩
      dsimp only
      rw [hsplit, byteLength_append]
      omega

end FieldRules
