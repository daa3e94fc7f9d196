import FieldRules.Proofs.Tag.Reading

/-!
# Printing and reading are inverse

`Tag.text` writes a tag without blanks. A tag is `Canonical` if an annotation can denote it: every
key in it is written in its own shape, no scope is empty, and every parameter is a text that
neither ends early nor loses a blank when it is read.

* What is printed for canonical tags is an annotation of the grammar that denotes them
  (`writesAll_of_canonical`), so that it is read as these tags again.
* Whatever an annotation denotes is canonical (`canonical_of_writes`).

The two together are `parse_texts`: reading is onto the canonical tags, and printing chooses one of
the annotations that denote them.
-/

namespace FieldRules.Tag

open Text

/-! ## Canonical tags -/

/-- `Canonical n t`: annotations can denote the tag `t`, with at most `n` scopes inside one
another. -/
inductive Canonical : Nat → Tag → Prop
  | flag {n k} (hk : k.shape = .flag) : Canonical n (.simple k none)
  /-- A key with a parameter that is not cut off or trimmed. -/
  | param {n k p} (hk : k.shape = .param) (hne : p ≠ "")
    (hplain : ∀ c ∈ p.toList, c ≠ ',' ∧ c ≠ '[' ∧ c ≠ ']') (htrim : trim p.toList = p.toList) :
    Canonical n (.simple k (some p))
  | scope {n k ts} (hk : k.shape = .scope) (hne : ts ≠ []) (hts : ∀ t ∈ ts, Canonical n t) :
    Canonical (n + 1) (.scope k ts)

/-- Trimming leaves exactly the texts that have no blank at either end. -/
theorem trim_eq_self_iff {p : List Char} :
    trim p = p ↔ (∀ c ∈ p.head?, isBlank c = false) ∧ ∀ c ∈ p.getLast?, isBlank c = false := by
  constructor
  · intro h
    refine ⟨fun c hc => ?_, fun c hc => ?_⟩
    · obtain ⟨b, -, hb⟩ := trimEnd_append_blank (trimStart p)
      have hp : trimStart p = p ++ b := by rw [← hb, ← trim, h]
      refine head?_dropWhile_false isBlank p c ?_
      rw [← trimStart, hp, List.head?_append, Option.mem_def.mp hc]
      rfl
    · have hlast := getLast?_trimEnd (trimStart p)
      rw [← trim, h] at hlast
      exact hlast c hc
  · rintro ⟨hhead, hlast⟩
    have hstart : trimStart p = p := dropWhile_append_of_head (u := []) (by simp) hhead
    rw [trim, hstart, trimEnd_eq_self hlast]

/-- The parameters of canonical tags are those of the grammar. -/
theorem isParam_iff {p : List Char} :
    IsParam p ↔ p ≠ [] ∧ (∀ c ∈ p, c ≠ ',' ∧ c ≠ '[' ∧ c ≠ ']') ∧ trim p = p := by
  constructor
  · intro h
    exact ⟨h.ne_nil, h.plain, trim_eq_self_iff.mpr ⟨h.head, h.last⟩⟩
  · rintro ⟨hne, hplain, htrim⟩
    obtain ⟨hhead, hlast⟩ := trim_eq_self_iff.mp htrim
    exact ⟨hne, hplain, hhead, hlast⟩

/-! ## Printed tags are annotations -/

theorem writesKey_spelling (k : Key) : WritesKey k.spelling.toList k :=
  ⟨[], [], .nil, .nil, by simp⟩

theorem writesAll_texts {n : Nat} {ts : List Tag} (hne : ts ≠ [])
    (h : ∀ t ∈ ts, Writes n t.text.toList t) : WritesAll n (texts ts).toList ts := by
  induction ts with
  | nil => exact absurd rfl hne
  | cons t ts ih =>
    have ht : Writes n t.text.toList t := h t List.mem_cons_self
    cases ts with
    | nil => exact .last ht
    | cons u us =>
      have hrest : WritesAll n (texts (u :: us)).toList (u :: us) :=
        ih (by simp) fun v hv => h v (List.mem_cons_of_mem t hv)
      have htext : (texts (t :: u :: us)).toList =
          t.text.toList ++ ',' :: (texts (u :: us)).toList := by
        simp [texts]
      rw [htext]
      exact .cons ht hrest

/-- What is printed for a canonical tag denotes it. -/
theorem writes_of_canonical {n : Nat} {t : Tag} (h : Canonical n t) : Writes n t.text.toList t := by
  induction h with
  | @flag n k hk => exact .flag hk (writesKey_spelling k)
  | @param n k p hk hne hplain htrim =>
    have hp : IsParam p.toList := isParam_iff.mpr ⟨by simpa using hne, hplain, htrim⟩
    have hw := Writes.param (n := n) hk (writesKey_spelling k) .nil hp .nil
    have htext : (text (.simple k (some p))).toList =
        k.spelling.toList ++ '=' :: ([] ++ (p.toList ++ [])) := by
      simp [text]
    rw [htext]
    simpa using hw
  | @scope n k ts hk hne hts ih =>
    have hw := Writes.scope hk (writesKey_spelling k) .nil (writesAll_texts hne ih) .nil
    have htext : (text (.scope k ts)).toList =
        k.spelling.toList ++ '=' :: ([] ++ '[' :: ((texts ts).toList ++ [']'])) := by
      simp [text]
    rw [htext]
    exact hw

theorem writesAll_of_canonical {n : Nat} {ts : List Tag} (hne : ts ≠ [])
    (h : ∀ t ∈ ts, Canonical n t) : WritesAll n (texts ts).toList ts :=
  writesAll_texts hne fun t ht => writes_of_canonical (h t ht)

/-- Printed tags are read as these tags. -/
theorem parse_texts_of_canonical {ts : List Tag} (h : ∀ t ∈ ts, Canonical maxDepth t) :
    parse (texts ts) = .ok ts := by
  by_cases hne : ts = []
  · subst hne
    exact parse_of_blank .nil
  · exact parse_of_writesAll (writesAll_of_canonical hne h)

/-! ## Annotations denote canonical tags -/

mutual

/-- Whatever an entry denotes is canonical. -/
theorem canonical_of_writes {n : Nat} {s : List Char} {t : Tag} (h : Writes n s t) :
    Canonical n t := by
  match h with
  | .flag hk hs => exact .flag hk
  | .param hk hs hu hp hv =>
    obtain ⟨hne, hplain, htrim⟩ := isParam_iff.mp hp
    refine .param hk ?_ ?_ ?_
    · simpa using hne
    · simpa using hplain
    · simpa using htrim
  | .scope hk hs ha hts hb =>
    obtain ⟨hne, hall⟩ := canonical_of_writesAll hts
    exact .scope hk hne hall

/-- A list of entries denotes at least one tag, and canonical ones. -/
theorem canonical_of_writesAll {n : Nat} {s : List Char} {ts : List Tag} (h : WritesAll n s ts) :
    ts ≠ [] ∧ ∀ t ∈ ts, Canonical n t := by
  match h with
  | .last ht => exact ⟨by simp, by simpa using canonical_of_writes ht⟩
  | .cons ht hts =>
    obtain ⟨-, hrest⟩ := canonical_of_writesAll hts
    exact ⟨by simp, List.forall_mem_cons.mpr ⟨canonical_of_writes ht, hrest⟩⟩

end

theorem canonical_of_parse {input : String} {ts : List Tag} (h : parse input = .ok ts) :
    ∀ t ∈ ts, Canonical maxDepth t := by
  rcases writesAll_of_parse h with ⟨-, rfl⟩ | hts
  · simp
  · exact (canonical_of_writesAll hts).2

/-! ## Printing and reading -/

/-- The tags of a list are printed one by one, with commas between them. -/
theorem texts_eq_intercalate (ts : List Tag) : texts ts = ",".intercalate (ts.map text) := by
  induction ts with
  | nil => rfl
  | cons t ts ih =>
    cases ts with
    | nil => simp [texts]
    | cons u us =>
      rw [texts, ih, List.map_cons, List.map_cons, List.map_cons, String.intercalate_cons_cons]

/-- **Printing and reading are inverse.** Canonical tags are read back from their texts, joined by
commas. Whatever is read from an annotation is canonical, and is read again from what is printed for
it; so printing what is read changes an annotation at most once. -/
theorem parse_texts :
    (∀ ts : List Tag, (∀ t ∈ ts, Canonical maxDepth t) →
      parse (",".intercalate (ts.map text)) = .ok ts) ∧
    (∀ input ts, parse input = .ok ts → (∀ t ∈ ts, Canonical maxDepth t) ∧
      parse (",".intercalate (ts.map text)) = .ok ts) ∧
    ∀ input printed, (parse input).map texts = .ok printed →
      (parse printed).map texts = .ok printed := by
  have hback : ∀ ts : List Tag, (∀ t ∈ ts, Canonical maxDepth t) →
      parse (",".intercalate (ts.map text)) = .ok ts := by
    intro ts hts
    rw [← texts_eq_intercalate]
    exact parse_texts_of_canonical hts
  refine ⟨hback, fun input ts h => ?_, fun input printed h => ?_⟩
  · have hts := canonical_of_parse h
    exact ⟨hts, hback ts hts⟩
  · cases hp : parse input with
    | error e => rw [hp] at h; cases h
    | ok ts =>
      rw [hp] at h
      cases h
      rw [parse_texts_of_canonical (canonical_of_parse hp)]
      rfl

/-- Two chains: one with an `=`, inside two scopes, and one with a blank between its words. -/
def spacedTags : List Tag :=
  [.scope .value [.scope .item [.simple .nullable none, .simple .func (some ".a;b=c")]],
    .simple .func (some "x\u2003y")]

theorem parse_texts_spacedTags :
    (∀ t ∈ spacedTags, Canonical maxDepth t) ∧
      parse (",".intercalate (spacedTags.map text)) = .ok spacedTags ∧
      (parse "value=[item=[nullable,func=.a;b=c]],func=x\u2003y").map texts =
        .ok "value=[item=[nullable,func=.a;b=c]],func=x\u2003y" := by
  have hchain : Canonical 14 (.simple .func (some ".a;b=c")) :=
    .param rfl (by simp) (by simp) (by decide +kernel)
  have hcall : Canonical maxDepth (.simple .func (some "x\u2003y")) :=
    .param rfl (by simp) (by simp) (by decide +kernel)
  have hcanonical : ∀ t ∈ spacedTags, Canonical maxDepth t := by
    intro t ht
    rcases List.mem_cons.mp ht with rfl | ht
    · refine .scope rfl (by simp) (List.forall_mem_singleton.mpr ?_)
      refine .scope rfl (by simp) (List.forall_mem_cons.mpr ⟨.flag rfl, ?_⟩)
      exact List.forall_mem_singleton.mpr hchain
    · rw [List.mem_singleton.mp ht]
      exact hcall
  have hread := parse_texts.1 spacedTags hcanonical
  have hprinted : ",".intercalate (spacedTags.map text) =
      "value=[item=[nullable,func=.a;b=c]],func=x\u2003y" := by decide +kernel
  refine ⟨hcanonical, hread, ?_⟩
  rw [hprinted] at hread
  exact parse_texts.2.2 _ _ (by rw [hread]; rfl)

end FieldRules.Tag
