import FieldRules.Proofs.Derive.Expansion

/-!
# Several annotations and one

Annotations may be written as several attributes or, joined by commas, as one. Lists of entries that
are joined by a comma are a list of entries (`Tag.WritesAll.append`), so that a joined text is read
as all tags of its parts, and a tree takes them as it takes the parts one after the other
(`Draft.taking_joined`). Blank annotations have no tags at all.
-/

namespace FieldRules

open Attribute (problems literals skipWords texts)

/-! ## Joined texts -/

namespace Tag

/-- Lists of entries can be joined by a comma. -/
theorem WritesAll.append {n : Nat} {a b : List Char} {ts us : List Tag} (ha : WritesAll n a ts)
    (hb : WritesAll n b us) : WritesAll n (a ++ ',' :: b) (ts ++ us) := by
  induction ts generalizing a with
  | nil => cases ha
  | cons t ts ih =>
    cases ha with
    | last ht => exact .cons ht hb
    | cons ht hts =>
      rw [List.append_assoc, List.cons_append, List.cons_append]
      exact .cons ht (ih hts)

/-- A text that is read and is not blank is a list of entries. -/
theorem writesAll_of_not_blank {text : String} {ts : List Tag} (hblank : ¬ AsciiBlank text.toList)
    (h : parse text = .ok ts) : WritesAll maxDepth text.toList ts :=
  (writesAll_of_parse h).resolve_left fun hb => hblank hb.1

theorem toList_join (a b : String) : (a ++ "," ++ b).toList = a.toList ++ ',' :: b.toList := by
  simp

end Tag

namespace Draft

open Tag

theorem annotated?_of_writesAll {text : String} {ts : List Tag}
    (h : WritesAll maxDepth text.toList ts) (d : Draft) : d.annotated? text = d.accept ts :=
  annotated?_of_ok (parse_of_writesAll h) d

/-- Blank annotations change nothing. -/
theorem annotated?_of_blank {text : String} (h : AsciiBlank text.toList) (d : Draft) :
    d.annotated? text = some d := by
  rw [annotated?_of_ok (parse_of_blank h), accept_nil]

theorem taking_of_blank {texts : List String} (h : ∀ text ∈ texts, AsciiBlank text.toList)
    (d : Draft) : d.taking texts = some d := by
  induction texts with
  | nil => rfl
  | cons text texts ih =>
    obtain ⟨hblank, hblanks⟩ := List.forall_mem_cons.mp h
    rw [taking_cons, annotated?_of_blank hblank, Option.bind_some, ih hblanks]

/-- Joined texts are a list of entries, with the tags that the texts have one after the other. -/
theorem exists_writesAll_joined {texts : List String} (hne : texts ≠ [])
    (h : ∀ text ∈ texts, ¬ AsciiBlank text.toList ∧ ∃ ts, parse text = .ok ts) :
    ∃ ts, WritesAll maxDepth (",".intercalate texts).toList ts ∧
      ∀ d : Draft, d.taking texts = d.accept ts := by
  induction texts with
  | nil => exact absurd rfl hne
  | cons a texts ih =>
    obtain ⟨⟨hblank, ts, hts⟩, hrest⟩ := List.forall_mem_cons.mp h
    have ha := writesAll_of_not_blank hblank hts
    cases texts with
    | nil =>
      refine ⟨ts, by simpa using ha, fun d => ?_⟩
      rw [taking_singleton, annotated?_of_writesAll ha]
    | cons b texts =>
      obtain ⟨us, hus, htaking⟩ := ih (List.cons_ne_nil _ _) hrest
      refine ⟨ts ++ us, ?_, fun d => ?_⟩
      · rw [String.intercalate_cons_cons, toList_join]
        exact ha.append hus
      · rw [taking_cons, annotated?_of_writesAll ha, accept_append]
        exact congrArg _ (funext htaking)

/-- A tree takes joined texts as it takes the texts. -/
theorem taking_joined {texts : List String} (hne : texts ≠ [])
    (h : ∀ text ∈ texts, ¬ AsciiBlank text.toList ∧ ∃ ts, parse text = .ok ts) (d : Draft) :
    d.taking [",".intercalate texts] = d.taking texts := by
  obtain ⟨ts, hts, htaking⟩ := exists_writesAll_joined hne h
  rw [taking_singleton, annotated?_of_writesAll hts, htaking]

end Draft

/-! ## Attributes with texts -/

namespace Attribute

/-- The text of an attribute `#[validate("...")]`. -/
def text? (a : Attribute) : Option String :=
  if a.isValidate then
    match a.argument with
    | .ok (.inl t) => some t.text
    | _ => none
  else none

/-- The attributes are `cs` and one with each of the texts, in any order. -/
def Annotated (cs : List Attribute) (texts : List String) (as : List Attribute) : Prop :=
  ∃ added : List Attribute, added.map text? = texts.map some ∧ as.Perm (added ++ cs)

variable {a : Attribute} {as bs cs : List Attribute} {text : String} {added : List String}

theorem exists_argument_of_text? (h : a.text? = some text) :
    a.isValidate = true ∧ ∃ span, a.argument = .ok (.inl ⟨text, span⟩) := by
  rw [text?] at h
  split at h
  next hvalidate =>
    split at h
    next t harg =>
      cases h
      exact ⟨hvalidate, t.span, harg⟩
    next => cases h
  next => cases h

theorem problems_cons_of_text? (h : a.text? = some text) (as : List Attribute) :
    problems (a :: as) = problems as := by
  obtain ⟨hvalidate, span, harg⟩ := exists_argument_of_text? h
  simp only [problems, List.filter_cons_of_pos hvalidate, List.filterMap_cons, harg]

theorem skipWords_cons_of_text? (h : a.text? = some text) (as : List Attribute) :
    skipWords (a :: as) = skipWords as := by
  obtain ⟨hvalidate, span, harg⟩ := exists_argument_of_text? h
  simp only [skipWords, List.filter_cons_of_pos hvalidate, List.filterMap_cons, harg]

theorem texts_cons_of_text? (h : a.text? = some text) (as : List Attribute) :
    texts (a :: as) = text :: texts as := by
  obtain ⟨hvalidate, span, harg⟩ := exists_argument_of_text? h
  simp only [texts, literals, List.filter_cons_of_pos hvalidate, List.filterMap_cons, harg,
    List.map_cons]

theorem problems_perm (h : as.Perm bs) : (problems as).Perm (problems bs) :=
  (h.filter _).filterMap _

theorem skipWords_perm (h : as.Perm bs) : (skipWords as).Perm (skipWords bs) :=
  (h.filter _).filterMap _

theorem texts_perm (h : as.Perm bs) : (texts as).Perm (texts bs) :=
  ((h.filter _).filterMap _).map _

/-- Attributes with texts are neither malformed nor do they say `skip`. -/
theorem append_of_texts {many : List Attribute} (h : many.map text? = added.map some)
    (cs : List Attribute) : problems (many ++ cs) = problems cs ∧
      skipWords (many ++ cs) = skipWords cs ∧ texts (many ++ cs) = added ++ texts cs := by
  induction many generalizing added with
  | nil =>
    rw [List.map_nil, eq_comm, List.map_eq_nil_iff] at h
    subst h
    exact ⟨rfl, rfl, rfl⟩
  | cons a many ih =>
    cases added with
    | nil => cases h
    | cons text added =>
      obtain ⟨ha, hmany⟩ := List.cons.inj h
      obtain ⟨hproblems, hskips, htexts⟩ := ih hmany
      rw [List.cons_append, problems_cons_of_text? ha, skipWords_cons_of_text? ha,
        texts_cons_of_text? ha, htexts]
      exact ⟨hproblems, hskips, rfl⟩

namespace Annotated

theorem problems_iff (h : Annotated cs added as) : problems as = [] ↔ problems cs = [] := by
  obtain ⟨many, hmany, hperm⟩ := h
  rw [← (append_of_texts hmany cs).1, ← List.isEmpty_iff, (problems_perm hperm).isEmpty_eq,
    List.isEmpty_iff]

theorem skipWords_iff (h : Annotated cs added as) : skipWords as = [] ↔ skipWords cs = [] := by
  obtain ⟨many, hmany, hperm⟩ := h
  rw [← (append_of_texts hmany cs).2.1, ← List.isEmpty_iff, (skipWords_perm hperm).isEmpty_eq,
    List.isEmpty_iff]

theorem texts_perm (h : Annotated cs added as) : (texts as).Perm (added ++ texts cs) := by
  obtain ⟨many, hmany, hperm⟩ := h
  rw [← (append_of_texts hmany cs).2.2]
  exact Attribute.texts_perm hperm

theorem taking_eq (h : Annotated cs added as) (d : Draft) :
    d.taking (texts as) = (d.taking added).bind (·.taking (texts cs)) := by
  rw [Draft.taking_perm h.texts_perm, Draft.taking_append]

theorem texts_ne_nil (h : Annotated cs added as) (hne : added ≠ []) : texts as ≠ [] := by
  intro hnil
  have hperm := h.texts_perm
  rw [hnil, List.nil_perm, List.append_eq_nil_iff] at hperm
  exact hne hperm.1

/-- Texts that every tree takes in the same way have the same effect beside other attributes. -/
theorem sameEffect {added' : List String} (h : Annotated cs added as) (h' : Annotated cs added' bs)
    (htaking : ∀ d : Draft, d.taking added = d.taking added') : SameEffect as bs where
  problems := h.problems_iff.trans h'.problems_iff.symm
  skips := h.skipWords_iff.trans h'.skipWords_iff.symm
  taking := fun d => by rw [h.taking_eq, h'.taking_eq, htaking]

end Annotated

/-! ## Joining -/

/-- Structs with the one attributes or the other give the same code, if any. -/
def AlikeOnStructs (as bs : List Attribute) : Prop :=
  ∀ i : Item, ({ i with attributes := as } : Item).expand.2.toOption =
    ({ i with attributes := bs } : Item).expand.2.toOption

/-- Structs of which one field has the one attributes or the other give the same code, if any. -/
def AlikeOnFields (as bs : List Attribute) : Prop :=
  ∀ (i : Item) (form : StructForm) (before after : List FieldDecl) (f : FieldDecl),
    ({ i with body := .struct form (before ++ { f with attributes := as } :: after) } :
        Item).expand.2.toOption =
      ({ i with body := .struct form (before ++ { f with attributes := bs } :: after) } :
        Item).expand.2.toOption

theorem SameEffect.alikeOnFields (h : SameEffect as bs)
    (hlone : skipWords as ≠ [] → (texts as = [] ↔ texts bs = [])) : AlikeOnFields as bs :=
  fun i form _ _ f => i.expand_congr_field form (h.alike hlone f)

/-- **Several annotations are as good as one.** Annotations that are read and not blank may be
joined by commas, and the text is read as their tags one after the other. Whatever else a struct or
field is annotated with, and wherever the attributes stand, one attribute with the joined text does
what an attribute for each text does. Blank annotations may be left out, of a field only if it is
not skipped. -/
theorem expand_joins :
    (∀ (a b : String) (ts us : List Tag), ¬ Tag.AsciiBlank a.toList → ¬ Tag.AsciiBlank b.toList →
      Tag.parse a = .ok ts → Tag.parse b = .ok us → Tag.parse (a ++ "," ++ b) = .ok (ts ++ us)) ∧
    (∀ (cs as bs : List Attribute) (texts : List String), texts ≠ [] →
      (∀ text ∈ texts, ¬ Tag.AsciiBlank text.toList ∧ ∃ ts, Tag.parse text = .ok ts) →
      Annotated cs texts as → Annotated cs [",".intercalate texts] bs →
      AlikeOnStructs as bs ∧ AlikeOnFields as bs) ∧
    ∀ (cs as : List Attribute) (texts : List String),
      (∀ text ∈ texts, Tag.AsciiBlank text.toList) → Annotated cs texts as →
      AlikeOnStructs as cs ∧ (skipWords cs = [] → AlikeOnFields as cs) := by
  refine ⟨fun a b ts us ha hb hts hus => ?_, fun cs as bs texts hne htexts has hbs => ?_,
    fun cs as texts hblank has => ?_⟩
  · refine Tag.parse_of_writesAll ?_
    rw [Tag.toList_join]
    exact (Tag.writesAll_of_not_blank ha hts).append (Tag.writesAll_of_not_blank hb hus)
  · have heffect : SameEffect as bs :=
      has.sameEffect hbs fun d => (Draft.taking_joined hne htexts d).symm
    refine ⟨heffect.expand_struct, heffect.alikeOnFields fun _ => ?_⟩
    exact iff_of_false (has.texts_ne_nil hne) (hbs.texts_ne_nil (List.cons_ne_nil _ _))
  · have hnone : Annotated cs [] cs := ⟨[], rfl, .refl _⟩
    have heffect : SameEffect as cs := has.sameEffect hnone (Draft.taking_of_blank hblank)
    exact ⟨heffect.expand_struct, fun hskips =>
      heffect.alikeOnFields fun h => absurd (has.skipWords_iff.mpr hskips) h⟩

open Item in
/-- A wrapper of a text whose type stands on line 4. -/
def wrapperItem (struct field : List Attribute) : Item :=
  { nickItem "" with
    attributes := struct
    body := .struct .tuple [{ plainField with attributes := field }] }

open Item in
/-- Two annotations of a text, a joined one and a blank one, which does nothing. The struct has
code. -/
theorem expand_joins_nick :
    let texts := ["min_len=1", " max_len=5"]
    let apart := [tagsOn 1 "min_len=1", tagsOn 2 " max_len=5"]
    let joined := [tagsOn 1 "min_len=1, max_len=5"]
    let blank := [tagsOn 3 " ", tagsOn 1 "min_len=1, max_len=5"]
    (texts ≠ [] ∧ (∀ text ∈ texts, ¬ Tag.AsciiBlank text.toList ∧ ∃ ts, Tag.parse text = .ok ts) ∧
      Annotated [] texts apart ∧ Annotated [] [",".intercalate texts] joined ∧
      (wrapperItem [] apart).expand.2.toOption = (wrapperItem [] joined).expand.2.toOption) ∧
    (Annotated joined [" "] blank ∧ skipWords joined = [] ∧
      (wrapperItem [] blank).expand.2.toOption = (wrapperItem [] joined).expand.2.toOption) ∧
    Tag.parse "min_len=1, max_len=5" =
      .ok [.simple .minLen (some "1"), .simple .maxLen (some "5")] ∧
    (wrapperItem [] joined).expand.2.toOption.isSome = true := by
  intro texts apart joined blank
  have hspaced : Tag.parse " max_len=5" = .ok [.simple .maxLen (some "5")] :=
    have hwrites := Tag.writesAll_of_not_blank (by decide +kernel) parse_maxLen
    Tag.parse_of_writesAll (hwrites.blank_append (a := [' ']) (by decide))
  have htexts : ∀ text ∈ texts,
      ¬ Tag.AsciiBlank text.toList ∧ ∃ ts, Tag.parse text = .ok ts :=
    List.forall_mem_cons.mpr ⟨⟨by decide +kernel, _, parse_minLen⟩,
      List.forall_mem_singleton.mpr ⟨by decide +kernel, _, hspaced⟩⟩
  have hread : Tag.parse "min_len=1, max_len=5" =
      .ok [.simple .minLen (some "1"), .simple .maxLen (some "5")] :=
    expand_joins.1 _ _ _ _ (by decide +kernel) (by decide +kernel) parse_minLen hspaced
  have hapart : Annotated [] texts apart := ⟨apart, rfl, .refl _⟩
  have hjoined : Annotated [] [",".intercalate texts] joined := ⟨joined, rfl, .refl _⟩
  have hblank : Annotated joined [" "] blank := ⟨[tagsOn 3 " "], rfl, .refl _⟩
  have hsame := (expand_joins.2.1 [] apart joined texts (by simp [texts]) htexts hapart hjoined).2
  have hdropped := (expand_joins.2.2 joined blank [" "] (by decide +kernel) hblank).2 rfl
  refine ⟨⟨by simp [texts], htexts, hapart, hjoined, ?_⟩, ⟨hblank, rfl, ?_⟩, hread, ?_⟩
  · exact hsame (wrapperItem [] []) .tuple [] [] plainField
  · exact hdropped (wrapperItem [] []) .tuple [] [] plainField
  · have hnode : fieldNode joined plainField.ty =
        some (.scalar .string ⟨some "1", some "5"⟩ none) := by
      change Draft.taking (.leaf .string) ["min_len=1, max_len=5"] = _
      rw [Draft.taking_singleton, Draft.annotated?_of_ok hread]
      rfl
    rw [expand_toOption_of_newtype (f := { plainField with attributes := joined }) rfl rfl, hnode]
    rfl

end Attribute

end FieldRules
