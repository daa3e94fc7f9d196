import FieldRules.Proofs.Derive.Joining

/-!
# Annotations of wrappers

A tuple struct of one field wraps the field. It keeps `func` and the sizes to itself and hands every
other tag to the tree of the field, where it arrives as the field's own tags do
(`Draft.accept_wrapper`). So an annotation without these keys may be written on the struct or on the
field (`Item.expand_hands_inward`). The two are applied at different times, the field's annotations
before it is wrapped and those of the struct after that, but what a tree takes does not depend on
the order.
-/

namespace FieldRules

open Attribute (problems skipWords texts Annotated)

/-- A list of entries denotes a tag. -/
theorem Tag.WritesAll.ne_nil {n : Nat} {s : List Char} {ts : List Tag} (h : WritesAll n s ts) :
    ts ≠ [] := by
  cases h <;> simp

/-! ## Tags that a wrapper hands inward -/

/-- The keys of tags that a wrapper keeps. -/
def wrapperKeys : List Key := [.func, .minItems, .maxItems]

namespace Draft

variable {ty : Ty} {mode : WrapperMode} {func : Option String}

theorem inward?_wrapper {k : Key} (hk : k ∉ wrapperKeys) (d : Draft) :
    inward? k (wrapper ty mode d func) = some (.wrapped, d) := by
  simp_all [inward?, wrapperKeys]

/-- A wrapper takes tags that it does not keep if the wrapped tree does, and holds what the wrapped
tree holds afterwards. -/
theorem accept_wrapper {ts : List Tag} (hts : ∀ t ∈ ts, t.key ∉ wrapperKeys) (d : Draft) :
    (wrapper ty mode d func).accept ts = (d.accept ts).map (wrapper ty mode · func) := by
  induction ts generalizing d with
  | nil => rfl
  | cons t ts ih =>
    obtain ⟨ht, hrest⟩ := List.forall_mem_cons.mp hts
    have hfirst : (wrapper ty mode d func).accept [t] =
        (d.accept [t]).map (wrapper ty mode · func) := by
      have hin : inward? t.key (wrapper ty mode d func) = some (.wrapped, d) :=
        inward?_wrapper ht d
      obtain ⟨hdraft, hrefusal⟩ := setTags_inward hin (.inr ⟨t, rfl, rfl⟩)
      rw [accept, accept, hrefusal, hdraft]
      cases (d.setTags [t]).refusal <;> rfl
    have hsplit : t :: ts = [t] ++ ts := rfl
    rw [hsplit, accept_append, accept_append, hfirst, Option.bind_map, Option.map_bind]
    exact congrArg _ (funext fun e => ih hrest e)

/-- The same of an annotation. -/
theorem annotated?_wrapper {text : String}
    (htext : ∀ ts, Tag.parse text = .ok ts → ∀ t ∈ ts, t.key ∉ wrapperKeys) (d : Draft) :
    (wrapper ty mode d func).annotated? text =
      (d.annotated? text).map (wrapper ty mode · func) := by
  cases h : Tag.parse text with
  | error e => rw [annotated?_of_error h, annotated?_of_error h, Option.map_none]
  | ok ts => rw [annotated?_of_ok h, annotated?_of_ok h, accept_wrapper (htext ts h)]

/-- A field that is skipped takes no annotation but a blank one. -/
theorem annotated?_skip {text : String} (h : ¬ Tag.AsciiBlank text.toList) :
    Draft.skip.annotated? text = none := by
  cases hparse : Tag.parse text with
  | error e => exact annotated?_of_error hparse skip
  | ok ts =>
    obtain ⟨t, us, rfl⟩ := List.exists_cons_of_ne_nil (Tag.writesAll_of_not_blank h hparse).ne_nil
    have hrefused : (skip.setTags [t]).refusal ≠ none := by
      rw [refusal_setTags_singleton]
      cases t <;> simp [setTag, receive, Configured.after, unrecognized, Configured.refused]
    rw [annotated?_of_ok hparse]
    exact accept_of_refused (refused_append hrefused us)

end Draft

/-! ## The field of a wrapper -/

/-- A field with one more annotation gives what the annotation makes of its tree. -/
theorem fieldNode_annotated {cs as : List Attribute} {text : String} (ty : Ty)
    (h : Annotated cs [text] as) (hblank : ¬ Tag.AsciiBlank text.toList) :
    fieldNode as ty = (fieldNode cs ty).bind (·.annotated? text) := by
  have hne : texts as ≠ [] := h.texts_ne_nil (List.cons_ne_nil _ _)
  have htaking : ∀ d : Draft,
      d.taking (texts as) = (d.taking (texts cs)).bind (·.annotated? text) := by
    intro d
    rw [Draft.taking_perm (h.texts_perm.trans List.perm_append_comm), Draft.taking_append]
    simp only [Draft.taking_singleton]
  by_cases hproblems : problems cs = []
  · by_cases hskips : skipWords cs = []
    · simp only [fieldNode, h.problems_iff, h.skipWords_iff, hproblems, hskips, htaking, ne_eq,
        not_true_eq_false, if_false, if_true]
    · have hnone := Draft.annotated?_skip hblank
      simp only [fieldNode, h.problems_iff, h.skipWords_iff, hproblems, hskips, hne, ne_eq,
        not_true_eq_false, if_false]
      split <;> simp [hnone]
  · simp only [fieldNode, ne_eq, h.problems_iff, hproblems, not_false_eq_true, if_true,
      Option.bind_none]

namespace Item

/-- The item as a tuple struct of one field, with the given attributes. -/
def newtype (i : Item) (own : List Attribute) (f : FieldDecl) : Item :=
  { i with attributes := own, body := .struct .tuple [f] }

/-- **On a wrapper, the tags of the struct and those of the field are the same tags.** An annotation
that is not blank and has none of the keys that the wrapper keeps can be written on the struct or on
the field, wherever it stands among other attributes: there is the same code, or none either way. -/
theorem expand_hands_inward (i : Item) (f : FieldDecl) (text : String)
    (own ofStruct ofField : List Attribute) (hblank : ¬ Tag.AsciiBlank text.toList)
    (hkeys : ∀ ts, Tag.parse text = .ok ts → ∀ t ∈ ts, t.key ∉ wrapperKeys)
    (hstruct : Annotated own [text] ofStruct) (hfield : Annotated f.attributes [text] ofField) :
    (i.newtype ofStruct f).expand.2.toOption =
      (i.newtype own { f with attributes := ofField }).expand.2.toOption := by
  have htaking : ∀ d : Draft, (Draft.wrapper selfTy .newtype d none).taking (texts ofStruct) =
      (d.annotated? text).bind fun e =>
        (Draft.wrapper selfTy .newtype e none).taking (texts own) := by
    intro d
    rw [hstruct.taking_eq, Draft.taking_singleton, Draft.annotated?_wrapper hkeys,
      Option.bind_map]
    rfl
  have hiff : (i.newtype ofStruct f).complaints = [] ↔
      (i.newtype own { f with attributes := ofField }).complaints = [] := by
    rw [complaints_eq_nil_iff, complaints_eq_nil_iff]
    exact and_congr hstruct.problems_iff hstruct.skipWords_iff
  by_cases hclean : (i.newtype ofStruct f).complaints = []
  · rw [expand_toOption_of_newtype rfl hclean, expand_toOption_of_newtype rfl (hiff.mp hclean)]
    simp only [newtype, fieldNode_annotated f.ty hfield hblank, Option.bind_assoc, htaking]
  · rw [expand_toOption_of_complaints rfl hclean,
      expand_toOption_of_complaints rfl (mt hiff.mpr hclean)]

/-- A wrapped text with a lower limit, whose upper limit stands on the struct or on the field. There
is code for it. -/
theorem expand_hands_inward_nick :
    let short : FieldDecl := { plainField with attributes := [tagsOn 2 "min_len=1"] }
    let both := [tagsOn 2 "min_len=1", tagsOn 3 "max_len=5"]
    let item := nickItem ""
    ¬ Tag.AsciiBlank "max_len=5".toList ∧
    (∀ ts, Tag.parse "max_len=5" = .ok ts → ∀ t ∈ ts, t.key ∉ wrapperKeys) ∧
    Annotated [] ["max_len=5"] [tagsOn 1 "max_len=5"] ∧
    Annotated short.attributes ["max_len=5"] both ∧
    (item.newtype [tagsOn 1 "max_len=5"] short).expand.2.toOption =
      (item.newtype [] { short with attributes := both }).expand.2.toOption ∧
    (item.newtype [] { short with attributes := both }).expand.2.toOption.isSome = true := by
  intro short both item
  have hblank : ¬ Tag.AsciiBlank "max_len=5".toList := by decide +kernel
  have hkeys : ∀ ts, Tag.parse "max_len=5" = .ok ts → ∀ t ∈ ts, t.key ∉ wrapperKeys := by
    intro ts hts
    cases parse_maxLen.symm.trans hts
    decide
  have hstruct : Annotated [] ["max_len=5"] [tagsOn 1 "max_len=5"] :=
    ⟨[tagsOn 1 "max_len=5"], rfl, .refl _⟩
  have hfield : Annotated short.attributes ["max_len=5"] both :=
    ⟨[tagsOn 3 "max_len=5"], rfl, .swap _ _ _⟩
  have hsame := expand_hands_inward item short "max_len=5" [] _ both hblank hkeys hstruct hfield
  refine ⟨hblank, hkeys, hstruct, hfield, hsame, ?_⟩
  have hnode : fieldNode both short.ty = some (.scalar .string ⟨some "1", some "5"⟩ none) := by
    change Draft.taking (.leaf .string) ["min_len=1", "max_len=5"] = _
    simp only [Draft.taking_cons, Draft.annotated?_of_ok parse_minLen,
      Draft.annotated?_of_ok parse_maxLen]
    rfl
  rw [expand_toOption_of_newtype (f := { short with attributes := both }) rfl rfl, hnode]
  rfl

end Item

end FieldRules
