import FieldRules.Proofs.Config.Reordering
import FieldRules.Proofs.Config.Refusal
import FieldRules.Proofs.Derive.Blame

/-!
# What a derivation gives

A derivation with its complaints left out: the code for an item, if there is any. It is a function
of a few things. The tags of a field or struct are applied to a tree (`Draft.accept`), or, as texts,
read and applied (`Draft.taking`); a field gives a tree (`fieldNode`), and the trees of the fields
and the struct's own texts give the code (`Item.expand_toOption`).

None of this depends on the order of the texts (`Draft.taking_perm`), and of two texts that are read
one after the other only all tags together matter (`Draft.accept_append`). Hence attributes with the
same effect can stand for each other on every struct and field (`Attribute.SameEffect`).
-/

namespace FieldRules

open Attribute (problems literals skipWords)

/-! ## Tags that are taken as a whole -/

namespace Draft

/-- The tree configured with tags, if it takes all of them. -/
def accept (d : Draft) (ts : List Tag) : Option Draft :=
  match (d.setTags ts).refusal with
  | none => some (d.setTags ts).draft
  | some _ => none

variable {d : Draft} {ts us : List Tag}

theorem accept_of_taken (h : (d.setTags ts).refusal = none) :
    d.accept ts = some (d.setTags ts).draft := by
  rw [accept, h]

theorem accept_of_refused (h : (d.setTags ts).refusal ≠ none) : d.accept ts = none := by
  obtain ⟨e, he⟩ := Option.ne_none_iff_exists'.mp h
  rw [accept, he]

theorem accept_nil (d : Draft) : d.accept [] = some d := rfl

/-- More tags can be refused only by themselves. -/
theorem refused_append (h : (d.setTags ts).refusal ≠ none) (us : List Tag) :
    (d.setTags (ts ++ us)).refusal ≠ none := by
  intro hnone
  rw [setTags_taken_iff, Tag.leavesAll_eq_flatMap, Tag.scopesAll_eq_flatMap, List.flatMap_append,
    List.flatMap_append, ← Tag.leavesAll_eq_flatMap, ← Tag.scopesAll_eq_flatMap] at hnone
  exact h ((setTags_taken_iff ts d).mpr hnone.left)

/-- Tags after others are applied to the tree with the others. -/
theorem accept_append (d : Draft) (ts us : List Tag) :
    d.accept (ts ++ us) = (d.accept ts).bind (·.accept us) := by
  by_cases h : (d.setTags ts).refusal = none
  · have happend := setTags_append h us
    rw [accept_of_taken h, Option.bind_some, accept, accept, happend.1, happend.2]
  · rw [accept_of_refused h, accept_of_refused (refused_append h us), Option.bind_none]

/-- The order of tags does not matter. -/
theorem accept_perm (h : ts.Perm us) (d : Draft) : d.accept ts = d.accept us := by
  have hiff := (Rearranges.perm h).taken_iff d
  by_cases htaken : (d.setTags ts).refusal = none
  · have htaken' := hiff.mp htaken
    obtain ⟨ws, hws, hos⟩ := stores_of_setTags ts d htaken
    obtain ⟨vs, hvs, hos'⟩ := stores_of_setTags us d htaken'
    rw [accept_of_taken htaken, accept_of_taken htaken', hws.unique hvs]
    rw [hos, hos']
    exact (Rearranges.perm h).leaves
  · rw [accept_of_refused htaken, accept_of_refused (mt hiff.mpr htaken)]

/-! ## Annotations that are taken -/

/-- The tree configured with an annotation, if the text is one and the tree takes all its tags. -/
def annotated? (d : Draft) (text : String) : Option Draft :=
  match Tag.parse text with
  | .error _ => none
  | .ok ts => d.accept ts

/-- The tree configured with annotations, if it takes all of them. -/
def taking (d : Draft) (texts : List String) : Option Draft :=
  texts.foldlM annotated? d

theorem annotated?_of_ok {text : String} (h : Tag.parse text = .ok ts) (d : Draft) :
    d.annotated? text = d.accept ts := by
  rw [annotated?, h]

theorem annotated?_of_error {text : String} {e : ParseError} (h : Tag.parse text = .error e)
    (d : Draft) : d.annotated? text = none := by
  rw [annotated?, h]

theorem taking_nil (d : Draft) : d.taking [] = some d := rfl

theorem taking_cons (d : Draft) (text : String) (texts : List String) :
    d.taking (text :: texts) = (d.annotated? text).bind (·.taking texts) := rfl

theorem taking_singleton (d : Draft) (text : String) : d.taking [text] = d.annotated? text := by
  simp [taking_cons, taking_nil]

theorem taking_append (d : Draft) (texts more : List String) :
    d.taking (texts ++ more) = (d.taking texts).bind (·.taking more) := by
  rw [taking, List.foldlM_append]
  rfl

/-- Two annotations may change places. -/
theorem annotated?_swap (d : Draft) (a b : String) :
    (d.annotated? a).bind (·.annotated? b) = (d.annotated? b).bind (·.annotated? a) := by
  cases ha : Tag.parse a with
  | error e =>
    have hnone : ∀ d, annotated? d a = none := annotated?_of_error ha
    simp only [hnone, Option.bind_none, Option.bind_fun_none]
  | ok ts =>
    cases hb : Tag.parse b with
    | error e =>
      have hnone : ∀ d, annotated? d b = none := annotated?_of_error hb
      simp only [hnone, Option.bind_none, Option.bind_fun_none]
    | ok us =>
      have hreadA : ∀ d, annotated? d a = accept d ts := annotated?_of_ok ha
      have hreadB : ∀ d, annotated? d b = accept d us := annotated?_of_ok hb
      simp only [hreadA, hreadB]
      rw [← accept_append, ← accept_append]
      exact accept_perm List.perm_append_comm d

/-- The order of annotations does not matter. -/
theorem taking_perm {texts texts' : List String} (h : texts.Perm texts') (d : Draft) :
    d.taking texts = d.taking texts' := by
  induction h generalizing d with
  | nil => rfl
  | cons a _ ih =>
    rw [taking_cons, taking_cons]
    exact congrArg _ (funext ih)
  | swap a b texts =>
    simp only [taking_cons]
    rw [← Option.bind_assoc, ← Option.bind_assoc, annotated?_swap]
  | trans _ _ ih ih' => exact (ih d).trans (ih' d)

/-- What is left of applying annotations without the complaint. -/
theorem taking_eq (d : Draft) (as : List AnnotationText) :
    d.taking (as.map (·.text)) =
      match d.firstRefusal as with
      | none => some (d.afterAll as)
      | some _ => none := by
  induction as generalizing d with
  | nil => rfl
  | cons a as ih =>
    rw [List.map_cons, taking_cons, firstRefusal_cons, afterAll, List.foldl_cons]
    cases hparse : Tag.parse a.text with
    | error e => simp [annotated?, annotate, hparse]
    | ok ts =>
      cases hrefusal : (d.setTags ts).refusal with
      | some e => simp [annotated?, accept, annotate, hparse, hrefusal]
      | none =>
        simp only [annotated?, accept, annotate, hparse, hrefusal, Option.bind_some,
          Option.map_none, Option.none_or]
        exact ih _

theorem exists_afterAll_of_taking {d e : Draft} {as : List AnnotationText}
    (h : d.taking (as.map (·.text)) = some e) :
    d.firstRefusal as = none ∧ d.afterAll as = e := by
  rw [taking_eq] at h
  split at h
  next hfirst => exact ⟨hfirst, Option.some.inj h⟩
  next => cases h

end Draft

/-! ## What fields and structs give -/

/-- The texts with tags, in written order. -/
def Attribute.texts (as : List Attribute) : List String := (literals as).map (·.text)

open Attribute (texts)

/-- The tree of a field with the given attributes and type, if nothing is wrong with it. -/
def fieldNode (as : List Attribute) (ty : Ty) : Option Draft :=
  if problems as ≠ [] then none
  else if skipWords as = [] then ty.resolve.taking (texts as)
  else if texts as = [] then some .skip
  else none

/-- A field gives a tree if there are no complaints about it. -/
theorem fieldNode_eq (as : List Attribute) (ty : Ty) (name : String) :
    fieldNode as ty = if fieldComplaints as ty name = [] then some (fieldTree as ty) else none := by
  unfold fieldNode fieldComplaints fieldTree texts
  cases problems as with
  | cons d ds => rfl
  | nil =>
    cases skipWords as with
    | cons s ss => cases literals as <;> rfl
    | nil =>
      simp only [Draft.taking_eq]
      cases ty.resolve.firstRefusal (literals as) <;> rfl

theorem fieldNode_of_nil {as : List Attribute} {ty : Ty} {name : String}
    (h : fieldComplaints as ty name = []) : fieldNode as ty = some (fieldTree as ty) := by
  rw [fieldNode_eq as ty name, if_pos h]

theorem fieldNode_isSome_iff {as : List Attribute} {ty : Ty} {name : String} :
    (fieldNode as ty).isSome = true ↔ fieldComplaints as ty name = [] := by
  rw [fieldNode_eq as ty name]
  split <;> simp [*]

theorem FieldDecl.complaints_and_tree_of_fieldNode {f : FieldDecl} {d : Draft}
    (h : fieldNode f.attributes f.ty = some d) (n : Nat) :
    f.complaints n = [] ∧ fieldTree f.attributes f.ty = d := by
  have hclean : f.complaints n = [] := fieldNode_isSome_iff.mp (by rw [h]; rfl)
  exact ⟨hclean, Option.some.inj ((fieldNode_of_nil hclean).symm.trans h)⟩

theorem Item.complaints_eq_nil_iff (i : Item) :
    i.complaints = [] ↔ problems i.attributes = [] ∧ skipWords i.attributes = [] := by
  rw [Item.complaints]
  cases problems i.attributes with
  | cons d ds => simp
  | nil => cases skipWords i.attributes <;> simp

theorem toOption_eq_some_iff {ε α : Type} {x : Except ε α} {a : α} :
    x.toOption = some a ↔ x = .ok a := by
  cases x <;> simp [Except.toOption]

/-- The plan of a struct: its fields give trees, the tree of the struct takes its texts, and a plan
can be made of it. -/
theorem Item.validation_toOption {i : Item} {form : StructForm} {fields : List FieldDecl}
    (hbody : i.body = .struct form fields) :
    i.validation.result.toOption =
      if i.complaints ++ fieldsComplaints fields = [] then
        ((form.tree fields).taking (texts i.attributes)).bind (·.freeze.toOption)
      else none := by
  rw [validation_of_struct hbody]
  split
  next hown =>
    rw [i.plan_result form fields hown, texts, Draft.taking_eq]
    cases (form.tree fields).firstRefusal (literals i.attributes) with
    | some p => rfl
    | none =>
      dsimp only [Option.bind_some]
      cases ((form.tree fields).afterAll (literals i.attributes)).freeze <;> rfl
  next hown =>
    rw [i.plan_of_complaints form fields hown]
    rfl

/-- The code for an item is that for its plan. -/
theorem Item.expand_toOption_eq (i : Item) : i.expand.2.toOption =
    i.validation.result.toOption.map (·.implementation defaultRuntime i.name i.generics) := by
  cases h : i.validation.result with
  | error ds => rw [expand_of_error h]; rfl
  | ok plan => rw [expand_of_ok h]; rfl

/-- The code for a struct, if it has a plan. -/
theorem Item.expand_toOption {i : Item} {form : StructForm} {fields : List FieldDecl}
    (hbody : i.body = .struct form fields) :
    i.expand.2.toOption =
      if i.complaints ++ fieldsComplaints fields = [] then
        (((form.tree fields).taking (texts i.attributes)).bind (·.freeze.toOption)).map
          (·.implementation defaultRuntime i.name i.generics)
      else none := by
  rw [expand_toOption_eq, validation_toOption hbody]
  split <;> rfl

/-- The code for an item that is no struct. -/
theorem Item.expand_toOption_of_unsupported {i : Item}
    (hbody : ∀ form fields, i.body ≠ .struct form fields) : i.expand.2.toOption = none := by
  have herror : ∃ ds, i.validation.result = .error ds := by
    rw [Item.validation]
    cases h : i.body with
    | struct form fields => exact absurd h (hbody form fields)
    | enum => exact ⟨_, rfl⟩
    | union => exact ⟨_, rfl⟩
  obtain ⟨ds, hds⟩ := herror
  rw [expand_of_error hds]
  rfl

/-- There is no code for a struct that is itself malformed. -/
theorem Item.expand_toOption_of_complaints {i : Item} {form : StructForm}
    {fields : List FieldDecl} (hbody : i.body = .struct form fields) (h : i.complaints ≠ []) :
    i.expand.2.toOption = none := by
  rw [expand_toOption hbody, if_neg (List.append_ne_nil_of_left_ne_nil h _)]

/-- The code for a tuple struct of one field: the field gives a tree, and what wraps it takes the
texts of the struct. -/
theorem Item.expand_toOption_of_newtype {i : Item} {f : FieldDecl}
    (hbody : i.body = .struct .tuple [f]) (hclean : i.complaints = []) :
    i.expand.2.toOption =
      (((fieldNode f.attributes f.ty).bind fun d =>
        (Draft.wrapper selfTy .newtype d none).taking (texts i.attributes)).bind
          (·.freeze.toOption)).map (·.implementation defaultRuntime i.name i.generics) := by
  have hown : i.complaints ++ fieldsComplaints [f] = f.complaints 0 := by
    simp [hclean, fieldsComplaints]
  have hnode : fieldNode f.attributes f.ty =
      if f.complaints 0 = [] then some (fieldTree f.attributes f.ty) else none :=
    fieldNode_eq _ _ (f.selector 0).2
  rw [expand_toOption hbody, hown, hnode]
  split <;> rfl

/-! ## What can stand for each other -/

/-- Fields with the same name that give the same tree, if they give one. -/
structure FieldDecl.Alike (f g : FieldDecl) : Prop where
  name : f.name = g.name
  node : fieldNode f.attributes f.ty = fieldNode g.attributes g.ty

namespace FieldDecl.Alike

variable {f g : FieldDecl}

theorem selector (h : f.Alike g) (n : Nat) : f.selector n = g.selector n := by
  rw [FieldDecl.selector, FieldDecl.selector, h.name]

theorem complaints_iff (h : f.Alike g) (n : Nat) : f.complaints n = [] ↔ g.complaints n = [] := by
  rw [FieldDecl.complaints, FieldDecl.complaints, ← fieldNode_isSome_iff, ← fieldNode_isSome_iff,
    h.node]

theorem tree_eq (h : f.Alike g) {n : Nat} (hf : f.complaints n = []) : f.tree n = g.tree n := by
  have hnode := h.node
  rw [fieldNode_of_nil hf, fieldNode_of_nil ((h.complaints_iff n).mp hf)] at hnode
  rw [FieldDecl.tree, FieldDecl.tree, h.selector, Option.some.inj hnode]

end FieldDecl.Alike

namespace Item

variable {f g : FieldDecl} {before after : List FieldDecl}

theorem fieldsComplaints_eq_nil_iff : fieldsComplaints (before ++ f :: after) = [] ↔
    fieldsComplaints before = [] ∧ f.complaints before.length = [] ∧
      (after.mapIdx fun n f => f.complaints (n + 1 + before.length)).flatten = [] := by
  simp only [fieldsComplaints, List.mapIdx_append, List.mapIdx_cons, List.flatten_append,
    List.flatten_cons, List.append_eq_nil_iff, Nat.zero_add]

/-- The tree of a struct is the same with a field that has the same tree. -/
theorem tree_congr (h : f.tree before.length = g.tree before.length) (form : StructForm) :
    form.tree (before ++ f :: after) = form.tree (before ++ g :: after) := by
  by_cases hlone : form.IsWrapper (before ++ f :: after)
  · obtain ⟨rfl, hlength⟩ := hlone
    rw [List.length_append, List.length_cons] at hlength
    have hbefore : before = [] := List.length_eq_zero_iff.mp (by omega)
    have hafter : after = [] := List.length_eq_zero_iff.mp (by omega)
    subst hbefore hafter
    exact congrArg (fun d => Draft.wrapper selfTy .newtype d none) (congrArg Field.node h)
  · have hlone' : ¬ form.IsWrapper (before ++ g :: after) := by
      simpa only [StructForm.IsWrapper, List.length_append, List.length_cons] using hlone
    rw [StructForm.tree_of_not_isWrapper hlone, StructForm.tree_of_not_isWrapper hlone']
    simp only [List.mapIdx_append, List.mapIdx_cons, Nat.zero_add, h]

/-- A field that gives the same tree can stand for another. -/
theorem expand_congr_field (i : Item) (form : StructForm) (h : f.Alike g) :
    ({ i with body := .struct form (before ++ f :: after) } : Item).expand.2.toOption =
      ({ i with body := .struct form (before ++ g :: after) } : Item).expand.2.toOption := by
  rw [expand_toOption rfl, expand_toOption rfl]
  have hiff := h.complaints_iff before.length
  by_cases hf : f.complaints before.length = []
  · rw [tree_congr (h.tree_eq hf)]
    simp only [List.append_eq_nil_iff, fieldsComplaints_eq_nil_iff, hiff]
    rfl
  · have hg := mt hiff.mpr hf
    simp only [List.append_eq_nil_iff, fieldsComplaints_eq_nil_iff, hf, hg, false_and, and_false,
      if_false]

end Item

namespace Attribute

/-- Attributes that do the same to every tree: both or neither are malformed, both or neither say
`skip`, and every tree takes their texts with the same result. -/
structure SameEffect (as bs : List Attribute) : Prop where
  problems : problems as = [] ↔ problems bs = []
  skips : skipWords as = [] ↔ skipWords bs = []
  taking : ∀ d : Draft, d.taking (texts as) = d.taking (texts bs)

variable {as bs : List Attribute}

/-- Attributes of a struct can stand for others with the same effect. -/
theorem SameEffect.expand_struct (h : SameEffect as bs) (i : Item) :
    ({ i with attributes := as } : Item).expand.2.toOption =
      ({ i with attributes := bs } : Item).expand.2.toOption := by
  cases i.body with
  | struct form fields =>
    rw [Item.expand_toOption rfl, Item.expand_toOption rfl]
    simp only [List.append_eq_nil_iff, Item.complaints_eq_nil_iff, h.problems, h.skips, h.taking]
  | enum =>
    rw [Item.expand_toOption_of_unsupported (by simp),
      Item.expand_toOption_of_unsupported (by simp)]
  | union =>
    rw [Item.expand_toOption_of_unsupported (by simp),
      Item.expand_toOption_of_unsupported (by simp)]

/-- Attributes of a field can stand for others with the same effect, if beside `skip` both or
neither have texts. -/
theorem SameEffect.alike (h : SameEffect as bs)
    (hlone : skipWords as ≠ [] → (texts as = [] ↔ texts bs = [])) (f : FieldDecl) :
    ({ f with attributes := as } : FieldDecl).Alike { f with attributes := bs } where
  name := rfl
  node := by
    simp only [fieldNode, ne_eq, h.problems, h.skips, h.taking]
    by_cases hskips : skipWords as = []
    · simp only [h.skips.mp hskips, if_true]
    · simp only [hlone hskips]

end Attribute

end FieldRules
