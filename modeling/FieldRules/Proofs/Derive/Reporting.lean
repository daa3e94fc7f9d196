import FieldRules.Derive.Expand
import FieldRules.Proofs.Tag.Printing

/-!
# What a derivation reports

Every struct and every field has complaints of its own, which are all its malformed attributes, or
else one misuse of `skip`, or else the first annotation of a field that its type does not take
(`Item.complaints`, `fieldComplaints`). They are functions of what the struct or field itself
declares. A derivation reports all of them, and only if there are none does it go on to apply the
struct's annotations and then to freeze the tree, each of which gives at most one more complaint
(`Item.expand_reports`). Without any complaint it gives an implementation of the validation trait
for the item, which `Item.Implements` spells out token by token.
-/

namespace FieldRules

/-! ## Attributes of an item -/

namespace Attribute

/-- What is wrong with the attributes about validation, in written order. -/
def problems (as : List Attribute) : List Diagnostic :=
  (as.filter (·.isValidate)).filterMap fun a =>
    match a.argument with
    | .error d => some d
    | .ok _ => none

/-- The literals with tags, in written order. -/
def literals (as : List Attribute) : List AnnotationText :=
  (as.filter (·.isValidate)).filterMap fun a =>
    match a.argument with
    | .ok (.inl t) => some t
    | _ => none

/-- The places of the words `skip`, in written order. -/
def skipWords (as : List Attribute) : List Span :=
  (as.filter (·.isValidate)).filterMap fun a =>
    match a.argument with
    | .ok (.inr s) => some s
    | _ => none

end Attribute

open Attribute (problems literals skipWords)

/-- A value, unless there are complaints. -/
def judged {α : Type} (complaints : List Diagnostic) (a : α) : Except (List Diagnostic) α :=
  if complaints = [] then .ok a else .error complaints

theorem judged_nil {α : Type} (a : α) : judged [] a = .ok a := rfl

theorem judged_cons {α : Type} (d : Diagnostic) (ds : List Diagnostic) (a : α) :
    judged (d :: ds) a = .error (d :: ds) := rfl

theorem Annotations.ofAttributes_eq (as : List Attribute) :
    ofAttributes as = judged (problems as) ⟨literals as, skipWords as⟩ := by
  unfold ofAttributes judged problems literals skipWords
  simp only [List.filterMap_map, List.isEmpty_iff]
  rfl

/-! ## Annotations one after the other -/

namespace Draft

/-- The tree after annotations, whether or not it took them in full. -/
def afterAll (d : Draft) (as : List AnnotationText) : Draft :=
  as.foldl (fun d a => (d.annotate a.text).1) d

/-- The first annotation that the tree does not take after the annotations before it, and why. -/
def firstRefusal (d : Draft) (as : List AnnotationText) :
    Option (AnnotationText × AnnotationError) :=
  as.zipIdx.findSome? fun (a, n) =>
    ((d.afterAll (as.take n)).annotate a.text).2.2.map fun e => (a, e)

theorem firstRefusal_cons (d : Draft) (a : AnnotationText) (as : List AnnotationText) :
    d.firstRefusal (a :: as) = ((d.annotate a.text).2.2.map fun e => (a, e)).or
      ((d.annotate a.text).1.firstRefusal as) := by
  unfold firstRefusal
  rw [List.zipIdx_cons', List.findSome?_cons, List.findSome?_map]
  cases h : (d.annotate a.text).2.2 with
  | none =>
    simp only [List.take_zero, afterAll, List.foldl_nil, h, Option.map_none, Option.none_or]
    rfl
  | some e => simp [afterAll, h]

/-- Annotations are applied up to the first that is refused. -/
theorem annotateAll_result (d : Draft) (as : List AnnotationText) :
    (d.annotateAll as).result =
      match d.firstRefusal as with
      | some (a, e) => .error (a.span, e)
      | none => .ok (d.afterAll as) := by
  induction as generalizing d with
  | nil => rfl
  | cons a as ih =>
    rw [annotateAll, firstRefusal_cons, afterAll, List.foldl_cons]
    split
    next seen e h => rw [h]; rfl
    next e seen h =>
      rw [h]
      exact ih e

end Draft

/-! ## Complaints of an item by itself -/

/-- The complaints about a struct itself: its malformed attributes, or else the first `skip`. -/
def Item.complaints (i : Item) : List Diagnostic :=
  match problems i.attributes, skipWords i.attributes with
  | [], [] => []
  | [], s :: _ => [⟨.skipOnStruct, s⟩]
  | ds, _ => ds

/-- The complaints about a field with the given attributes, type and name in messages: its malformed
attributes, or else `skip` together with tags, or else the first annotation that the field's type
does not take. -/
def fieldComplaints (attributes : List Attribute) (ty : Ty) (name : String) : List Diagnostic :=
  match problems attributes, skipWords attributes, literals attributes with
  | [], [], as => (ty.resolve.firstRefusal as).toList.map fun (a, e) => ⟨.field name e, a.span⟩
  | [], _ :: _, [] => []
  | [], _ :: _, a :: _ => [⟨.skipWithTags, a.span⟩]
  | ds, _, _ => ds

/-- The tree of a field with the given attributes and type. -/
def fieldTree (attributes : List Attribute) (ty : Ty) : Draft :=
  match skipWords attributes with
  | [] => ty.resolve.afterAll (literals attributes)
  | _ :: _ => .skip

/-- A struct's own annotations, unless there are complaints about it. -/
theorem Item.annotations_eq (i : Item) :
    i.annotations = judged i.complaints (literals i.attributes) := by
  rw [Item.annotations, Item.complaints, Annotations.ofAttributes_eq]
  cases problems i.attributes with
  | cons d ds => rfl
  | nil => cases skipWords i.attributes <;> rfl

namespace FieldDecl

/-- The complaints about the field at position `n`. -/
def complaints (f : FieldDecl) (n : Nat) : List Diagnostic :=
  fieldComplaints f.attributes f.ty (f.selector n).2

/-- The field at position `n` with its annotations applied. -/
def tree (f : FieldDecl) (n : Nat) : Field Draft :=
  ⟨(f.selector n).1, (f.selector n).2, fieldTree f.attributes f.ty⟩

/-- Where complaints about the field's plan point. -/
def blamed (f : FieldDecl) : Span := ((literals f.attributes).head?.map (·.span)).getD f.tySpan

/-- A prepared field, unless there are complaints about it. -/
theorem prepare_result (f : FieldDecl) (n : Nat) :
    (f.prepare n).result = judged (f.complaints n) ⟨f.tree n, f.blamed⟩ := by
  unfold prepare complaints fieldComplaints tree fieldTree blamed
  rw [Annotations.ofAttributes_eq]
  generalize literals f.attributes = as
  cases problems f.attributes with
  | cons d ds => rfl
  | nil =>
    cases skipWords f.attributes with
    | cons s ss => cases as <;> rfl
    | nil =>
      simp only [judged_nil, Draft.annotateAll_result]
      cases f.ty.resolve.firstRefusal as <;> rfl

end FieldDecl

/-! ## All complaints together -/

theorem collect_judged {α β : Type} (complaints : β → List Diagnostic) (value : β → α)
    (bs : List β) : collect (bs.map fun b => judged (complaints b) (value b)) =
      judged (bs.flatMap complaints) (bs.map value) := by
  induction bs with
  | nil => rfl
  | cons b bs ih =>
    rw [List.map_cons, List.flatMap_cons, List.map_cons]
    generalize bs.flatMap complaints = es at ih
    cases complaints b with
    | nil =>
      rw [judged_nil, collect, ih, List.nil_append]
      cases es <;> rfl
    | cons d ds =>
      rw [judged_cons, collect, ih]
      cases es with
      | nil => simp [judged]
      | cons e es => rfl

/-- The complaints about the fields of a struct, field by field. -/
def fieldsComplaints (fields : List FieldDecl) : List Diagnostic :=
  (fields.mapIdx fun n f => f.complaints n).flatten

theorem prepareFields_result (fields : List FieldDecl) :
    (prepareFields fields).result =
      judged (fieldsComplaints fields) (fields.mapIdx fun n f => ⟨f.tree n, f.blamed⟩) := by
  simp only [prepareFields, fieldsComplaints, List.mapIdx_eq_zipIdx_map, List.map_map]
  rw [← List.flatMap_def, ← collect_judged]
  congr 2
  exact funext fun p => p.1.prepare_result p.2

theorem Item.prepare_result (i : Item) (fields : List FieldDecl) :
    (i.prepare fields).result = judged (i.complaints ++ fieldsComplaints fields)
      (literals i.attributes, fields.mapIdx fun n f => ⟨f.tree n, f.blamed⟩) := by
  rw [Item.prepare]
  simp only [i.annotations_eq, prepareFields_result]
  cases i.complaints with
  | nil => cases fieldsComplaints fields <;> rfl
  | cons d ds =>
    cases fieldsComplaints fields with
    | nil => simp [judged]
    | cons e es => rfl

/-- The tree of a struct before its own annotations: a tuple struct of one field wraps it. -/
def StructForm.tree (form : StructForm) (fields : List FieldDecl) : Draft :=
  match form, fields with
  | .tuple, [f] => .wrapper selfTy .newtype (fieldTree f.attributes f.ty) none
  | _, fs => .inline (fs.mapIdx fun n f => f.tree n) none

theorem StructForm.draft_eq_tree (form : StructForm) (fields : List FieldDecl) :
    form.draft (fields.mapIdx fun n f => ⟨f.tree n, f.blamed⟩) = form.tree fields := by
  have hmap : (fields.mapIdx fun n f => (⟨f.tree n, f.blamed⟩ : Prepared)).map (·.field) =
      fields.mapIdx fun n f => f.tree n := by
    simp only [List.mapIdx_eq_zipIdx_map, List.map_map]
    rfl
  cases form with
  | named => exact congrArg (Draft.inline · none) hmap
  | unit => exact congrArg (Draft.inline · none) hmap
  | tuple =>
    match fields with
    | [] => rfl
    | [f] => rfl
    | f :: g :: fs =>
      simp only [StructForm.tree, List.mapIdx_cons] at hmap ⊢
      exact congrArg (Draft.inline · none) hmap

/-! ## Implementations -/

namespace Item

/-- What comes before the function in the implementation of the trait for an item: for the item
`Name<T>` it is `impl<T> ::tagval::Validate for Name<T>`. -/
def header (i : Item) : List Token :=
  .ident "impl" :: i.generics.declarations ++ defaultRuntime.tokens ++
    [.punct ':' true, .punct ':' false, .ident "Validate", .ident "for", .ident i.name.text] ++
    i.generics.uses ++ i.generics.whereClause

/-- `fn validate(&self) -> ::core::result::Result<(), ::tagval::ValidationError>` -/
def signature : List Token :=
  [.ident "fn", .ident "validate", .group .parenthesis [.punct '&' false, .ident "self"],
    .punct '-' true, .punct '>' false] ++ Token.rooted ["core", "result", "Result"] ++
  [.punct '<' false, .group .parenthesis [], .punct ',' false] ++ defaultRuntime.tokens ++
  [.punct ':' true, .punct ':' false, .ident "ValidationError", .punct '>' false]

/-- `::core::result::Result::Ok(())` -/
def success : List Token :=
  Token.rooted ["core", "result", "Result", "Ok"] ++ [.group .parenthesis [.group .parenthesis []]]

/-- The tokens implement the validation trait for the item, by a function that runs the code and
then succeeds. -/
def Implements (i : Item) (body tokens : List Token) : Prop :=
  tokens = i.header ++ [.group .brace (signature ++ [.group .brace (body ++ success)])]

theorem implements_implementation (i : Item) (plan : Plan) :
    i.Implements (plan.body defaultRuntime)
      (plan.implementation defaultRuntime i.name i.generics) := by
  unfold Implements header Plan.implementation
  simp only [List.append_assoc]
  rfl

end Item

/-! ## The whole derivation -/

namespace Item

variable (i : Item) (form : StructForm) (fields : List FieldDecl)

/-- With complaints about the struct or its fields, only the fields have seen tags. -/
theorem plan_of_complaints (h : i.complaints ++ fieldsComplaints fields ≠ []) :
    i.plan form fields =
      ⟨(prepareFields fields).seen, .error (i.complaints ++ fieldsComplaints fields)⟩ := by
  rw [plan]
  simp only [i.prepare_result, judged, if_neg h]
  rfl

/-- Without complaints the struct's annotations are applied, and then the tree is frozen. -/
theorem plan_result (h : i.complaints ++ fieldsComplaints fields = []) :
    (i.plan form fields).result =
      match (form.tree fields).firstRefusal (literals i.attributes) with
      | some (a, e) => .error [⟨.struct e, a.span⟩]
      | none =>
        match ((form.tree fields).afterAll (literals i.attributes)).freeze with
        | .error e => .error [⟨.inconsistent e, i.inconsistencySpan form (literals i.attributes)
            (fields.mapIdx fun n f => ⟨f.tree n, f.blamed⟩) e⟩]
        | .ok plan => .ok plan := by
  rw [plan]
  simp only [i.prepare_result, judged, if_pos h, StructForm.draft_eq_tree,
    Draft.annotateAll_result]
  cases (form.tree fields).firstRefusal (literals i.attributes) <;> rfl

variable {i form fields}

theorem validation_of_struct (hbody : i.body = .struct form fields) :
    i.validation = i.plan form fields := by
  rw [validation, hbody]

theorem expand_of_error {ds : List Diagnostic} (h : i.validation.result = .error ds) :
    i.expand = (i.validation.seen.map .applyingTag, .error ds) := by
  rw [expand]
  simp only [h]

theorem expand_of_ok {plan : Plan} (h : i.validation.result = .ok plan) :
    i.expand.2 = .ok (plan.implementation defaultRuntime i.name i.generics) := by
  rw [expand]
  simp only [h]

/-- Complaints about the struct or its fields are all that is reported. -/
theorem expand_of_complaints (hbody : i.body = .struct form fields)
    (hown : i.complaints ++ fieldsComplaints fields ≠ []) :
    i.expand.2 = .error (i.complaints ++ fieldsComplaints fields) ∧
      i.expand.1 = ((fields.mapIdx fun n f => f.prepare n).flatMap (·.seen)).map .applyingTag := by
  have hplan := (validation_of_struct hbody).trans (i.plan_of_complaints form fields hown)
  rw [expand_of_error (congrArg Traced.result hplan), hplan, prepareFields]
  exact ⟨rfl, rfl⟩

/-- The first annotation of the struct that is refused. -/
theorem expand_of_refusal (hbody : i.body = .struct form fields)
    (hown : i.complaints ++ fieldsComplaints fields = []) {a : AnnotationText} {e : AnnotationError}
    (hfirst : (form.tree fields).firstRefusal (literals i.attributes) = some (a, e)) :
    i.expand.2 = .error [⟨.struct e, a.span⟩] := by
  have hresult := i.plan_result form fields hown
  rw [hfirst, ← validation_of_struct hbody] at hresult
  rw [expand_of_error hresult]

/-- An inconsistency of the tree, whose annotations are all taken. -/
theorem expand_of_freeze_error (hbody : i.body = .struct form fields)
    (hown : i.complaints ++ fieldsComplaints fields = [])
    (hnone : (form.tree fields).firstRefusal (literals i.attributes) = none) {e : ConfigError}
    (he : ((form.tree fields).afterAll (literals i.attributes)).freeze = .error e) :
    i.expand.2 = .error [⟨.inconsistent e, i.inconsistencySpan form (literals i.attributes)
      (fields.mapIdx fun n f => ⟨f.tree n, f.blamed⟩) e⟩] := by
  have hresult := i.plan_result form fields hown
  rw [hnone, ← validation_of_struct hbody] at hresult
  simp only [he] at hresult
  rw [expand_of_error hresult]

/-- The implementation of a tree that freezes, with all annotations taken. -/
theorem expand_of_freeze_ok (hbody : i.body = .struct form fields)
    (hown : i.complaints ++ fieldsComplaints fields = [])
    (hnone : (form.tree fields).firstRefusal (literals i.attributes) = none) {plan : Plan}
    (hplan : ((form.tree fields).afterAll (literals i.attributes)).freeze = .ok plan) :
    i.expand.2 = .ok (plan.implementation defaultRuntime i.name i.generics) := by
  have hresult := i.plan_result form fields hown
  rw [hnone, ← validation_of_struct hbody] at hresult
  simp only [hplan] at hresult
  exact expand_of_ok hresult

/-- **A derivation reports every malformed item at once, each by itself.** The complaints about the
struct come first and then those about its fields in order. If there are any, they are what is
reported, and no tag of the struct has been applied. If there are none, the struct's annotations are
applied, and the first one that is refused is the only complaint; if all are taken, the tree is
frozen, and an inconsistency is the only complaint. Exactly if none of this fails, an implementation
of the trait for the item is given, around the checks of its plan. -/
theorem expand_reports (hbody : i.body = .struct form fields) :
    let own := i.complaints ++ fieldsComplaints fields
    let tags := literals i.attributes
    let tree := form.tree fields
    (own ≠ [] → i.expand.2 = .error own ∧
      i.expand.1 = ((fields.mapIdx fun n f => f.prepare n).flatMap (·.seen)).map .applyingTag) ∧
    (own = [] →
      (∀ a e, tree.firstRefusal tags = some (a, e) →
        i.expand.2 = .error [⟨.struct e, a.span⟩]) ∧
      (tree.firstRefusal tags = none →
        (∀ e, (tree.afterAll tags).freeze = .error e →
          ∃ span, i.expand.2 = .error [⟨.inconsistent e, span⟩]) ∧
        ∀ plan, (tree.afterAll tags).freeze = .ok plan →
          let code := plan.implementation defaultRuntime i.name i.generics
          i.expand.2 = .ok code ∧ i.Implements (plan.body defaultRuntime) code)) ∧
    ((∃ code, i.expand.2 = .ok code) ↔
      own = [] ∧ tree.firstRefusal tags = none ∧
        ∃ plan, (tree.afterAll tags).freeze = .ok plan) := by
  intro own tags tree
  refine ⟨expand_of_complaints hbody, fun hown => ⟨fun a e => expand_of_refusal hbody hown,
    fun hnone => ⟨fun e he => ⟨_, expand_of_freeze_error hbody hown hnone he⟩,
      fun plan hplan => ⟨expand_of_freeze_ok hbody hown hnone hplan,
        i.implements_implementation plan⟩⟩⟩, ?_, ?_⟩
  · rintro ⟨code, hcode⟩
    have hown : own = [] := Decidable.byContradiction fun hown => by
      cases (expand_of_complaints hbody hown).1.symm.trans hcode
    have hnone : tree.firstRefusal tags = none := by
      refine Option.eq_none_iff_forall_ne_some.mpr fun p hp => ?_
      cases (expand_of_refusal hbody hown hp).symm.trans hcode
    refine ⟨hown, hnone, ?_⟩
    cases hfreeze : (tree.afterAll tags).freeze with
    | ok plan => exact ⟨plan, rfl⟩
    | error e => cases (expand_of_freeze_error hbody hown hnone hfreeze).symm.trans hcode
  · rintro ⟨hown, hnone, plan, hplan⟩
    exact ⟨_, expand_of_freeze_ok hbody hown hnone hplan⟩

/-! ## A derivation with several complaints -/

/-- The stretch for what stands on a line. -/
def onLine (n : Nat) : Span := ⟨⟨n, 2⟩, ⟨n, 9⟩⟩

/-- A validation attribute on a line. -/
def attributeOn (n : Nat) (body : AttributeBody) : Attribute :=
  ⟨false, [.ofName "validate"], onLine n, body⟩

/-- A literal with tags on a line. -/
def tagsOn (n : Nat) (text : String) : Attribute :=
  attributeOn n (.list [.literal text (some text) (onLine n)] (onLine n))

/-- The word `skip` on a line. -/
def skipOn (n : Nat) : Attribute :=
  attributeOn n (.list [.ident (.ofName "skip") (onLine n)] (onLine n))

/-- A text field whose type stands on a line. -/
def textField (name : String) (n : Nat) (attributes : List Attribute) : FieldDecl :=
  ⟨attributes, some (.ofName name), .path false [.mk (.ofName "String") .none], onLine n⟩

/-- A struct with the given attributes and fields. -/
def profileItem (attributes : List Attribute) (fields : List FieldDecl) : Item :=
  ⟨attributes, .ofName "Profile", .nowhere, ⟨[], false, []⟩, .struct .named fields⟩

/-- Every item complains by itself: of three literals on a field the one that its type does not
take, of two malformed attributes both, and `skip` where it does not belong. Without these the
struct's own tag is refused. -/
theorem expand_reports_profile :
    let nick := textField "nick" 3 [tagsOn 2 "min_len=1", tagsOn 2 "min=1", tagsOn 2 "max=1"]
    let title := textField "title" 6
      [attributeOn 4 .bare, tagsOn 5 "min=1", attributeOn 5 (.value (onLine 5))]
    let note := textField "note" 9 [skipOn 7, tagsOn 8 "min=1"]
    (profileItem [skipOn 1] [nick, title, note]).expand.2 = .error
      [⟨.skipOnStruct, onLine 1⟩,
        ⟨.field "nick" (.config (.unrecognizedTag "min=1" "string")), onLine 2⟩,
        ⟨.malformed .noBrackets, onLine 4⟩, ⟨.malformed .valueInsteadOfBrackets, onLine 5⟩,
        ⟨.skipWithTags, onLine 8⟩] ∧
    (profileItem [tagsOn 1 "min=1"] []).expand.2 =
      .error [⟨.struct (.config (.unrecognizedTag "min=1" "struct")), onLine 1⟩] := by
  intro nick title note
  have hparse : ∀ k : Key, k.shape = .param →
      Tag.parse (Tag.texts [.simple k (some "1")]) = .ok [.simple k (some "1")] := fun k hk =>
    Tag.parse_texts_of_canonical (List.forall_mem_singleton.mpr
      (.param hk (by simp) (by simp) (by decide +kernel)))
  have hmin : Tag.parse "min=1" = .ok [.simple .min (some "1")] := hparse .min rfl
  have hlen : Tag.parse "min_len=1" = .ok [.simple .minLen (some "1")] := hparse .minLen rfl
  have hrefused : nick.ty.resolve.firstRefusal (literals nick.attributes) =
      some (⟨"min=1", onLine 2⟩, .config (.unrecognizedTag "min=1" "string")) := by
    change Draft.firstRefusal (.leaf .string)
      [⟨"min_len=1", onLine 2⟩, ⟨"min=1", onLine 2⟩, ⟨"max=1", onLine 2⟩] = _
    simp only [Draft.firstRefusal_cons, Draft.annotate, hlen, hmin]
    rfl
  have hnick : nick.complaints 0 =
      [⟨.field "nick" (.config (.unrecognizedTag "min=1" "string")), onLine 2⟩] := by
    change ((nick.ty.resolve.firstRefusal (literals nick.attributes)).toList.map
      fun (a, e) => (⟨.field "nick" e, a.span⟩ : Diagnostic)) = _
    rw [hrefused]
    rfl
  have hown : (profileItem [skipOn 1] [nick, title, note]).complaints ++
      fieldsComplaints [nick, title, note] = [⟨.skipOnStruct, onLine 1⟩,
        ⟨.field "nick" (.config (.unrecognizedTag "min=1" "string")), onLine 2⟩,
        ⟨.malformed .noBrackets, onLine 4⟩, ⟨.malformed .valueInsteadOfBrackets, onLine 5⟩,
        ⟨.skipWithTags, onLine 8⟩] := by
    simp only [fieldsComplaints, List.mapIdx_cons, hnick]
    rfl
  have hstruct : (StructForm.named.tree []).firstRefusal (literals [tagsOn 1 "min=1"]) =
      some (⟨"min=1", onLine 1⟩, .config (.unrecognizedTag "min=1" "struct")) := by
    change Draft.firstRefusal (.inline [] none) [⟨"min=1", onLine 1⟩] = _
    rw [Draft.firstRefusal_cons, Draft.annotate, hmin]
    rfl
  have hall := (expand_reports (i := profileItem [skipOn 1] [nick, title, note]) rfl).1
    (by rw [hown]; exact List.cons_ne_nil _ _)
  rw [hown] at hall
  have hlone := (expand_reports (i := profileItem [tagsOn 1 "min=1"] []) rfl).2.1 rfl
  exact ⟨hall.1, hlone.1 _ _ hstruct⟩

end Item

end FieldRules
