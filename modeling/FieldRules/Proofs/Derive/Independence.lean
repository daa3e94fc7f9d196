import FieldRules.Proofs.Derive.Newtypes
import FieldRules.Proofs.Emit.Renumbering

/-!
# Fields by themselves

The checks of a field (`Plan.fieldChecks`) depend on what the field declares and on no other field.
From the other fields they take the scope, that is, which names are bound and which symbols are used
before them, and this decides only the numbers of the names that they bind (`Plan.emit_renumbers`).

The struct matters in one way: a tuple struct of one field wraps the field. The checks are then at
the path of the struct and not at a path of the field, and the struct's tags are the field's.
-/

namespace FieldRules

open Attribute (problems literals skipWords texts)

/-! ## The checks of a field -/

namespace Plan

/-- The checks of the field at position `n` in the routine of a struct. -/
def fieldChecks : Plan → Nat → Option (List Statement)
  | .inline fields _, n => fields[n]?.map fun f =>
    (f.node.emit (Context.root.member f.member f.name)
      (emitFields (fields.take n) .root .empty).2).1
  | .wrapper _ mode inner _, 0 => some (inner.emit (wrapped .root mode) .empty).1
  | _, _ => none

theorem exists_emitFields_eq {fields : List (Field Plan)} {n : Nat} {f : Field Plan}
    (hf : fields[n]? = some f) (c : Context) (s : Scope) :
    ∃ after, (emitFields fields c s).1 = (emitFields (fields.take n) c s).1 ++
      (f.node.emit (c.member f.member f.name) (emitFields (fields.take n) c s).2).1 ++ after := by
  induction fields generalizing n s with
  | nil => cases hf
  | cons g fields ih =>
    cases n with
    | zero =>
      cases hf
      exact ⟨_, by rw [emitFields_cons]; rfl⟩
    | succ n =>
      obtain ⟨after, hafter⟩ := ih hf (g.node.emit (c.member g.member g.name) s).2
      refine ⟨after, ?_⟩
      rw [List.take_succ_cons, emitFields_cons, emitFields_cons]
      dsimp only
      rw [hafter]
      simp only [List.append_assoc]

/-- The checks of a field are a part of the routine. -/
theorem exists_emit_eq {p : Plan} {n : Nat} {ss : List Statement} (h : p.fieldChecks n = some ss) :
    ∃ before after, (p.emit .root .empty).1 = before ++ ss ++ after := by
  unfold fieldChecks at h
  split at h
  next fields chain n =>
    obtain ⟨f, hf, rfl⟩ := Option.map_eq_some_iff.mp h
    obtain ⟨after, hafter⟩ := exists_emitFields_eq hf .root .empty
    rw [emit_inline]
    dsimp only
    rw [hafter]
    exact ⟨_, _, List.append_assoc _ _ _⟩
  next ty mode inner chain =>
    cases h
    rw [emit_wrapper]
    exact ⟨[], _, rfl⟩
  next => cases h

end Plan

/-! ## Plans of structs -/

namespace Draft

/-- Annotations leave a wrapper a wrapper. -/
theorem exists_wrapper_of_taking {ty : Ty} {mode : WrapperMode} {d e : Draft}
    {func : Option String} {as : List AnnotationText}
    (h : (wrapper ty mode d func).taking (as.map (·.text)) = some e) :
    ∃ d' func', e = .wrapper ty mode d' func' := by
  obtain ⟨hnone, rfl⟩ := exists_afterAll_of_taking h
  obtain ⟨ws, hws, -⟩ := stores_of_afterAll hnone
  have hbare := hws.bare
  generalize (wrapper ty mode d func).afterAll as = e at hbare
  cases e with
  | wrapper ty' mode' d' func' =>
    simp only [bare, wrapper.injEq] at hbare
    obtain ⟨rfl, rfl, -⟩ := hbare
    exact ⟨d', func', rfl⟩
  | _ => cases hbare

end Draft

/-- The implementation that is derived for the item runs the statements, among others. -/
def Item.Includes (i : Item) (ss : List Statement) : Prop :=
  ∃ tokens body, i.expand.2 = .ok tokens ∧ i.Implements body tokens ∧
    ∃ before after, body = before ++ code ss ++ after

/-- The struct with this form and these fields has a plan. -/
structure Item.Derives (i : Item) (form : StructForm) (fields : List FieldDecl) (p : Plan) :
    Prop where
  body : i.body = .struct form fields
  plan : i.validation.result = .ok p

/-- There is nothing wrong with the struct and its fields, the tree takes the struct's tags, and the
plan is that of the result. -/
theorem Item.derives_iff {i : Item} {form : StructForm} {fields : List FieldDecl} {p : Plan} :
    i.Derives form fields p ↔ i.body = .struct form fields ∧
      i.complaints ++ fieldsComplaints fields = [] ∧
      ∃ d, (form.tree fields).taking (texts i.attributes) = some d ∧ d.freeze = .ok p := by
  constructor
  · rintro ⟨hbody, hplan⟩
    have hresult := validation_toOption hbody
    rw [hplan] at hresult
    split at hresult
    next hown =>
      obtain ⟨d, hd, hfreeze⟩ := Option.bind_eq_some_iff.mp hresult.symm
      exact ⟨hbody, hown, d, hd, toOption_eq_some_iff.mp hfreeze⟩
    next => cases hresult
  · rintro ⟨hbody, hown, d, hd, hfreeze⟩
    refine ⟨hbody, toOption_eq_some_iff.mp ?_⟩
    rw [validation_toOption hbody, if_pos hown, hd, Option.bind_some, hfreeze]
    rfl

namespace Item.Derives

variable {i : Item} {form : StructForm} {fields : List FieldDecl} {p : Plan}

/-- There is code for the struct, which includes the checks of each field. -/
theorem includes (h : i.Derives form fields p) {n : Nat} {ss : List Statement}
    (hss : p.fieldChecks n = some ss) : i.Includes ss := by
  obtain ⟨before, after, hemit⟩ := Plan.exists_emit_eq hss
  refine ⟨_, _, expand_of_ok h.plan, i.implements_implementation p,
    (p.emit .root .empty).2.symbols.imports defaultRuntime ++ code before, code after, ?_⟩
  rw [Plan.body]
  simp only [hemit, code_append, List.append_assoc]

theorem field_complaints (h : i.Derives form fields p) {n : Nat} {f : FieldDecl}
    (hf : fields[n]? = some f) : f.complaints n = [] := by
  obtain ⟨-, hown, -⟩ := derives_iff.mp h
  exact complaints_of_fieldsComplaints (List.append_eq_nil_iff.mp hown).2 hf

/-- A struct that is no wrapper checks a field by the plan of the field's tree. -/
theorem exists_fieldChecks (h : i.Derives form fields p) (hform : ¬ form.IsWrapper fields)
    {n : Nat} {f : FieldDecl} (hf : fields[n]? = some f) :
    ∃ q s, (fieldTree f.attributes f.ty).freeze = .ok q ∧ p.fieldChecks n =
      some (q.emit (Context.root.member (f.selector n).1 (f.selector n).2) s).1 := by
  obtain ⟨-, -, d, hd, hfreeze⟩ := derives_iff.mp h
  rw [StructForm.tree_of_not_isWrapper hform] at hd
  obtain ⟨-, rfl⟩ := Draft.exists_afterAll_of_taking hd
  obtain ⟨func, hafter⟩ :=
    Draft.exists_afterAll_inline (fields.mapIdx fun n f => f.tree n) none (literals i.attributes)
  rw [hafter] at hfreeze
  obtain ⟨plans, chain, hplans, -, rfl⟩ := Draft.freeze_inline hfreeze
  have htree : (fields.mapIdx fun n f => f.tree n)[n]? = some (f.tree n) := by
    rw [List.getElem?_mapIdx, hf]
    rfl
  obtain ⟨q, hq, hplan⟩ := Draft.exists_getElem?_of_freezeFields hplans htree
  refine ⟨q, (Plan.emitFields (plans.take n) .root .empty).2, hq, ?_⟩
  rw [Plan.fieldChecks, hplan]
  rfl

/-- A wrapper has checks for its field. -/
theorem exists_fieldChecks_wrapper {f : FieldDecl} (h : i.Derives .tuple [f] p) :
    ∃ ss, p.fieldChecks 0 = some ss := by
  obtain ⟨-, -, d, hd, hfreeze⟩ := derives_iff.mp h
  obtain ⟨d', func', rfl⟩ := Draft.exists_wrapper_of_taking hd
  obtain ⟨q, chain, -, -, rfl⟩ := Draft.freeze_wrapper hfreeze
  exact ⟨_, rfl⟩

/-- Structs with the same tree and the same annotations have the same plan. -/
theorem plan_eq {j : Item} {form' : StructForm} {fields' : List FieldDecl} {p' : Plan}
    (h : i.Derives form fields p) (h' : j.Derives form' fields' p')
    (htree : form.tree fields = form'.tree fields')
    (htexts : texts i.attributes = texts j.attributes) : p = p' := by
  obtain ⟨-, -, d, hd, hfreeze⟩ := derives_iff.mp h
  obtain ⟨-, -, d', hd', hfreeze'⟩ := derives_iff.mp h'
  rw [htree, htexts] at hd
  obtain rfl : d = d' := Option.some.inj (hd.symm.trans hd')
  exact Except.ok.inj (hfreeze.symm.trans hfreeze')

end Item.Derives

/-! ## The same field in two structs -/

namespace FieldDecl

/-- The field `f` at position `n` and the field `g` at position `m` have the same member, type and
annotations. -/
structure Same (f : FieldDecl) (n : Nat) (g : FieldDecl) (m : Nat) : Prop where
  /-- They have the same name, or the same position without one. -/
  member : (f.selector n).1 = (g.selector m).1
  ty : f.ty = g.ty
  texts : texts f.attributes = texts g.attributes
  /-- Both or neither are skipped. -/
  skips : skipWords f.attributes = [] ↔ skipWords g.attributes = []

namespace Same

variable {f g : FieldDecl} {n m : Nat}

theorem selector (h : f.Same n g m) : f.selector n = g.selector m := by
  have hmember := h.member
  unfold FieldDecl.selector at hmember ⊢
  cases hf : f.name <;> cases hg : g.name <;> simp_all

/-- Unless something is wrong with one of them, they have the same tree. -/
theorem tree_eq (h : f.Same n g m) (hf : f.complaints n = []) (hg : g.complaints m = []) :
    fieldTree f.attributes f.ty = fieldTree g.attributes g.ty := by
  have hnode := fieldNode_of_nil hf
  have hnode' := fieldNode_of_nil hg
  have hproblems : ∀ {as ty d}, fieldNode as ty = some d → problems as = [] := by
    intro as ty d hd
    refine Decidable.byContradiction fun hne => ?_
    rw [fieldNode, if_pos hne] at hd
    cases hd
  have hsame : fieldNode f.attributes f.ty = fieldNode g.attributes g.ty := by
    simp only [fieldNode, hproblems hnode, hproblems hnode', h.ty, h.texts, h.skips]
  exact Option.some.inj (hnode.symm.trans (hsame.trans hnode'))

end Same

/-- No token that the user supplies for the field is a name that is kept for generated code. -/
def Clean (f : FieldDecl) : Prop :=
  ∀ p, (fieldTree f.attributes f.ty).freeze = .ok p → p.Clean

end FieldDecl

namespace Item

/-- **Fields do not influence each other's checks.** From any two scopes, in which the names that
the context uses are bound, the code for a plan is the same up to the numbers of the names that it
binds; and it adds the same symbols. So the implementations that are derived for two structs that
share a field have the same checks for it up to these numbers, whatever their other fields are; if
one of them is a wrapper, so must the other be, with the same tags. -/
theorem fields_independent :
    (∀ (p : Plan) (c : Context) (s s' : Scope), p.Clean →
      s.names.Before (minted c.reach.tokens) → s'.names.Before (minted c.reach.tokens) →
      ∃ ρ, Names.Renumbering ρ ∧ Renames ρ (p.emit c s).1 (p.emit c s').1) ∧
    (∀ p : Plan, ∃ added, ∀ c, Adds (p.emit c) added) ∧
    ∀ {i j : Item} {form form' : StructForm} {fields fields' : List FieldDecl} {p p' : Plan}
      {n m : Nat} {f g : FieldDecl}, i.Derives form fields p → j.Derives form' fields' p' →
      fields[n]? = some f → fields'[m]? = some g → f.Same n g m → f.Clean →
      (form.IsWrapper fields ↔ form'.IsWrapper fields') →
      (form.IsWrapper fields → texts i.attributes = texts j.attributes) →
      ∃ ss us ρ, p.fieldChecks n = some ss ∧ p'.fieldChecks m = some us ∧
        i.Includes ss ∧ j.Includes us ∧ Names.Renumbering ρ ∧ Renames ρ ss us := by
  refine ⟨fun p c s s' hp hs hs' => Plan.emit_renumbers hp hs hs', Plan.adds_emit, ?_⟩
  intro i j form form' fields fields' p p' n m f g hi hj hf hg hsame hclean hforms htexts
  have htree := hsame.tree_eq (hi.field_complaints hf) (hj.field_complaints hg)
  by_cases hform : form.IsWrapper fields
  · -- the fields are all that the structs have, so that their plans are the same
    obtain ⟨rfl, rfl, rfl⟩ := hform.eq_of_getElem? hf
    obtain ⟨rfl, rfl, rfl⟩ := (hforms.mp hform).eq_of_getElem? hg
    have hwrapped : StructForm.tuple.tree [f] = StructForm.tuple.tree [g] :=
      congrArg (Draft.wrapper selfTy .newtype · none) htree
    obtain rfl : p = p' := hi.plan_eq hj hwrapped (htexts hform)
    obtain ⟨ss, hss⟩ := hi.exists_fieldChecks_wrapper
    exact ⟨ss, ss, id, hss, hss, hi.includes hss, hj.includes hss, Names.renumbering_id,
      renameVars_eq_self fun _ _ => rfl⟩
  · -- the fields have one plan, whose code is emitted in two scopes
    obtain ⟨q, s, hq, hchecks⟩ := hi.exists_fieldChecks hform hf
    obtain ⟨q', s', hq', hchecks'⟩ := hj.exists_fieldChecks (mt hforms.mpr hform) hg
    obtain rfl : q = q' := Except.ok.inj (hq.symm.trans (htree ▸ hq'))
    rw [← hsame.selector] at hchecks'
    have hroot : ∀ s : Scope, s.names.Before (minted (Context.root.member (f.selector n).1
        (f.selector n).2).reach.tokens) := by
      intro s x hx
      rw [Context.member, Reach.minted_member] at hx
      cases hx
    obtain ⟨ρ, hρ, hrenames⟩ := Plan.emit_renumbers (hclean q hq) (hroot s) (hroot s')
    exact ⟨_, _, ρ, hchecks, hchecks', hi.includes hchecks, hj.includes hchecks', hρ, hrenames⟩

/-- An optional text with a lower limit. -/
def optionalField (name : String) : FieldDecl :=
  ⟨[tagsOn 2 "min_len=1"], some (.ofName name),
    .path false [.mk (.ofName "Option") (.angled false [.type plainField.ty] false)], onLine 3⟩

/-- The plan of an optional text with a lower limit. -/
def optionalPlan : Plan := .optional false (.scalar (.string ⟨some ⟨"1", 1⟩, none⟩) [])

/-- A field that binds a name, alone and after another that binds one. -/
theorem fields_independent_profile :
    let nick := optionalField "nick"
    let title := optionalField "title"
    let s := Scope.empty.minted presentStem
    ∃ p p' : Plan, (profileItem [] [nick]).Derives .named [nick] p ∧
      (profileItem [] [title, nick]).Derives .named [title, nick] p' ∧
      nick.Same 0 nick 1 ∧ nick.Clean ∧ p.Clean ∧
      s.names.Before (minted Context.root.reach.tokens) ∧
      Scope.empty.names.Before (minted Context.root.reach.tokens) ∧
      (∃ ρ, Names.Renumbering ρ ∧ Renames ρ (p.emit .root .empty).1 (p.emit .root s).1) ∧
      ∃ ss us ρ, p.fieldChecks 0 = some ss ∧ p'.fieldChecks 1 = some us ∧
        (profileItem [] [nick]).Includes ss ∧ (profileItem [] [title, nick]).Includes us ∧
        Names.Renumbering ρ ∧ Renames ρ ss us := by
  intro nick title s
  have hnode : ∀ name, fieldNode (optionalField name).attributes (optionalField name).ty =
      some (.optional false false (.scalar .string ⟨some "1", none⟩ none)) := by
    intro name
    change Draft.taking (.optional false false (.leaf .string)) ["min_len=1"] = _
    rw [Draft.taking_singleton, Draft.annotated?_of_ok parse_minLen]
    rfl
  have hnick := FieldDecl.complaints_and_tree_of_fieldNode (hnode "nick")
  have htitle := FieldDecl.complaints_and_tree_of_fieldNode (hnode "title")
  have hp : (profileItem [] [nick]).Derives .named [nick]
      (.inline [⟨.named (.ofName "nick"), "nick", optionalPlan⟩] []) := by
    refine derives_iff.mpr ⟨rfl, ?_, _, rfl, ?_⟩
    · simp only [fieldsComplaints, List.mapIdx_cons, nick, hnick 0]
      rfl
    · change (Draft.inline [⟨_, _, fieldTree nick.attributes nick.ty⟩] none).freeze = _
      rw [(hnick 0).2]
      rfl
  have hp' : (profileItem [] [title, nick]).Derives .named [title, nick]
      (.inline [⟨.named (.ofName "title"), "title", optionalPlan⟩,
        ⟨.named (.ofName "nick"), "nick", optionalPlan⟩] []) := by
    refine derives_iff.mpr ⟨rfl, ?_, _, rfl, ?_⟩
    · simp only [fieldsComplaints, List.mapIdx_cons, nick, title, hnick, htitle]
      rfl
    · change (Draft.inline [⟨_, _, fieldTree title.attributes title.ty⟩,
        ⟨_, _, fieldTree nick.attributes nick.ty⟩] none).freeze = _
      rw [(hnick 0).2, (htitle 0).2]
      rfl
  have hsame : nick.Same 0 nick 1 := ⟨rfl, rfl, rfl, Iff.rfl⟩
  have hclean : nick.Clean := by
    intro q hq
    rw [(hnick 0).2] at hq
    obtain rfl : optionalPlan = q := Except.ok.inj hq
    decide
  have hstart : ∀ s : Scope, s.names.Before (minted Context.root.reach.tokens) := by
    intro s x hx
    cases hx
  have hcleanp : (Plan.inline [⟨.named (.ofName "nick"), "nick", optionalPlan⟩] []).Clean := by
    decide
  obtain ⟨hscopes, -, hfields⟩ := fields_independent
  exact ⟨_, _, hp, hp', hsame, hclean, hcleanp, hstart _, hstart _,
    hscopes _ _ _ _ hcleanp (hstart _) (hstart _),
    hfields hp hp' rfl rfl hsame hclean (by simp [StructForm.IsWrapper])
      (by simp [StructForm.IsWrapper])⟩

/-- A text with a lower limit, in a tuple struct. -/
def shortField : FieldDecl := { plainField with attributes := [tagsOn 2 "min_len=1"] }

theorem fieldNode_shortField : fieldNode shortField.attributes shortField.ty =
    some (.scalar .string ⟨some "1", none⟩ none) := by
  change Draft.taking (.leaf .string) ["min_len=1"] = _
  rw [Draft.taking_singleton, Draft.annotated?_of_ok parse_minLen]
  rfl

/-- The checks of a text with a lower limit and maybe an upper one. -/
def shortPlan (upper : Option (Bound Nat)) : Plan := .scalar (.string ⟨some ⟨"1", 1⟩, upper⟩) []

/-- A field has other checks if it is wrapped, or if the wrapper has tags. -/
theorem fieldChecks_of_wrapper_ne :
    let nick := nickItem ""
    let pair := { nick with attributes := [], body := .struct .tuple [shortField, plainField] }
    let own := [tagsOn 1 "max_len=5"]
    ∃ (p q r : Plan) (ss us vs : List Statement),
      (nick.newtype [] shortField).Derives .tuple [shortField] p ∧
      pair.Derives .tuple [shortField, plainField] q ∧
      (nick.newtype own shortField).Derives .tuple [shortField] r ∧
      shortField.Same 0 shortField 0 ∧ p.Clean ∧ q.Clean ∧ r.Clean ∧
      p.fieldChecks 0 = some ss ∧ q.fieldChecks 0 = some us ∧ r.fieldChecks 0 = some vs ∧
      (∀ ρ, Names.Renumbering ρ → ¬ Renames ρ ss us) ∧
      ∀ ρ, Names.Renumbering ρ → ¬ Renames ρ ss vs := by
  intro nick pair own
  have hshort := FieldDecl.complaints_and_tree_of_fieldNode fieldNode_shortField
  have hcomplaints : fieldsComplaints [shortField] = [] := by
    simp only [fieldsComplaints, List.mapIdx_cons, hshort]
    rfl
  have hp : (nick.newtype [] shortField).Derives .tuple [shortField]
      (.wrapper selfTy .newtype (shortPlan none) []) := by
    refine derives_iff.mpr ⟨rfl, hcomplaints, _, rfl, ?_⟩
    change (Draft.wrapper selfTy .newtype (fieldTree shortField.attributes _) none).freeze = _
    rw [(hshort 0).2]
    rfl
  have hq : pair.Derives .tuple [shortField, plainField]
      (.inline [⟨.index 0, "0", shortPlan none⟩,
        ⟨.index 1, "1", .scalar (.string .none) []⟩] []) := by
    refine derives_iff.mpr ⟨rfl, ?_, _, rfl, ?_⟩
    · simp only [fieldsComplaints, List.mapIdx_cons, hshort]
      rfl
    · change (Draft.inline [⟨_, _, fieldTree shortField.attributes _⟩,
        ⟨_, _, .leaf .string⟩] none).freeze = _
      rw [(hshort 0).2]
      rfl
  have hr : (nick.newtype own shortField).Derives .tuple [shortField]
      (.wrapper selfTy .newtype (shortPlan (some ⟨"5", 5⟩)) []) := by
    refine derives_iff.mpr ⟨rfl, hcomplaints,
      .wrapper selfTy .newtype (.scalar .string ⟨some "1", some "5"⟩ none) none, ?_, rfl⟩
    change (Draft.wrapper selfTy .newtype (fieldTree shortField.attributes _) none).taking
      ["max_len=5"] = _
    rw [(hshort 0).2, Draft.taking_singleton, Draft.annotated?_of_ok parse_maxLen]
    rfl
  refine ⟨_, _, _, _, _, _, hp, hq, hr, ⟨rfl, rfl, rfl, Iff.rfl⟩, by decide, by decide, by decide,
    rfl, rfl, rfl, fun ρ hρ hrenames => ?_, fun ρ hρ hrenames => ?_⟩
  · -- at the path of the struct, and at the path of the field
    have h : code [.measure Context.root.newtype.reach [.guard (.length .below 1)
        ⟨"", .tooShort 1⟩]] = code [.measure Context.root.newtype.reach [.guard (.length .below 1)
        ⟨"0", .tooShort 1⟩]] := hρ.code_eq_of_renames (by decide) hrenames
    simp only [code, Statement.tokens, Failure.tokens, returnError, Token.parens, Token.braces,
      Token.quoted, List.cons_append, List.append_assoc, List.nil_append, List.cons.injEq,
      Token.group.injEq, Token.literal.injEq, List.append_cancel_left_eq, and_true, true_and] at h
    exact absurd (Text.eq_empty_of_quote_eq h.symm) (by decide)
  · cases hρ.code_eq_of_renames (by decide) hrenames

end Item

end FieldRules
