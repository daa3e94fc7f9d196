import FieldRules.Proofs.Config.Causes
import FieldRules.Proofs.Derive.Reporting

/-!
# Where an inconsistency is reported

The tags of a struct come from literals on the struct and on its fields. If the tree of a struct
fails to freeze, one of these literals has a tag that causes the error (`AnnotationText.Causes`).
Nothing of this is left in the tree, so the one diagnostic stands at the first literal of the field
that the error names, or of the struct, whichever literal is the cause; and for a wrapper at the
first literal of the wrapped field, or at its type, while the error names no field
(`Item.expand_blames`). So a diagnostic that points at its cause (`Item.PointsAtCause`) is one of a
struct that is no wrapper, about the first literal of its place.
-/

namespace FieldRules

open Attribute (problems literals skipWords)

/-! ## Literals -/

namespace AnnotationText

/-- The literal has the tag in it. -/
def Contains (a : AnnotationText) (o : Occurrence) : Prop :=
  ∃ ts, Tag.parse a.text = .ok ts ∧ o ∈ Tag.leavesAll ts

/-- A tag of the literal causes the error. -/
def Causes (a : AnnotationText) (e : ConfigError) : Prop := ∃ o, a.Contains o ∧ o.Causes e

theorem Causes.ne_field {a : AnnotationText} {e : ConfigError} (h : a.Causes e) (name : String)
    (source : ConfigError) : e ≠ .field name source := by
  obtain ⟨o, -, ho⟩ := h
  exact ho.ne_field name source

end AnnotationText

namespace Draft

variable {d : Draft} {as : List AnnotationText}

theorem exists_tags_of_annotate {text : String} (h : (d.annotate text).2.2 = none) :
    ∃ ts, Tag.parse text = .ok ts ∧ (d.setTags ts).refusal = none ∧
      (d.annotate text).1 = (d.setTags ts).draft := by
  unfold annotate at h ⊢
  split at h
  next => cases h
  next ts hts => exact ⟨ts, hts, Option.map_eq_none_iff.mp h, rfl⟩

/-- Annotations that are taken store the tags of their literals. -/
theorem stores_of_afterAll (h : d.firstRefusal as = none) :
    ∃ ws, Stores d (d.afterAll as) ws ∧ ∀ w ∈ ws, ∃ a ∈ as, a.Contains w.toOccurrence := by
  induction as generalizing d with
  | nil => exact ⟨[], .nil d, nofun⟩
  | cons a as ih =>
    rw [firstRefusal_cons, Option.or_eq_none_iff, Option.map_eq_none_iff] at h
    obtain ⟨hfirst, hrest⟩ := h
    obtain ⟨ts, hts, htaken, hdraft⟩ := exists_tags_of_annotate hfirst
    obtain ⟨ws, hws, hos⟩ := stores_of_setTags ts d htaken
    obtain ⟨vs, hvs, hcontained⟩ := ih hrest
    rw [← hdraft] at hws
    refine ⟨ws ++ vs, hws.append hvs, fun w hw => ?_⟩
    rcases List.mem_append.mp hw with hw | hw
    · exact ⟨a, List.mem_cons_self, ts, hts, hos ▸ List.mem_map_of_mem hw⟩
    · obtain ⟨b, hb, hw⟩ := hcontained w hw
      exact ⟨b, List.mem_cons_of_mem a hb, hw⟩

/-! ## Fields -/

theorem Fresh.ite {c : Prop} [Decidable c] {d e : Draft} (hd : d.Fresh) (he : e.Fresh) :
    (if c then d else e).Fresh := by
  split
  · exact hd
  · exact he

theorem fresh_resolveName (name : Ident) {args : List (Ty × Draft)}
    (h : ∀ p ∈ args, p.2.Fresh) : (Ty.resolveName name args).Fresh := by
  refine .ite (.leaf .string) <| .ite (.leaf .bool) <| .ite (.leaf .byte) <| .ite (.leaf .float) <|
    .ite (.leaf .integer) <| .ite .skip ?_
  split
  next => exact .delegated
  next t d =>
    have hd : d.Fresh := h _ List.mem_cons_self
    exact .ite (.optional hd) <| .ite (.leaf .string) <| .ite (.interface true) <|
      .ite (.array hd) .delegated
  next t d u e rest =>
    have hd : d.Fresh := h _ List.mem_cons_self
    have he : e.Fresh := h _ (List.mem_cons_of_mem _ List.mem_cons_self)
    exact .ite (.array hd) <| .ite (.map hd he) .delegated

mutual

/-- A type begins its tree without tags. -/
theorem fresh_resolve : (t : Ty) → t.resolve.Fresh
  | .path _ segments => fresh_resolveSegments segments
  | .qualified _ => .delegated
  | .reference _ _ target => fresh_resolveTarget target
  | .slice element => .array (fresh_resolve element)
  | .array element _ => .array (fresh_resolve element)
  | .paren inner => fresh_resolve inner
  | .traitObject .. => .interface false
  | .implTrait _ => .interface false
  | .other _ => .skip

theorem fresh_resolveTarget : (t : Ty) → t.resolveTarget.Fresh
  | .path rooted segments => by
    rw [Ty.resolveTarget]
    split
    · exact .leaf .string
    · exact .delegated
  | .qualified _ => .delegated
  | .reference .. => .delegated
  | .slice element => .array (fresh_resolve element)
  | .array element _ => .array (fresh_resolve element)
  | .paren inner => fresh_resolveTarget inner
  | .traitObject .. => .interface true
  | .implTrait _ => .delegated
  | .other _ => .delegated

theorem fresh_resolveSegments : (segments : List Segment) → (Ty.resolveSegments segments).Fresh
  | [] => .delegated
  | [.mk name arguments] => fresh_resolveName name (fresh_resolveArguments arguments)
  | _ :: s :: ss => by rw [Ty.resolveSegments]; exact fresh_resolveSegments (s :: ss)

theorem fresh_resolveArguments : (arguments : Arguments) →
    ∀ p ∈ Ty.resolveArguments arguments, p.2.Fresh
  | .angled _ items _ => fresh_resolveItems items
  | .none => nofun
  | .parenthesized _ => nofun

theorem fresh_resolveItems : (items : List Argument) → ∀ p ∈ Ty.resolveItems items, p.2.Fresh
  | [] => nofun
  | .type t :: as => List.forall_mem_cons.mpr ⟨fresh_resolve t, fresh_resolveItems as⟩
  | .lifetime _ :: as => fresh_resolveItems as
  | .other _ :: as => fresh_resolveItems as

end

end Draft

/-- The tags of a field's literals are all that its tree holds. -/
theorem stores_fieldTree {attributes : List Attribute} {ty : Ty} {name : String}
    (hclean : fieldComplaints attributes ty name = []) :
    ∃ d ws, d.Fresh ∧ Stores d (fieldTree attributes ty) ws ∧
      ∀ w ∈ ws, ∃ a ∈ literals attributes, a.Contains w.toOccurrence := by
  unfold fieldComplaints at hclean
  unfold fieldTree
  cases hproblems : problems attributes with
  | cons p ps => rw [hproblems] at hclean; cases hclean
  | nil =>
    cases hskips : skipWords attributes with
    | cons s ss => exact ⟨.skip, [], .skip, .nil _, nofun⟩
    | nil =>
      rw [hproblems, hskips, List.map_eq_nil_iff, Option.toList_eq_nil_iff] at hclean
      obtain ⟨ws, hws, hcontained⟩ := Draft.stores_of_afterAll hclean
      exact ⟨_, ws, Draft.fresh_resolve ty, hws, hcontained⟩

namespace AnnotationText

variable {as : List AnnotationText} {ws : List Write} {e : ConfigError}

theorem exists_causes (hws : ∀ w ∈ ws, ∃ a ∈ as, a.Contains w.toOccurrence)
    (h : ∃ w ∈ ws, w.toOccurrence.Causes e) : ∃ a ∈ as, a.Causes e := by
  obtain ⟨w, hw, hcauses⟩ := h
  obtain ⟨a, ha, hcontains⟩ := hws w hw
  exact ⟨a, ha, _, hcontains, hcauses⟩

/-- If the tree of a field fails to freeze, one of the field's literals causes it. -/
theorem exists_causes_of_field {attributes : List Attribute} {ty : Ty} {name : String}
    (hclean : fieldComplaints attributes ty name = [])
    (he : (fieldTree attributes ty).freeze = .error e) :
    ∃ a ∈ literals attributes, a.Causes e := by
  obtain ⟨d, ws, hfresh, hws, hcontained⟩ := stores_fieldTree hclean
  rcases hws.exists_causes he with h | ⟨path, t, -, -, hbefore⟩
  · exact exists_causes hcontained h
  · exact absurd hbefore (hfresh.look_ne path t.key t)

/-- If a wrapper fails to freeze, a literal of the wrapped field or of the struct causes it. -/
theorem exists_causes_of_wrapper {attributes : List Attribute} {ty self : Ty} {name : String}
    {mode : WrapperMode} (hclean : fieldComplaints attributes ty name = [])
    (hnone : (Draft.wrapper self mode (fieldTree attributes ty) none).firstRefusal as = none)
    (he : ((Draft.wrapper self mode (fieldTree attributes ty) none).afterAll as).freeze =
      .error e) :
    ∃ a ∈ literals attributes ++ as, a.Causes e := by
  obtain ⟨vs, hvs, hown⟩ := Draft.stores_of_afterAll hnone
  rcases hvs.exists_causes he with h | ⟨path, t, ht, hpath, hbefore⟩
  · obtain ⟨a, ha, hcauses⟩ := exists_causes hown h
    exact ⟨a, List.mem_append_right _ ha, hcauses⟩
  · -- the tag was held before the struct's own literals, so by the wrapped field
    obtain ⟨d, ws, hfresh, hws, hcontained⟩ := stores_fieldTree hclean
    cases path with
    | nil => cases hkey : t.key <;> rw [hkey] at hbefore <;> cases hbefore
    | cons st path =>
      rw [Draft.look_cons] at hbefore
      cases st with
      | wrapped =>
        rcases hws.of_look hbefore with ⟨w, hw, rfl, hscopes⟩ | hfirst
        · obtain ⟨a, ha, hcontains⟩ := hcontained w hw
          exact ⟨a, List.mem_append_left _ ha, _, hcontains, ht,
            eq_map_scope (hpath.symm.trans hscopes)⟩
        · exact absurd hfirst (hfresh.look_ne path t.key t)
      | _ => cases hbefore

end AnnotationText

/-! ## Structs that are checked field by field -/

namespace Draft

variable {fields : List (Field Draft)} {func : Option String}

/-- A struct's own tags change its chain only. -/
theorem exists_draft_setTag_inline (fields : List (Field Draft)) (func : Option String) (t : Tag) :
    ∃ func', ((inline fields func).setTag t).draft = .inline fields func' := by
  have hreceive : ∀ enter, ∃ func', (receive t enter (.inline fields func)).draft =
      .inline fields func' := by
    intro enter
    rw [receive]
    dsimp only [Configured.after]
    split
    · cases t.fill func with
      | ok slot => exact ⟨slot, rfl⟩
      | error e => exact ⟨func, rfl⟩
    · exact ⟨func, rfl⟩
  cases t with
  | simple k p => rw [setTag]; exact hreceive _
  | scope k ts => rw [setTag]; exact hreceive _

theorem exists_draft_setTags_inline (fields : List (Field Draft)) (func : Option String)
    (ts : List Tag) : ∃ func', ((inline fields func).setTags ts).draft = .inline fields func' := by
  induction ts generalizing func with
  | nil => rw [setTags]; exact ⟨func, rfl⟩
  | cons t ts ih =>
    obtain ⟨func', hdraft⟩ := exists_draft_setTag_inline fields func t
    rw [setTags, Configured.andThen]
    split
    · exact ⟨func', hdraft⟩
    · dsimp only
      rw [hdraft]
      exact ih func'

theorem exists_afterAll_inline (fields : List (Field Draft)) (func : Option String)
    (as : List AnnotationText) :
    ∃ func', (inline fields func).afterAll as = .inline fields func' := by
  induction as generalizing func with
  | nil => exact ⟨func, rfl⟩
  | cons a as ih =>
    have hfirst : ∃ func', ((inline fields func).annotate a.text).1 = .inline fields func' := by
      unfold annotate
      split
      · exact ⟨func, rfl⟩
      · exact exists_draft_setTags_inline fields func _
    obtain ⟨func', hfirst⟩ := hfirst
    rw [afterAll, List.foldl_cons, hfirst]
    exact ih func'

theorem exists_of_freezeFields_error {e : ConfigError} (h : freezeFields fields = .error e) :
    ∃ (n : Nat) (f : Field Draft) (source : ConfigError), fields[n]? = some f ∧
      f.node.freeze = .error source ∧ e = .field f.name source := by
  induction fields with
  | nil => cases h
  | cons f fields ih =>
    obtain ⟨member, name, node⟩ := f
    rw [freezeFields] at h
    cases hnode : node.freeze with
    | error source =>
      rw [hnode] at h
      cases h
      exact ⟨0, _, source, rfl, hnode, rfl⟩
    | ok plan =>
      rw [hnode] at h
      cases hrest : freezeFields fields with
      | error e' =>
        rw [hrest] at h
        cases h
        obtain ⟨n, f, source, hf, hsource, rfl⟩ := ih hrest
        exact ⟨n + 1, f, source, hf, hsource, rfl⟩
      | ok plans => rw [hrest] at h; cases h

/-- A struct fails to freeze because one of its fields does, or because of its chain. -/
theorem freeze_inline_error {e : ConfigError} (h : (inline fields func).freeze = .error e) :
    (∃ (n : Nat) (f : Field Draft) (source : ConfigError), fields[n]? = some f ∧
      f.node.freeze = .error source ∧ e = .field f.name source) ∨
      Chain.ofSlot func = .error e := by
  rw [freeze] at h
  cases hfields : freezeFields fields with
  | error e' =>
    rw [hfields] at h
    cases h
    exact .inl (exists_of_freezeFields_error hfields)
  | ok plans =>
    rw [hfields] at h
    cases hchain : Chain.ofSlot func with
    | error e' => rw [hchain] at h; cases h; exact .inr rfl
    | ok chain => rw [hchain] at h; cases h

end Draft

/-- If the chain of a struct is faulty, a literal of the struct causes it. -/
theorem AnnotationText.exists_causes_of_chain {fields : List (Field Draft)} {func : Option String}
    {as : List AnnotationText} {e : ConfigError}
    (hnone : (Draft.inline fields none).firstRefusal as = none)
    (hafter : (Draft.inline fields none).afterAll as = .inline fields func)
    (he : Chain.ofSlot func = .error e) : ∃ a ∈ as, a.Causes e := by
  obtain ⟨ws, hws, hcontained⟩ := Draft.stores_of_afterAll hnone
  rw [hafter] at hws
  have hfault : some e ∈ Draft.chainFaults func :=
    List.mem_singleton.mpr (fault_eq_some_iff.mpr he).symm
  have hplain := Draft.plain_chainFaults func e hfault
  have hroot : e.rootCause = e := by
    have hself := e.foldr_inside_rootCause
    rwa [hplain] at hself
  have hholds : (Draft.inline fields func).Holds [] e := Draft.holds_of_chainFaults rfl hfault
  obtain ⟨t, ht⟩ := List.exists_mem_of_ne_nil _ hholds.nonempty
  rcases hws.of_look (hholds.held t ht) with ⟨w, hw, rfl, hscopes⟩ | hbefore
  · refine exists_causes hcontained ⟨w, hw, hroot.symm ▸ ht, ?_⟩
    rw [hplain, List.map_eq_nil_iff.mp hscopes.symm]
    rfl
  · cases hkey : t.key <;> rw [hkey] at hbefore <;> cases hbefore

/-! ## Blame -/

/-- The struct is a wrapper of its only field. -/
def StructForm.IsWrapper (form : StructForm) (fields : List FieldDecl) : Prop :=
  form = .tuple ∧ fields.length = 1

theorem StructForm.IsWrapper.eq_of_getElem? {form : StructForm} {fields : List FieldDecl}
    (h : form.IsWrapper fields) {n : Nat} {f : FieldDecl} (hf : fields[n]? = some f) :
    form = .tuple ∧ fields = [f] ∧ n = 0 := by
  obtain ⟨rfl, hlength⟩ := h
  obtain ⟨g, rfl⟩ := List.length_eq_one_iff.mp hlength
  cases n with
  | zero => cases hf; exact ⟨rfl, rfl, rfl⟩
  | succ n => cases hf

theorem StructForm.tree_of_not_isWrapper {form : StructForm} {fields : List FieldDecl}
    (h : ¬ form.IsWrapper fields) :
    form.tree fields = .inline (fields.mapIdx fun n f => f.tree n) none := by
  cases form with
  | named => rfl
  | unit => rfl
  | tuple =>
    match fields with
    | [] => rfl
    | [f] => exact absurd ⟨rfl, rfl⟩ h
    | f :: g :: fs => rfl

theorem complaints_of_fieldsComplaints {fields : List FieldDecl} (h : fieldsComplaints fields = [])
    {n : Nat} {f : FieldDecl} (hf : fields[n]? = some f) : f.complaints n = [] := by
  refine List.flatten_eq_nil_iff.mp h _ (List.mem_iff_getElem?.mpr ⟨n, ?_⟩)
  rw [List.getElem?_mapIdx, hf]
  rfl

namespace Item

/-- Where the diagnostic about an inconsistency stands, and the literals that have a cause of it. -/
inductive Blames (i : Item) : StructForm → List FieldDecl → ConfigError → Span → Prop
  /-- The error names no field: the diagnostic is at the struct's first literal, and one of the
  struct's literals is a cause. -/
  | struct {form : StructForm} {fields : List FieldDecl} {e : ConfigError} {a : AnnotationText}
    {as : List AnnotationText} (hform : ¬ form.IsWrapper fields)
    (has : literals i.attributes = a :: as) (hcause : ∃ b ∈ a :: as, b.Causes e) :
    Blames i form fields e a.span
  /-- The error names a field: the diagnostic is at the first literal of the first field of that
  name, and one of the literals of a field of that name is a cause. -/
  | field {form : StructForm} {fields : List FieldDecl} {n : Nat} {f : FieldDecl}
    {source : ConfigError} {a : AnnotationText} {as : List AnnotationText} {span : Span}
    (hform : ¬ form.IsWrapper fields) (hf : fields[n]? = some f)
    (has : literals f.attributes = a :: as) (hcause : ∃ b ∈ a :: as, b.Causes source)
    (hspan : (∀ m g, m < n → fields[m]? = some g → (g.selector m).2 ≠ (f.selector n).2) →
      span = a.span) :
    Blames i form fields (.field (f.selector n).2 source) span
  /-- The struct is a wrapper: the diagnostic is at the wrapped field's first literal, or else at
  its type, and one of the literals of the field or the struct is a cause. -/
  | wrapped {f : FieldDecl} {e : ConfigError}
    (hcause : ∃ a ∈ literals f.attributes ++ literals i.attributes, a.Causes e) :
    Blames i .tuple [f] e f.blamed

variable {i : Item} {form : StructForm} {fields : List FieldDecl} {e : ConfigError}

theorem inconsistencySpan_of_ne_field {as : List AnnotationText} {ps : List Prepared}
    (h : ∀ name source, e ≠ .field name source) : i.inconsistencySpan form as ps e =
      (if form.wraps ps then ps.head?.map (·.span) else as.head?.map (·.span)).getD i.nameSpan := by
  cases e with
  | field name source => exact absurd rfl (h name source)
  | _ => rfl

theorem inconsistencySpan_field {as : List AnnotationText} {n : Nat} {f : FieldDecl}
    {source : ConfigError} (hf : fields[n]? = some f)
    (hfirst : ∀ m g, m < n → fields[m]? = some g → (g.selector m).2 ≠ (f.selector n).2) :
    i.inconsistencySpan form as (fields.mapIdx fun n f => ⟨f.tree n, f.blamed⟩)
      (.field (f.selector n).2 source) = f.blamed := by
  have hfind : (fields.mapIdx fun n f => (⟨f.tree n, f.blamed⟩ : Prepared)).find?
      (fun p => p.field.name = (f.selector n).2) = some ⟨f.tree n, f.blamed⟩ := by
    obtain ⟨hn, rfl⟩ := List.getElem?_eq_some_iff.mp hf
    refine List.find?_eq_some_iff_getElem.mpr
      ⟨decide_eq_true rfl, n, by simpa using hn, by simp, ?_⟩
    intro m hm
    have hne := hfirst m fields[m] hm (List.getElem?_eq_getElem (Nat.lt_trans hm hn))
    simpa [FieldDecl.tree] using hne
  rw [inconsistencySpan]
  simp only [hfind, Option.map_some, Option.getD_some]

/-- The diagnostic about a tree that fails to freeze. -/
theorem blames_of_freeze_error (hown : i.complaints ++ fieldsComplaints fields = [])
    (hnone : (form.tree fields).firstRefusal (literals i.attributes) = none)
    (he : ((form.tree fields).afterAll (literals i.attributes)).freeze = .error e) :
    i.Blames form fields e (i.inconsistencySpan form (literals i.attributes)
      (fields.mapIdx fun n f => ⟨f.tree n, f.blamed⟩) e) := by
  have hclean := fun n f => complaints_of_fieldsComplaints (n := n) (f := f)
    (List.append_eq_nil_iff.mp hown).2
  by_cases hform : form.IsWrapper fields
  · obtain ⟨rfl, hlength⟩ := hform
    obtain ⟨f, rfl⟩ := List.length_eq_one_iff.mp hlength
    obtain ⟨a, ha, hcauses⟩ :=
      AnnotationText.exists_causes_of_wrapper (hclean 0 f rfl) hnone he
    rw [inconsistencySpan_of_ne_field hcauses.ne_field]
    exact .wrapped ⟨a, ha, hcauses⟩
  · rw [StructForm.tree_of_not_isWrapper hform] at hnone he
    obtain ⟨func, hafter⟩ :=
      Draft.exists_afterAll_inline (fields.mapIdx fun n f => f.tree n) none (literals i.attributes)
    rw [hafter] at he
    rcases Draft.freeze_inline_error he with ⟨n, g, source, hg, hsource, rfl⟩ | hchain
    · rw [List.getElem?_mapIdx, Option.map_eq_some_iff] at hg
      obtain ⟨f, hf, rfl⟩ := hg
      obtain ⟨b, hb, hcauses⟩ := AnnotationText.exists_causes_of_field (hclean n f hf) hsource
      obtain ⟨a, as, has⟩ := List.exists_cons_of_ne_nil (List.ne_nil_of_mem hb)
      refine .field hform hf has ⟨b, has ▸ hb, hcauses⟩ fun hfirst => ?_
      refine (inconsistencySpan_field hf hfirst).trans ?_
      rw [FieldDecl.blamed, has]
      rfl
    · obtain ⟨b, hb, hcauses⟩ := AnnotationText.exists_causes_of_chain hnone hafter hchain
      obtain ⟨a, as, has⟩ := List.exists_cons_of_ne_nil (List.ne_nil_of_mem hb)
      have hwraps : form.wraps (fields.mapIdx fun n f => ⟨f.tree n, f.blamed⟩) = false := by
        rw [StructForm.wraps, List.length_mapIdx]
        simpa [StructForm.IsWrapper] using hform
      rw [inconsistencySpan_of_ne_field hcauses.ne_field, hwraps, has]
      exact .struct hform has ⟨b, has ▸ hb, hcauses⟩

/-! ## Diagnostics that point at their cause -/

/-- The stretch is that of a literal which is a cause of the error, and the error names the field if
the literal is on one. -/
def PointsAtCause (i : Item) (fields : List FieldDecl) (e : ConfigError) (span : Span) : Prop :=
  (∃ a ∈ literals i.attributes, a.Causes e ∧ a.span = span) ∨
    ∃ (n : Nat) (f : FieldDecl) (source : ConfigError), fields[n]? = some f ∧
      e = .field (f.selector n).2 source ∧
        ∃ a ∈ literals f.attributes, a.Causes source ∧ a.span = span

/-- The first literal of the place that the error names is a cause of it. -/
def FirstCauses (i : Item) (fields : List FieldDecl) (e : ConfigError) : Prop :=
  (∃ a ∈ (literals i.attributes).head?, a.Causes e) ∨
    ∃ (n : Nat) (f : FieldDecl) (source : ConfigError), fields[n]? = some f ∧
      e = .field (f.selector n).2 source ∧ ∃ a ∈ (literals f.attributes).head?, a.Causes source

/-- Different fields have different names in messages, and different places are different stretches:
those of the literals of the struct, those of the literals of a field, and those where diagnostics
about fields stand. -/
structure Spread (i : Item) (fields : List FieldDecl) : Prop where
  /-- Fields of one name are the same. -/
  names : ∀ {m n : Nat} {f g : FieldDecl}, fields[m]? = some f → fields[n]? = some g →
    (f.selector m).2 = (g.selector n).2 → m = n
  /-- Literals of the struct at one stretch are the same. -/
  struct : ∀ a ∈ literals i.attributes, ∀ b ∈ literals i.attributes, a.span = b.span → a = b
  /-- Literals of a field at one stretch are the same. -/
  field : ∀ f ∈ fields, ∀ a ∈ literals f.attributes, ∀ b ∈ literals f.attributes,
    a.span = b.span → a = b
  /-- No literal of the struct stands where a diagnostic about a field does. -/
  apart : ∀ f ∈ fields, ∀ a ∈ literals i.attributes, a.span ≠ f.blamed

/-- A diagnostic points at its cause exactly in a struct that is no wrapper, where the first literal
of the place is a cause. -/
theorem Blames.pointsAtCause_iff {span : Span} (h : i.Blames form fields e span)
    (hs : i.Spread fields) :
    i.PointsAtCause fields e span ↔ ¬ form.IsWrapper fields ∧ i.FirstCauses fields e := by
  cases h with
  | @struct _ _ _ a as hform has hcause =>
    obtain ⟨c, -, hc⟩ := hcause
    have hfirst : a ∈ literals i.attributes := has ▸ List.mem_cons_self
    constructor
    · rintro (⟨b, hb, hcauses, hspan⟩ | ⟨n, f, source, -, rfl, -⟩)
      · rw [hs.struct b hb a hfirst hspan] at hcauses
        exact ⟨hform, .inl ⟨a, by rw [has]; rfl, hcauses⟩⟩
      · exact absurd rfl (hc.ne_field _ source)
    · rintro ⟨-, ⟨b, hb, hcauses⟩ | ⟨n, f, source, -, rfl, -⟩⟩
      · rw [has] at hb
        cases hb
        exact .inl ⟨a, hfirst, hcauses, rfl⟩
      · exact absurd rfl (hc.ne_field _ source)
  | @field _ _ n f source a as _ hform hf has hcause hspan =>
    have hat : span = a.span := hspan fun m g hm hg hname =>
      absurd (hs.names hg hf hname) (Nat.ne_of_lt hm)
    have hfirst : a ∈ literals f.attributes := has ▸ List.mem_cons_self
    have hmem : f ∈ fields := List.mem_of_getElem? hf
    constructor
    · rintro (⟨b, hb, hcauses, -⟩ | ⟨m, g, source', hg, he, b, hb, hcauses, hb'⟩)
      · exact absurd rfl (hcauses.ne_field _ source)
      · obtain ⟨hname, rfl⟩ := ConfigError.field.inj he
        cases hs.names hf hg hname
        cases hf.symm.trans hg
        rw [hs.field f hmem b hb a hfirst (hb'.trans hat)] at hcauses
        exact ⟨hform, .inr ⟨n, f, source, hf, rfl, a, by rw [has]; rfl, hcauses⟩⟩
    · rintro ⟨-, ⟨b, -, hcauses⟩ | ⟨m, g, source', hg, he, b, hb, hcauses⟩⟩
      · exact absurd rfl (hcauses.ne_field _ source)
      · obtain ⟨hname, rfl⟩ := ConfigError.field.inj he
        cases hs.names hf hg hname
        cases hf.symm.trans hg
        rw [has] at hb
        cases hb
        exact .inr ⟨n, f, source, hf, rfl, a, hfirst, hcauses, hat.symm⟩
  | @wrapped f _ hcause =>
    obtain ⟨c, -, hc⟩ := hcause
    refine iff_of_false ?_ fun hwrong => hwrong.1 ⟨rfl, rfl⟩
    rintro (⟨b, hb, -, hspan⟩ | ⟨n, g, source, -, rfl, -⟩)
    · exact hs.apart f List.mem_cons_self b hb hspan
    · exact hc.ne_field _ source rfl

/-- **An inconsistency is reported at the first literal of its place.** If the annotations of a
struct are taken but its tree fails to freeze, then some literal of the struct or of one of its
fields is a cause, and the only diagnostic stands where `Blames` says. It points at its cause
exactly if the struct is no wrapper and the first literal of the place that the error names is a
cause. -/
theorem expand_blames (hbody : i.body = .struct form fields)
    (hown : i.complaints ++ fieldsComplaints fields = [])
    (hnone : (form.tree fields).firstRefusal (literals i.attributes) = none)
    (he : ((form.tree fields).afterAll (literals i.attributes)).freeze = .error e) :
    ∃ span, i.expand.2 = .error [⟨.inconsistent e, span⟩] ∧ i.Blames form fields e span ∧
      (i.Spread fields →
        (i.PointsAtCause fields e span ↔ ¬ form.IsWrapper fields ∧ i.FirstCauses fields e)) := by
  have hblames := blames_of_freeze_error hown hnone he
  exact ⟨_, expand_of_freeze_error hbody hown hnone he, hblames, hblames.pointsAtCause_iff⟩

/-! ## Structs with inconsistent tags -/

/-- A text field with literals on lines 2 and 3. -/
def nickField (first second : String) : FieldDecl :=
  textField "nick" 4 [tagsOn 2 first, tagsOn 3 second]

/-- A text without a name and without literals, whose type stands on line 2. -/
def plainField : FieldDecl := ⟨[], none, .path false [.mk (.ofName "String") .none], onLine 2⟩

/-- A wrapper of a text, with a literal on line 1. -/
def nickItem (text : String) : Item :=
  ⟨[tagsOn 1 text], .ofName "Nick", .nowhere, ⟨[], false, []⟩, .struct .tuple [plainField]⟩

theorem parse_param (k : Key) (p : String) (hk : k.shape = .param) (hne : p ≠ "")
    (hplain : ∀ c ∈ p.toList, c ≠ ',' ∧ c ≠ '[' ∧ c ≠ ']') (htrim : Text.trim p.toList = p.toList) :
    Tag.parse (Tag.texts [.simple k (some p)]) = .ok [.simple k (some p)] :=
  Tag.parse_texts_of_canonical (List.forall_mem_singleton.mpr (.param hk hne hplain htrim))

theorem parse_minLen : Tag.parse "min_len=1" = .ok [.simple .minLen (some "1")] :=
  parse_param .minLen "1" rfl (by simp) (by simp) (by decide +kernel)

theorem parse_maxLen : Tag.parse "max_len=5" = .ok [.simple .maxLen (some "5")] :=
  parse_param .maxLen "5" rfl (by simp) (by simp) (by decide +kernel)

theorem causes_iff_of_parse {a : AnnotationText} {t : Tag} (ht : t.isSimple = true)
    (hparse : Tag.parse a.text = .ok [t]) :
    a.Causes e ↔ t ∈ e.rootCause.subjects ∧ e.enclosures = [] := by
  have hleaves : Tag.leavesAll [t] = [⟨[], t⟩] := by
    rw [Tag.leavesAll_cons, Draft.leaves_of_isSimple ht]
    rfl
  constructor
  · rintro ⟨o, ⟨ts, hts, ho⟩, hcauses⟩
    cases hparse.symm.trans hts
    rw [hleaves] at ho
    cases List.mem_singleton.mp ho
    exact hcauses
  · intro hcauses
    exact ⟨⟨[], t⟩, ⟨[t], hparse, hleaves ▸ List.mem_singleton.mpr rfl⟩, hcauses⟩

/-- A struct of one text with literals on lines 2 and 3 takes them, and freezes as the text does. -/
theorem nickField_taken {first second p q : String}
    (hfirst : Tag.parse first = .ok [.simple .minLen (some p)])
    (hsecond : Tag.parse second = .ok [.simple .maxLen (some q)])
    (he : (Draft.scalar .string ⟨some p, some q⟩ none).freeze = .error e) :
    fieldsComplaints [nickField first second] = [] ∧
      ((StructForm.named.tree [nickField first second]).afterAll []).freeze =
        .error (.field "nick" e) := by
  have hannotate : (Draft.leaf .string).annotate first =
      (.scalar .string ⟨some p, none⟩ none, [⟨Tag.text (.simple .minLen (some p)), "string"⟩],
        none) := by
    rw [Draft.annotate, hfirst]
    rfl
  have hannotate' : (Draft.scalar .string ⟨some p, none⟩ none).annotate second =
      (.scalar .string ⟨some p, some q⟩ none, [⟨Tag.text (.simple .maxLen (some q)), "string"⟩],
        none) := by
    rw [Draft.annotate, hsecond]
    rfl
  have hclean : (nickField first second).complaints 0 = [] := by
    change ((Draft.firstRefusal (.leaf .string) [⟨first, onLine 2⟩, ⟨second, onLine 3⟩]).toList.map
      fun p => (⟨.field "nick" p.2, p.1.span⟩ : Diagnostic)) = _
    simp only [Draft.firstRefusal_cons, hannotate, hannotate']
    rfl
  have htree : (nickField first second).tree 0 =
      ⟨.named (.ofName "nick"), "nick", .scalar .string ⟨some p, some q⟩ none⟩ := by
    change (⟨_, _, Draft.afterAll (.leaf .string) [⟨first, onLine 2⟩, ⟨second, onLine 3⟩]⟩ :
      Field Draft) = _
    simp only [Draft.afterAll, List.foldl_cons, List.foldl_nil, hannotate, hannotate']
    rfl
  constructor
  · simp only [fieldsComplaints, List.mapIdx_cons, List.mapIdx_nil, hclean]
    rfl
  · simp only [StructForm.tree, List.mapIdx_cons, List.mapIdx_nil, htree, Draft.afterAll,
      List.foldl_nil]
    rw [Draft.freeze, Draft.freezeFields, he]
    rfl

theorem nickField_spread (first second : String) :
    (profileItem [] [nickField first second]).Spread [nickField first second] where
  names {m n f g} hf hg _ := by
    have hm := (List.getElem?_eq_some_iff.mp hf).1
    have hn := (List.getElem?_eq_some_iff.mp hg).1
    rw [List.length_singleton] at hm hn
    omega
  struct := nofun
  field f hf a ha b hb hspan := by
    cases List.mem_singleton.mp hf
    have hliterals : literals (nickField first second).attributes =
        [⟨first, onLine 2⟩, ⟨second, onLine 3⟩] := rfl
    have hne : onLine 2 ≠ onLine 3 := by decide
    rw [hliterals] at ha hb
    simp only [List.mem_cons, List.not_mem_nil, or_false] at ha hb
    rcases ha with rfl | rfl <;> rcases hb with rfl | rfl
    · rfl
    · exact absurd hspan hne
    · exact absurd hspan.symm hne
    · rfl
  apart := fun _ _ => nofun

/-- Inverted bounds in two literals are reported at the first, which has one of them. -/
theorem expand_blames_nick :
    let nick := nickField "min_len=2" "max_len=1"
    let e : ConfigError := .field "nick" (.invertedBounds .minLen "2" .maxLen "1")
    (profileItem [] [nick]).expand.2 = .error [⟨.inconsistent e, onLine 2⟩] ∧
      (profileItem [] [nick]).PointsAtCause [nick] e (onLine 2) := by
  intro nick e
  have hlower : Tag.parse "min_len=2" = .ok [.simple .minLen (some "2")] :=
    parse_param .minLen "2" rfl (by simp) (by simp) (by decide +kernel)
  have hupper : Tag.parse "max_len=1" = .ok [.simple .maxLen (some "1")] :=
    parse_param .maxLen "1" rfl (by simp) (by simp) (by decide +kernel)
  obtain ⟨hclean, hfreeze⟩ := nickField_taken hlower hupper rfl
  have hcauses : (⟨"min_len=2", onLine 2⟩ : AnnotationText).Causes
      (.invertedBounds .minLen "2" .maxLen "1") :=
    (causes_iff_of_parse rfl hlower).mpr ⟨List.mem_cons_self, rfl⟩
  obtain ⟨span, hexpand, -, hpoints⟩ :=
    expand_blames (i := profileItem [] [nick]) rfl hclean rfl hfreeze
  have hspan : span = onLine 2 := by
    rw [expand_of_freeze_error (i := profileItem [] [nick]) rfl hclean rfl hfreeze] at hexpand
    cases hexpand
    rfl
  rw [hspan] at hexpand hpoints
  refine ⟨hexpand, (hpoints (nickField_spread _ _)).mpr ⟨nofun, .inr ?_⟩⟩
  exact ⟨0, nick, _, rfl, rfl, _, rfl, hcauses⟩

/-- The bound on the second literal is malformed and the first is blamed; and of a wrapper, whose
literal has the malformed bound, the type inside is. -/
theorem expand_misplaces :
    let nick := nickField "min_len=1" "max_len=x"
    let cause : ConfigError := .malformedBound .maxLen "x" "non-negative integer"
    ((profileItem [] [nick]).expand.2 =
        .error [⟨.inconsistent (.field "nick" cause), onLine 2⟩] ∧
      ¬ (profileItem [] [nick]).PointsAtCause [nick] (.field "nick" cause) (onLine 2)) ∧
    (nickItem "max_len=x").expand.2 = .error [⟨.inconsistent cause, onLine 2⟩] ∧
      ¬ (nickItem "max_len=x").PointsAtCause [plainField] cause (onLine 2) := by
  intro nick cause
  have hlower : Tag.parse "min_len=1" = .ok [.simple .minLen (some "1")] :=
    parse_param .minLen "1" rfl (by simp) (by simp) (by decide +kernel)
  have hupper : Tag.parse "max_len=x" = .ok [.simple .maxLen (some "x")] :=
    parse_param .maxLen "x" rfl (by simp) (by simp) (by decide +kernel)
  refine ⟨⟨?_, ?_⟩, ?_, ?_⟩
  · obtain ⟨hclean, hfreeze⟩ := nickField_taken (e := cause) hlower hupper rfl
    exact expand_of_freeze_error (i := profileItem [] [nick]) rfl hclean rfl hfreeze
  · rintro (⟨a, ha, -⟩ | ⟨n, f, source, hf, he, a, ha, hcauses, hspan⟩)
    · cases ha
    · obtain ⟨-, rfl⟩ := ConfigError.field.inj he
      cases List.mem_singleton.mp (List.mem_of_getElem? hf)
      have hfirst := (nickField_spread "min_len=1" "max_len=x").field nick
        (List.mem_singleton.mpr rfl) a ha ⟨"min_len=1", onLine 2⟩ List.mem_cons_self hspan
      rw [hfirst, causes_iff_of_parse rfl hlower] at hcauses
      cases List.mem_singleton.mp hcauses.1
  · have htaken : ((StructForm.tuple.tree [plainField]).annotate "max_len=x").2.2 = none := by
      rw [Draft.annotate, hupper]
      rfl
    have hdraft : ((StructForm.tuple.tree [plainField]).annotate "max_len=x").1 =
        .wrapper selfTy .newtype (.scalar .string ⟨none, some "x"⟩ none) none := by
      rw [Draft.annotate, hupper]
      rfl
    have hnone : (StructForm.tuple.tree [plainField]).firstRefusal [⟨"max_len=x", onLine 1⟩] =
        none := by
      rw [Draft.firstRefusal_cons, htaken]
      rfl
    have hfreeze : ((StructForm.tuple.tree [plainField]).afterAll
        [⟨"max_len=x", onLine 1⟩]).freeze = .error cause := by
      rw [Draft.afterAll, List.foldl_cons, hdraft]
      rfl
    exact expand_of_freeze_error (i := nickItem "max_len=x") rfl rfl hnone hfreeze
  · rintro (⟨a, ha, -, hspan⟩ | ⟨n, f, source, -, he, -⟩)
    · have hne : onLine 1 ≠ onLine 2 := by decide
      cases List.mem_singleton.mp ha
      exact hne hspan
    · have he : ConfigError.malformedBound .maxLen "x" "non-negative integer" = _ := he
      cases he

end Item

end FieldRules
