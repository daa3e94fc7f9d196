import FieldRules.Proofs.Config.Acceptance
import FieldRules.Proofs.Config.Inspections

/-!
# What a complaint is about

A complaint of a tree is about the tags in one or two slots of one node (`ConfigError.subjects`),
and the fields and scopes around the complaint are those on the way to that node
(`Draft.exists_holds`). A tree that began with empty slots has each of these tags from the tags that
were applied to it, and there the tag stands in just these scopes (`Stores.exists_causes`).
-/

namespace FieldRules

/-! ## The tags of an error -/

/-- The tags that a root cause is about. -/
def ConfigError.subjects : ConfigError → List Tag
  | malformedBound k value _ => [.simple k (some value)]
  | negativeBound k value => [.simple k (some value)]
  | invertedBounds lowerKey lower upperKey upper =>
    [.simple lowerKey (some lower), .simple upperKey (some upper)]
  | conflictingNullability => [.simple .nullable none, .simple .notNull none]
  | invalidValidator _ chain => [.simple .func (some chain)]
  | _ => []

/-- The key of a scope; none for a field. -/
def Enclosure.scope? : Enclosure → Option Key
  | scope k => some k
  | field _ => none

/-- What errors from below a step have around them: nothing, a scope of the key, or a field. -/
def Step.enclosure? : Step → Option (Option Key)
  | inside => none
  | wrapped => none
  | item => some (some .item)
  | key => some (some .key)
  | value => some (some .value)
  | field _ => some none

/-- The node at the path holds the tags that the error is about. -/
structure Draft.Holds (d : Draft) (path : List Step) (e : ConfigError) : Prop where
  nonempty : e.subjects ≠ []
  held : ∀ t ∈ e.subjects, d.look path t.key = some (some t)

/-! ## Complaints about a node -/

/-- A reader of bounds keeps the text, and its complaints are about the tag with the text. -/
structure Bound.Faithful {α : Type} (read : Key → String → Except ConfigError (Bound α)) :
    Prop where
  text : ∀ {k text b}, read k text = .ok b → b.text = text
  subjects : ∀ {k text e}, read k text = .error e → e.subjects = [.simple k (some text)]

namespace Bound

theorem faithful_count : Faithful count where
  text h := by
    unfold count at h
    split at h
    · cases h
    · split at h
      · cases h
      · split at h
        · cases h
        · cases h; rfl
  subjects h := by
    unfold count at h
    split at h
    · cases h; rfl
    · split at h
      · cases h; rfl
      · split at h
        · cases h; rfl
        · cases h

theorem faithful_integer : Faithful integer where
  text h := by
    unfold integer at h
    split at h
    · cases h; rfl
    · cases h
  subjects h := by
    unfold integer at h
    split at h
    · cases h
    · cases h; rfl

theorem faithful_float : Faithful float where
  text h := by
    unfold float at h
    split at h
    · cases h; rfl
    · cases h
  subjects h := by
    unfold float at h
    split at h
    · cases h
    · cases h; rfl

end Bound

namespace Draft

variable {d e : Draft}

/-- A complaint about limits is about the tags in the two slots. -/
theorem holds_of_faults {α : Type} {read : Key → String → Except ConfigError (Bound α)}
    {below : α → α → Bool} {lowerKey upperKey : Key} {slots : Limits String} {c : ConfigError}
    (hread : Bound.Faithful read)
    (hlower : d.slot? lowerKey = some (heldParam lowerKey slots.lower))
    (hupper : d.slot? upperKey = some (heldParam upperKey slots.upper))
    (hc : some c ∈ Limits.faults read below lowerKey upperKey slots) : d.Holds [] c := by
  -- the complaint about one bound is about the slot that it was read from
  have hsingle : ∀ {k : Key} {slot : Option String}, d.slot? k = some (heldParam k slot) →
      fault (Bound.ofSlot read k slot) = some c → d.Holds [] c := by
    intro k slot hslot hfault
    cases slot with
    | none => cases hfault
    | some text =>
      rw [Bound.ofSlot, fault_map] at hfault
      have hsubjects := hread.subjects (fault_eq_some_iff.mp hfault)
      refine ⟨by rw [hsubjects]; exact List.cons_ne_nil _ _, fun t ht => ?_⟩
      rw [hsubjects] at ht
      cases List.mem_singleton.mp ht
      exact hslot
  simp only [Limits.faults, List.mem_cons, List.not_mem_nil, or_false] at hc
  rcases hc with hc | hc | hc
  · exact hsingle hlower hc.symm
  · exact hsingle hupper hc.symm
  · unfold Limits.inversion at hc
    split at hc
    next l u hl hu =>
      split at hc
      · cases hc
        obtain ⟨lower, hlo, hl⟩ := Bound.ofSlot_eq_some hl
        obtain ⟨upper, hup, hu⟩ := Bound.ofSlot_eq_some hu
        rw [hlo] at hlower
        rw [hup] at hupper
        rw [hread.text hl, hread.text hu]
        refine ⟨List.cons_ne_nil _ _, List.forall_mem_cons.mpr ⟨hlower, ?_⟩⟩
        exact List.forall_mem_singleton.mpr hupper
      · cases hc
    next => cases hc

/-- A complaint about a chain is about the tag in its slot. -/
theorem holds_of_chainFaults {func : Option String} {c : ConfigError}
    (hslot : d.slot? .func = some (heldParam .func func)) (hc : some c ∈ chainFaults func) :
    d.Holds [] c := by
  have hfault := fault_eq_some_iff.mp (List.mem_singleton.mp hc).symm
  cases func with
  | none => cases hfault
  | some chain =>
    have hentries : ∀ ss, Chain.entries chain ss = .error c →
        ∃ reference, c = .invalidValidator reference chain := by
      intro ss
      induction ss with
      | nil => exact fun h => nomatch h
      | cons s ss ih =>
        intro h
        unfold Chain.entries at h
        split at h
        · cases h
          exact ⟨_, rfl⟩
        · exact ih (fault_eq_some_iff.mp (fault_map _ _ ▸ fault_eq_some_iff.mpr h))
    obtain ⟨reference, rfl⟩ := hentries _ hfault
    exact ⟨List.cons_ne_nil _ _, List.forall_mem_singleton.mpr hslot⟩

/-! ## Complaints about a tree -/

/-- What a part holds, seen from the node. -/
theorem Holds.below {st : Step} {path : List Step} {c : ConfigError} (h : e.Holds path c)
    (hchild : d.child? st = some e) : d.Holds (st :: path) c :=
  ⟨h.nonempty, fun t ht => by rw [look_cons, hchild]; exact h.held t ht⟩

/-- Every complaint is about tags that one node holds, and has around it what is on the way to that
node. -/
def Sourced (d : Draft) (is : List Inspection) : Prop :=
  ∀ i ∈ is, ∀ c, i.complaint = some c →
    ∃ path, path.filterMap Step.enclosure? = i.path.map Enclosure.scope? ∧ d.Holds path c

namespace Sourced

variable {is js : List Inspection}

theorem nil (d : Draft) : Sourced d [] := fun _ hi => (nomatch hi)

theorem append (his : Sourced d is) (hjs : Sourced d js) : Sourced d (is ++ js) :=
  fun i hi => (List.mem_append.mp hi).elim (his i) (hjs i)

theorem here {faults : List (Option ConfigError)} (h : ∀ c, some c ∈ faults → d.Holds [] c) :
    Sourced d (Inspection.here faults) := by
  intro i hi c hc
  obtain ⟨o, ho, rfl⟩ := List.mem_map.mp hi
  exact ⟨[], rfl, h c (hc ▸ ho)⟩

theorem inside (st : Step) (h : Sourced e is) (hchild : d.child? st = some e)
    (hst : st.enclosure? = none) : Sourced d is := by
  intro i hi c hc
  obtain ⟨path, hpath, hholds⟩ := h i hi c hc
  exact ⟨st :: path, by rw [List.filterMap_cons_none hst, hpath], hholds.below hchild⟩

theorem within (st : Step) (h : Sourced e is) (hchild : d.child? st = some e) {c : Enclosure}
    (hst : st.enclosure? = some c.scope?) : Sourced d (is.map (Inspection.within c)) := by
  intro j hj cause hcause
  obtain ⟨i, hi, rfl⟩ := List.mem_map.mp hj
  obtain ⟨path, hpath, hholds⟩ := h i hi cause hcause
  refine ⟨st :: path, ?_, hholds.below hchild⟩
  rw [List.filterMap_cons_some hst, hpath]
  rfl

end Sourced

theorem sourced_scalar (kind : ScalarKind) (limits : Limits String) (func : Option String) :
    Sourced (.scalar kind limits func)
      (Inspection.here (scalarFaults limits kind ++ chainFaults func)) := by
  refine .here fun c hc => ?_
  rcases List.mem_append.mp hc with hc | hc
  · cases kind with
    | integer => exact holds_of_faults Bound.faithful_integer rfl rfl hc
    | float => exact holds_of_faults Bound.faithful_float rfl rfl hc
    | string => exact holds_of_faults Bound.faithful_count rfl rfl hc
    | byte => cases hc
    | bool => cases hc
  · exact holds_of_chainFaults (by cases kind <;> rfl) hc

theorem sourced_fields (before fields : List (Field Draft)) (func : Option String)
    (ih : ∀ f ∈ fields, Sourced f.node f.node.inspections) :
    Sourced (.inline (before ++ fields) func) (fieldInspections fields) := by
  induction fields generalizing before with
  | nil => exact .nil _
  | cons f fields ihf =>
    have hchild : (inline (before ++ f :: fields) func).child? (.field before.length) =
        some f.node := by
      simp [child?]
    have hrest := ihf (before ++ [f]) fun g hg => ih g (List.mem_cons_of_mem f hg)
    rw [List.append_assoc, List.singleton_append] at hrest
    exact .append ((ih f List.mem_cons_self).within _ hchild rfl) hrest

/-- Every complaint of a tree is about tags that one of its nodes holds. -/
theorem sourced_inspections (d : Draft) : Sourced d d.inspections := by
  induction d using Draft.induct with
  | scalar kind limits func => exact sourced_scalar kind limits func
  | optional nullable notNull inner ih =>
    refine .append (.here fun c hc => ?_) (ih.inside .inside rfl rfl)
    have hconflict := List.mem_singleton.mp hc
    cases nullable <;> cases notNull <;> cases hconflict
    exact ⟨List.cons_ne_nil _ _, List.forall_mem_cons.mpr ⟨rfl, List.forall_mem_singleton.mpr rfl⟩⟩
  | array size item ih =>
    exact .append (.here fun _ => holds_of_faults Bound.faithful_count rfl rfl)
      (ih.within .item rfl rfl)
  | map size k v ihk ihv =>
    exact .append (.append (.here fun _ => holds_of_faults Bound.faithful_count rfl rfl)
      (ihk.within .key rfl rfl)) (ihv.within .value rfl rfl)
  | inline fields func ih =>
    exact .append (sourced_fields [] fields func ih) (.here fun _ => holds_of_chainFaults rfl)
  | delegated func => exact .here fun _ => holds_of_chainFaults rfl
  | wrapper ty mode inner func ih =>
    exact .append (ih.inside .wrapped rfl rfl) (.here fun _ => holds_of_chainFaults rfl)
  | interface indirect func => exact .here fun _ => holds_of_chainFaults rfl
  | skip => exact .nil _

/-- A tree that fails to freeze holds the tags that the error is about, at a node on the way to
which are the fields and scopes of the error. -/
theorem exists_holds {e : ConfigError} (h : d.freeze = .error e) :
    ∃ path, path.filterMap Step.enclosure? = e.enclosures.map Enclosure.scope? ∧
      d.Holds path e.rootCause := by
  obtain ⟨before, i, after, hsplit, -, hcause, hpath⟩ := (freeze_eq_error_iff d e).mp h
  rw [← hpath]
  exact sourced_inspections d i (hsplit ▸ List.mem_append_right _ List.mem_cons_self) _ hcause

end Draft

/-! ## Where the tags come from -/

/-- The tag is one that the error is about, and stands in the scopes that the error names. -/
def Occurrence.Causes (o : Occurrence) (e : ConfigError) : Prop :=
  o.tag ∈ e.rootCause.subjects ∧ e.enclosures = o.scopes.map .scope

/-- The error has nothing around it but scopes if a tag causes it. -/
theorem Occurrence.Causes.ne_field {o : Occurrence} {e : ConfigError} (h : o.Causes e)
    (name : String) (source : ConfigError) : e ≠ .field name source := by
  rintro rfl
  obtain ⟨-, hscopes⟩ := h
  cases hs : o.scopes with
  | nil => rw [hs] at hscopes; cases hscopes
  | cons k ks => rw [hs] at hscopes; cases hscopes

theorem eq_map_scope {cs : List Enclosure} {ks : List Key}
    (h : cs.map Enclosure.scope? = ks.map some) : cs = ks.map .scope := by
  induction cs generalizing ks with
  | nil =>
    cases ks with
    | nil => rfl
    | cons k ks => cases h
  | cons c cs ih =>
    cases ks with
    | nil => cases h
    | cons k ks =>
      obtain ⟨hc, hcs⟩ := List.cons.inj h
      cases c with
      | scope l => cases hc; exact congrArg (_ :: ·) (ih hcs)
      | field name => cases hc

namespace Draft

variable {k : Key} {d e : Draft} {st : Step}

theorem enclosure?_of_inward? (h : inward? k d = some (st, e)) : st.enclosure? = none := by
  unfold inward? at h
  split at h
  · split at h <;> cases h
    rfl
  · split at h <;> cases h
    rfl
  · cases h

theorem enclosure?_of_part? (h : part? k d = some (st, e)) : st.enclosure? = some (some k) := by
  unfold part? at h
  split at h <;> cases h <;> rfl

end Draft

theorem Routed.ne_nil {ks : List Key} {d : Draft} {path : List Step} (h : Routed ks d path) :
    ks ≠ [] := by
  cases h <;> exact List.cons_ne_nil _ _

/-- The scopes on a route are those of its keys. -/
theorem Routed.enclosures {ks : List Key} {d : Draft} {path : List Step} (h : Routed ks d path) :
    path.filterMap Step.enclosure? = ks.dropLast.map some := by
  induction h with
  | stays h => rfl
  | inward h hr ih => rw [List.filterMap_cons_none (Draft.enclosure?_of_inward? h), ih]
  | scope h hp hr ih =>
    rw [List.filterMap_cons_some (Draft.enclosure?_of_part? hp), ih,
      List.dropLast_cons_of_ne_nil hr.ne_nil]
    rfl

/-- A tag that a tree holds was there before, or it is one of those that were stored since. -/
theorem Stores.of_look {d d' : Draft} {ws : List Write} (h : Stores d d' ws) {path : List Step}
    {t : Tag} (ht : d'.look path t.key = some (some t)) :
    (∃ w ∈ ws, w.tag = t ∧ path.filterMap Step.enclosure? = w.scopes.map some) ∨
      d.look path t.key = some (some t) := by
  by_cases hplace : (path, t.key) ∈ ws.map Write.place
  · obtain ⟨w, hw, hplace⟩ := List.mem_map.mp hplace
    obtain ⟨rfl, hkey⟩ := Prod.mk.inj hplace
    have hstored := h.stored w hw
    rw [hkey, ht] at hstored
    refine .inl ⟨w, hw, (Option.some.inj (Option.some.inj hstored)).symm, ?_⟩
    rw [(h.routed w hw).enclosures, Occurrence.keys, List.dropLast_concat]
  · exact .inr (h.frame path t.key hplace ▸ ht)

/-- If a tree fails to freeze, a tag that was stored in it causes the error, or one that it held
before. -/
theorem Stores.exists_causes {d d' : Draft} {ws : List Write} (h : Stores d d' ws)
    {e : ConfigError} (he : d'.freeze = .error e) :
    (∃ w ∈ ws, w.toOccurrence.Causes e) ∨ ∃ path, ∃ t ∈ e.rootCause.subjects,
      path.filterMap Step.enclosure? = e.enclosures.map Enclosure.scope? ∧
        d.look path t.key = some (some t) := by
  obtain ⟨path, hpath, hholds⟩ := Draft.exists_holds he
  obtain ⟨t, ht⟩ := List.exists_mem_of_ne_nil _ hholds.nonempty
  rcases h.of_look (hholds.held t ht) with ⟨w, hw, rfl, hscopes⟩ | hbefore
  · exact .inl ⟨w, hw, ht, eq_map_scope (hpath.symm.trans hscopes)⟩
  · exact .inr ⟨path, t, ht, hpath, hbefore⟩

/-! ## Trees without tags -/

/-- A tree as a type begins it: all slots are empty, and there is no struct or wrapper in it. -/
inductive Draft.Fresh : Draft → Prop
  | leaf (kind : ScalarKind) : Fresh (.leaf kind)
  | optional {inner : Draft} (h : Fresh inner) : Fresh (.optional false false inner)
  | array {item : Draft} (h : Fresh item) : Fresh (.array .none item)
  | map {k v : Draft} (hk : Fresh k) (hv : Fresh v) : Fresh (.map .none k v)
  | delegated : Fresh (.delegated none)
  | interface (indirect : Bool) : Fresh (.interface indirect none)
  | skip : Fresh .skip

namespace Draft.Fresh

variable {d e : Draft}

theorem slot?_ne (h : Fresh d) (k : Key) (t : Tag) : d.slot? k ≠ some (some t) := by
  cases h with
  | leaf kind => cases kind <;> cases k <;> exact nofun
  | _ => cases k <;> exact nofun

theorem child? (h : Fresh d) {st : Step} (hchild : d.child? st = some e) : Fresh e := by
  cases h <;> cases st <;> cases hchild <;> assumption

/-- A tree as a type begins it holds no tag. -/
theorem look_ne (h : Fresh d) (path : List Step) (k : Key) (t : Tag) :
    d.look path k ≠ some (some t) := by
  induction path generalizing d with
  | nil => exact h.slot?_ne k t
  | cons st path ih =>
    rw [look_cons]
    cases hchild : d.child? st with
    | none => exact nofun
    | some e => exact ih (h.child? hchild)

end Draft.Fresh

end FieldRules
