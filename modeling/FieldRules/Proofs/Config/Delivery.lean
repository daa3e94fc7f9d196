import FieldRules.Config.SetTag
import FieldRules.Proofs.Config.Routing

/-!
# Delivery of tags

What `Draft.setTag` does with a tag and the tags inside it. A node that keeps a tag stores it in an
empty slot or refuses it (`Kept`); one that does not keep it hands it to a part, and the result is
that of the part, put in its place.
-/

namespace FieldRules.Draft

open Configured

-- The equations that the proofs about nodes, tags and scopes rewrite with.
attribute [local simp] receive setTag setScope

/-! ## A node with a slot -/

/-- A node has stored a tag in its slot, which held `held` before, or refused it and is as it was. A
tag that fits its key is refused only if the slot was filled. -/
structure Kept (d : Draft) (t : Tag) (held : Option Tag) (c : Configured) : Prop where
  stored : c.refusal = none → t.isSimple = true ∧ t.Fits ∧ Stores d c.draft [⟨⟨[], t⟩, []⟩]
  unchanged : ∀ e, c.refusal = some e → c.draft = d
  duplicate : ∀ e, c.refusal = some e → t.Fits → (∃ u, held = some u) ∧ e = .duplicateTag t.key

/-- A tag for a slot that holds a parameter. -/
theorem kept_param {t : Tag} (put : Option String → Draft) (slot : Option String)
    (hshape : t.key.shape = .param) (hin : inward? t.key (put slot) = none)
    (hslot : ∀ s, (put s).slot? t.key = some (heldParam t.key s))
    (hother : ∀ s s' k, k ≠ t.key → (put s).slot? k = (put s').slot? k)
    (hchild : ∀ s s' st, (put s).child? st = (put s').child? st)
    (hbare : ∀ s s', (put s).bare = (put s').bare) :
    Kept (put slot) t (heldParam t.key slot) (ofSlot (put slot) put (t.fill slot)) := by
  cases slot with
  | some q =>
    refine ⟨fun h => (nomatch h), fun e _ => rfl, fun e h _ => ?_⟩
    cases h
    exact ⟨⟨_, rfl⟩, rfl⟩
  | none =>
    cases t with
    | scope k ts =>
      refine ⟨fun h => (nomatch h), fun e _ => rfl, fun e _ hfits => ?_⟩
      rw [Tag.Fits] at hfits
      cases hshape.symm.trans hfits
    | simple k p =>
      cases p with
      | none =>
        refine ⟨fun h => (nomatch h), fun e _ => rfl, fun e _ hfits => ?_⟩
        rw [Tag.Fits] at hfits
        cases hshape.symm.trans hfits
      | some p =>
        refine ⟨fun _ => ⟨rfl, hshape, ?_⟩, fun e h => (nomatch h), fun e h => (nomatch h)⟩
        exact .own hin (hbare _ _) (hchild _ _) (hslot none) (hslot (some p)) (hother _ _)

/-- A tag for a slot that is a flag. -/
theorem kept_flag {t : Tag} (put : Bool → Draft) (flag : Bool) (hshape : t.key.shape = .flag)
    (hin : inward? t.key (put flag) = none)
    (hslot : ∀ b, (put b).slot? t.key = some (heldFlag t.key b))
    (hother : ∀ b b' k, k ≠ t.key → (put b).slot? k = (put b').slot? k)
    (hchild : ∀ b b' st, (put b).child? st = (put b').child? st)
    (hbare : ∀ b b', (put b).bare = (put b').bare) :
    Kept (put flag) t (heldFlag t.key flag) (ofSlot (put flag) put (t.raise flag)) := by
  cases t with
  | scope k ts =>
    refine ⟨fun h => (nomatch h), fun e _ => rfl, fun e _ hfits => ?_⟩
    rw [Tag.Fits] at hfits
    cases hshape.symm.trans hfits
  | simple k p =>
    cases p with
    | some p =>
      refine ⟨fun h => (nomatch h), fun e _ => rfl, fun e _ hfits => ?_⟩
      rw [Tag.Fits] at hfits
      cases hshape.symm.trans hfits
    | none =>
      cases flag with
      | true =>
        refine ⟨fun h => (nomatch h), fun e _ => rfl, fun e h _ => ?_⟩
        cases h
        exact ⟨⟨_, rfl⟩, rfl⟩
      | false =>
        refine ⟨fun _ => ⟨rfl, hshape, ?_⟩, fun e h => (nomatch h), fun e h => (nomatch h)⟩
        exact .own hin (hbare _ _) (hchild _ _) (hslot false) (hslot true) (hother _ _)

/-! ## Limits -/

/-- The limit on one side. -/
def side (upper : Bool) (l : Limits String) : Option String := if upper then l.upper else l.lower

/-- Limits with another one on one side. -/
def setSide (upper : Bool) (l : Limits String) (s : Option String) : Limits String :=
  if upper then { l with upper := s } else { l with lower := s }

theorem side_setSide (upper : Bool) (l : Limits String) (s : Option String) :
    side upper (setSide upper l s) = s := by
  cases upper <;> rfl

theorem side_setSide_of_ne {upper other : Bool} (h : other ≠ upper) (l : Limits String)
    (s : Option String) : side other (setSide upper l s) = side other l := by
  cases upper <;> cases other <;> first | rfl | exact absurd rfl h

theorem setSide_side (upper : Bool) (l : Limits String) : setSide upper l (side upper l) = l := by
  cases upper <;> rfl

theorem setLimit_eq (t : Tag) (upper : Bool) (l : Limits String) :
    setLimit t upper l = (t.fill (side upper l)).map (setSide upper l) := by
  cases upper <;> rfl

theorem ofSlot_map {α β : Type} (d : Draft) (put : β → Draft) (x : Except ConfigError α)
    (f : α → β) : ofSlot d put (x.map f) = ofSlot d (fun a => put (f a)) x := by
  cases x <;> rfl

/-- A tag for one of two limits. `table` says which limit a key sets, and `rest` gives the other
slots of the node. -/
theorem kept_limit {t : Tag} {table : Key → Option Bool} (put : Limits String → Draft)
    {l : Limits String} {upper : Bool} {rest : Key → Option (Option Tag)}
    (hshape : t.key.shape = .param) (hin : ∀ l, inward? t.key (put l) = none)
    (htable : table t.key = some upper) (hinj : ∀ k, table k = some upper → k = t.key)
    (hslot : ∀ l k, (put l).slot? k =
      (table k).elim (rest k) fun upper => some (heldParam k (side upper l)))
    (hchild : ∀ l l' st, (put l).child? st = (put l').child? st)
    (hbare : ∀ l l', (put l).bare = (put l').bare) :
    Kept (put l) t (heldParam t.key (side upper l)) (ofSlot (put l) put (setLimit t upper l)) := by
  have hkept := kept_param (fun s => put (setSide upper l s)) (side upper l) hshape (hin _)
    (fun s => by rw [hslot, htable, Option.elim_some, side_setSide])
    (fun s s' k hk => ?_) (fun s s' => hchild _ _) (fun s s' => hbare _ _)
  · rwa [setSide_side, ← ofSlot_map, ← setLimit_eq] at hkept
  · have hother : ∀ other, table k = some other → other ≠ upper := by
      rintro other hto rfl
      exact hk (hinj k hto)
    rw [hslot, hslot]
    cases htk : table k with
    | none => rfl
    | some other =>
      rw [Option.elim_some, Option.elim_some, side_setSide_of_ne (hother other htk),
        side_setSide_of_ne (hother other htk)]

/-! ## What a node does -/

theorem slot?_scalar (kind : ScalarKind) (limits : Limits String) (func : Option String) (k : Key) :
    (scalar kind limits func).slot? k =
      (scalarLimit? kind k).elim (if k = .func then some (heldParam k func) else none)
        fun upper => some (heldParam k (side upper limits)) := by
  cases kind <;> cases k <;> rfl

theorem slot?_array (size : Limits String) (item : Draft) (k : Key) :
    (array size item).slot? k =
      (sizeLimit? k).elim none fun upper => some (heldParam k (side upper size)) := by
  cases k <;> rfl

theorem slot?_map (size : Limits String) (key value : Draft) (k : Key) :
    (map size key value).slot? k =
      (sizeLimit? k).elim none fun upper => some (heldParam k (side upper size)) := by
  cases k <;> rfl

/-- The key of a limit of a leaf. -/
def scalarLimitKey : ScalarKind → Bool → Key
  | .string, upper => if upper then .maxLen else .minLen
  | _, upper => if upper then .max else .min

/-- The key of a limit of a collection. -/
def sizeLimitKey (upper : Bool) : Key := if upper then .maxItems else .minItems

theorem eq_scalarLimitKey {kind : ScalarKind} {k : Key} {upper : Bool}
    (h : scalarLimit? kind k = some upper) : k = scalarLimitKey kind upper := by
  cases kind <;> cases k <;> cases h <;> rfl

theorem eq_sizeLimitKey {k : Key} {upper : Bool} (h : sizeLimit? k = some upper) :
    k = sizeLimitKey upper := by
  cases k <;> cases h <;> rfl

theorem shape_scalarLimitKey (kind : ScalarKind) (upper : Bool) :
    (scalarLimitKey kind upper).shape = .param := by
  cases kind <;> cases upper <;> rfl

theorem shape_sizeLimitKey (upper : Bool) : (sizeLimitKey upper).shape = .param := by
  cases upper <;> rfl

variable {t : Tag} {enter : Draft → Configured} {d e : Draft} {st : Step}

variable (enter) in
/-- A tag that is handed inward. -/
theorem receive_inward (h : inward? t.key d = some (st, e)) :
    (d.receive t enter).draft = d.put st (e.receive t enter).draft ∧
      (d.receive t enter).refusal = (e.receive t enter).refusal := by
  cases d with
  | optional nullable notNull inner =>
    rw [inward?] at h
    split at h
    · cases h
    next hk =>
      cases h
      rw [not_or] at hk
      rw [receive]
      split
      · exact absurd ‹_› hk.1
      · exact absurd ‹_› hk.2
      · exact ⟨rfl, rfl⟩
  | wrapper ty mode inner func =>
    rw [inward?] at h
    split at h
    · cases h
    next hk =>
      cases h
      rw [not_or, not_or] at hk
      have hsize : (sizeLimit? t.key).isSome = false := by
        generalize t.key = k at hk
        cases k <;> first | rfl | exact absurd rfl hk.2.1 | exact absurd rfl hk.2.2
      rw [receive, if_neg hk.1, hsize, if_neg Bool.false_ne_true]
      exact ⟨rfl, rfl⟩
  | _ => cases h

variable (enter) in
/-- A tag whose scope is about a part of the node. -/
theorem receive_part (h : part? t.key d = some (st, e)) :
    (d.receive t enter).draft = d.put st (enter e).draft ∧
      (d.receive t enter).refusal = (enter e).refusal := by
  unfold part? at h
  split at h
  next hk =>
    cases h
    rw [receive, hk]
    exact ⟨rfl, rfl⟩
  next hk =>
    cases h
    rw [receive, hk]
    exact ⟨rfl, rfl⟩
  next hk =>
    cases h
    rw [receive, hk]
    exact ⟨rfl, rfl⟩
  next => cases h

variable (enter) in
/-- A tag that means nothing for the node that keeps it. -/
theorem receive_unrecognized (hin : inward? t.key d = none) (hslot : d.slot? t.key = none)
    (hpart : part? t.key d = none) :
    (d.receive t enter).draft = d ∧
      (d.receive t enter).refusal = some (.unrecognizedTag t.text d.describe) := by
  cases d with
  | scalar kind limits func =>
    rw [slot?_scalar] at hslot
    rw [receive]
    cases hl : scalarLimit? kind t.key with
    | some upper => rw [hl] at hslot; cases hslot
    | none =>
      rw [hl, Option.elim_none] at hslot
      split at hslot
      · cases hslot
      next hk =>
        simp only [if_neg hk]
        exact ⟨rfl, rfl⟩
  | _ =>
    -- Every key that is left means nothing here: the others have a slot, a part or lead inward.
    rw [receive]
    cases hk : t.key <;> rw [hk] at hin hslot hpart <;>
      first
      | (cases hslot; done)
      | (cases hpart; done)
      | (cases hin; done)
      | exact ⟨rfl, rfl⟩

/-- A tag for the chain of a node. `rest` gives the other slots of the node. -/
theorem kept_func {held : Option Tag} (put : Option String → Draft) (func : Option String)
    (rest : Key → Option (Option Tag)) (hk : t.key = .func)
    (hheld : (put func).slot? t.key = some held) (hin : inward? t.key (put func) = none)
    (hslot : ∀ s k, (put s).slot? k = if k = .func then some (heldParam k s) else rest k)
    (hchild : ∀ s s' st, (put s).child? st = (put s').child? st)
    (hbare : ∀ s s', (put s).bare = (put s').bare) :
    Kept (put func) t held (ofSlot (put func) put (t.fill func)) := by
  rw [hslot, if_pos hk] at hheld
  cases hheld
  refine kept_param put func (by rw [hk]; rfl) hin (fun s => ?_) (fun s s' k hne => ?_) hchild hbare
  · rw [hslot, if_pos hk]
  · rw [hk] at hne
    rw [hslot, hslot, if_neg hne, if_neg hne]

theorem Kept.after {held : Option Tag} {c : Configured} (h : Kept d t held c) (s : Sighting) :
    Kept d t held (c.after s) :=
  ⟨h.stored, h.unchanged, h.duplicate⟩

/-- A leaf that keeps a tag. -/
theorem kept_scalar {kind : ScalarKind} {limits : Limits String} {func : Option String}
    {held : Option Tag} (hslot : (scalar kind limits func).slot? t.key = some held) :
    Kept (scalar kind limits func) t held ((scalar kind limits func).receive t enter) := by
  rw [receive]
  refine Kept.after ?_ _
  cases hl : scalarLimit? kind t.key with
  | some upper =>
    rw [slot?_scalar, hl] at hslot
    cases hslot
    have hkey := eq_scalarLimitKey hl
    have hshape : t.key.shape = .param := by
      rw [hkey]
      exact shape_scalarLimitKey kind upper
    refine kept_limit (scalar kind · func) hshape (fun _ => rfl) hl
      (fun k hk => (eq_scalarLimitKey hk).trans hkey.symm) (fun l k => slot?_scalar kind l func k)
      (fun _ _ st => by cases st <;> rfl) fun l l' => ?_
    cases kind <;> first | rfl | cases hl
  | none =>
    have hk : t.key = .func := by
      rw [slot?_scalar, hl, Option.elim_none] at hslot
      split at hslot
      · assumption
      · cases hslot
    simp only [if_pos hk]
    refine kept_func (scalar kind limits ·) func (scalar kind limits none).slot? hk hslot rfl
      (fun s k => ?_) (fun _ _ st => by cases st <;> rfl) fun _ _ => rfl
    cases kind <;> cases k <;> rfl

/-- An optional value that keeps a tag. -/
theorem kept_optional {nullable notNull : Bool} {inner : Draft} {held : Option Tag}
    (hin : inward? t.key (optional nullable notNull inner) = none)
    (hslot : (optional nullable notNull inner).slot? t.key = some held) :
    Kept (optional nullable notNull inner) t held
      ((optional nullable notNull inner).receive t enter) := by
  rw [receive]
  refine Kept.after ?_ _
  split
  next hk =>
    have hheld : held = heldFlag t.key nullable := by
      rw [hk] at hslot ⊢
      exact (Option.some.inj hslot).symm
    subst hheld
    refine kept_flag (optional · notNull inner) nullable (by rw [hk]; rfl) hin
      (fun b => by rw [hk]; rfl) (fun b b' k hne => ?_) (fun _ _ st => by cases st <;> rfl)
      fun _ _ => rfl
    rw [hk] at hne
    cases k <;> first | rfl | exact absurd rfl hne
  next hk =>
    have hheld : held = heldFlag t.key notNull := by
      rw [hk] at hslot ⊢
      exact (Option.some.inj hslot).symm
    subst hheld
    refine kept_flag (optional nullable · inner) notNull (by rw [hk]; rfl) hin
      (fun b => by rw [hk]; rfl) (fun b b' k hne => ?_) (fun _ _ st => by cases st <;> rfl)
      fun _ _ => rfl
    rw [hk] at hne
    cases k <;> first | rfl | exact absurd rfl hne
  next hnullable hnotNull =>
    rw [inward?, if_neg (not_or.mpr ⟨hnullable, hnotNull⟩)] at hin
    cases hin

/-- A collection, which has slots for its sizes alone. -/
theorem kept_size {held : Option Tag} (put : Limits String → Draft) (size : Limits String)
    (hslot : (put size).slot? t.key = some held) (hin : ∀ l, inward? t.key (put l) = none)
    (htable : ∀ l k, (put l).slot? k =
      (sizeLimit? k).elim none fun upper => some (heldParam k (side upper l)))
    (hchild : ∀ l l' st, (put l).child? st = (put l').child? st)
    (hbare : ∀ l l', (put l).bare = (put l').bare)
    (hreceive : ∀ upper, sizeLimit? t.key = some upper → ∃ s, (put size).receive t enter =
      after s (ofSlot (put size) put (setLimit t upper size))) :
    Kept (put size) t held ((put size).receive t enter) := by
  cases hl : sizeLimit? t.key with
  | none =>
    rw [htable, hl] at hslot
    cases hslot
  | some upper =>
    rw [htable, hl] at hslot
    cases hslot
    obtain ⟨s, hs⟩ := hreceive upper hl
    rw [hs]
    refine Kept.after ?_ s
    have hkey := eq_sizeLimitKey hl
    have hshape : t.key.shape = .param := by
      rw [hkey]
      exact shape_sizeLimitKey upper
    exact kept_limit put hshape hin hl (fun k hk => (eq_sizeLimitKey hk).trans hkey.symm) htable
      hchild hbare

/-- A node that has a slot for a chain alone. -/
theorem kept_chain {held : Option Tag} (put : Option String → Draft) (func : Option String)
    (hslot : (put func).slot? t.key = some held) (hin : inward? t.key (put func) = none)
    (htable : ∀ s k, (put s).slot? k = if k = .func then some (heldParam k s) else none)
    (hchild : ∀ s s' st, (put s).child? st = (put s').child? st)
    (hbare : ∀ s s', (put s).bare = (put s').bare)
    (hreceive : t.key = .func → ∃ s, (put func).receive t enter =
      after s (ofSlot (put func) put (t.fill func))) :
    Kept (put func) t held ((put func).receive t enter) := by
  have hk : t.key = .func := by
    rw [htable] at hslot
    split at hslot
    · assumption
    · cases hslot
  obtain ⟨s, hs⟩ := hreceive hk
  rw [hs]
  exact Kept.after (kept_func put func (fun _ => none) hk hslot hin htable hchild hbare) s

variable (enter) in
/-- A node that keeps a tag it has a slot for. -/
theorem kept_receive {held : Option Tag} (hin : inward? t.key d = none)
    (hslot : d.slot? t.key = some held) : Kept d t held (d.receive t enter) := by
  cases d with
  | scalar kind limits func => exact kept_scalar hslot
  | optional nullable notNull inner => exact kept_optional hin hslot
  | array size item =>
    refine kept_size (array · item) size hslot (fun _ => rfl) (fun l k => slot?_array l item k)
      (fun _ _ st => by cases st <;> rfl) (fun _ _ => rfl) fun upper hl => ?_
    simp only [receive, hl]
    exact ⟨_, rfl⟩
  | map size key value =>
    refine kept_size (map · key value) size hslot (fun _ => rfl)
      (fun l k => slot?_map l key value k) (fun _ _ st => by cases st <;> rfl) (fun _ _ => rfl)
      fun upper hl => ?_
    simp only [receive, hl]
    exact ⟨_, rfl⟩
  | inline fields func =>
    exact kept_chain (inline fields ·) func hslot hin (fun s k => by cases k <;> rfl)
      (fun _ _ st => by cases st <;> rfl) (fun _ _ => rfl)
      fun hk => ⟨_, by rw [receive, if_pos hk]⟩
  | delegated func =>
    exact kept_chain delegated func hslot hin (fun s k => by cases k <;> rfl)
      (fun _ _ st => by cases st <;> rfl) (fun _ _ => rfl)
      fun hk => ⟨_, by rw [receive, if_pos hk]⟩
  | wrapper ty mode inner func =>
    exact kept_chain (wrapper ty mode inner ·) func hslot hin (fun s k => by cases k <;> rfl)
      (fun _ _ st => by cases st <;> rfl) (fun _ _ => rfl)
      fun hk => ⟨_, by rw [receive, if_pos hk]⟩
  | interface indirect func =>
    exact kept_chain (interface indirect ·) func hslot hin (fun s k => by cases k <;> rfl)
      (fun _ _ st => by cases st <;> rfl) (fun _ _ => rfl)
      fun hk => ⟨_, by rw [receive, if_pos hk]⟩
  | skip => cases hslot

/-! ## Tags that are taken -/

/-- Induction on a tree along the parts that a tag with the key `k` is handed to. -/
theorem inward_induct {motive : Draft → Prop} (k : Key)
    (keeps : ∀ d, inward? k d = none → motive d)
    (hands : ∀ d st e, inward? k d = some (st, e) → motive e → motive d) (d : Draft) :
    motive d := by
  induction d using Draft.induct with
  | optional nullable notNull inner ih =>
    cases h : inward? k (optional nullable notNull inner) with
    | none => exact keeps _ h
    | some p =>
      refine hands _ p.1 inner ?_ ih
      rw [inward?] at h ⊢
      split at h
      · cases h
      · cases h
        rw [if_neg ‹_›]
  | wrapper ty mode inner func ih =>
    cases h : inward? k (wrapper ty mode inner func) with
    | none => exact keeps _ h
    | some p =>
      refine hands _ p.1 inner ?_ ih
      rw [inward?] at h ⊢
      split at h
      · cases h
      · cases h
        rw [if_neg ‹_›]
  | scalar kind limits func => exact keeps _ rfl
  | array size item => exact keeps _ rfl
  | map size key value => exact keeps _ rfl
  | inline fields func => exact keeps _ rfl
  | delegated func => exact keeps _ rfl
  | interface indirect func => exact keeps _ rfl
  | skip => exact keeps _ rfl

theorem keys_occurrences (t : Tag) : ∀ o ∈ t.occurrences, ∃ ks, o.keys = t.key :: ks := by
  intro o ho
  cases t with
  | simple k p =>
    cases List.mem_singleton.mp ho
    exact ⟨[], rfl⟩
  | scope k ts =>
    rcases List.mem_cons.mp ho with rfl | ho
    · exact ⟨[], rfl⟩
    · obtain ⟨o', -, rfl⟩ := List.mem_map.mp ho
      exact ⟨_, Occurrence.keys_under k o'⟩

theorem leaves_of_isSimple {t : Tag} (h : t.isSimple = true) : t.leaves = [⟨[], t⟩] := by
  cases t with
  | simple k p => rfl
  | scope k ts => cases h

theorem fits_of_scope {t : Tag} (h : t.isSimple = false) (hk : t.key.shape = .scope) : t.Fits := by
  cases t with
  | simple k p => cases h
  | scope k ts => exact hk

/-- Tags stored in a part that the tag is handed to. -/
theorem stores_inward {ws : List Write} {e' : Draft} (hin : inward? t.key d = some (st, e))
    (h : Stores e e' ws) (hws : ws.map Write.toOccurrence = t.leaves) :
    Stores d (d.put st e') (ws.map (Write.below st)) := by
  refine h.put (child?_of_inward? hin) (fun _ => rfl) (fun _ => rfl) fun w hw hroute => ?_
  have hmem : w.toOccurrence ∈ t.leaves := hws ▸ List.mem_map_of_mem hw
  obtain ⟨ks, hks⟩ := keys_occurrences t _ (List.mem_filter.mp hmem).1
  show Routed w.toOccurrence.keys d (st :: w.path)
  rw [hks] at hroute ⊢
  exact .inward hin hroute

/-- A tag that a node takes is stored with all tags in it, if the scope that it enters, if any,
stores those. -/
theorem stores_of_receive {P : Prop} (os : List Occurrence)
    (hos : t.isSimple = false → t.leaves = os.map (Occurrence.under t.key))
    (henter : ∀ e, (enter e).refusal = none → t.isSimple = false ∧ P ∧
      ∃ ws, Stores e (enter e).draft ws ∧ ws.map Write.toOccurrence = os)
    (h : (d.receive t enter).refusal = none) :
    t.Fits ∧ (t.isSimple = false → P) ∧
      ∃ ws, Stores d (d.receive t enter).draft ws ∧ ws.map Write.toOccurrence = t.leaves := by
  induction d using inward_induct t.key with
  | keeps d hin =>
    cases hslot : d.slot? t.key with
    | some held =>
      obtain ⟨hsimple, hfits, hstores⟩ := (kept_receive enter hin hslot).stored h
      refine ⟨hfits, fun hscope => ?_, _, hstores, (leaves_of_isSimple hsimple).symm⟩
      rw [hsimple] at hscope
      cases hscope
    | none =>
      cases hpart : part? t.key d with
      | some p =>
        obtain ⟨st, e⟩ := p
        obtain ⟨hdraft, hrefusal⟩ := receive_part enter hpart
        rw [hrefusal] at h
        obtain ⟨hscope, hP, ws, hws, hos'⟩ := henter e h
        refine ⟨fits_of_scope hscope (shape_of_part? hpart), fun _ => hP,
          ws.map (Write.belowScope t.key st), ?_, ?_⟩
        · rw [hdraft]
          exact hws.put (child?_of_part? hpart) (fun _ => rfl) (fun _ => rfl)
            fun w _ hroute => .scope hin hpart hroute
        · rw [hos hscope, ← hos', List.map_map, List.map_map]
          rfl
      | none =>
        rw [(receive_unrecognized enter hin hslot hpart).2] at h
        cases h
  | hands d st e hin ih =>
    obtain ⟨hdraft, hrefusal⟩ := receive_inward enter hin
    rw [hrefusal] at h
    obtain ⟨hfits, hP, ws, hws, hos'⟩ := ih h
    refine ⟨hfits, hP, ws.map (Write.below st), ?_, ?_⟩
    · rw [hdraft]
      exact stores_inward hin hws hos'
    · rw [List.map_map]
      exact hos'

theorem of_andThen_none {c : Configured} {next : Draft → Configured}
    (h : (c.andThen next).refusal = none) :
    c.refusal = none ∧ (next c.draft).refusal = none ∧
      (c.andThen next).draft = (next c.draft).draft := by
  unfold andThen at h ⊢
  cases hc : c.refusal with
  | some e =>
    rw [hc] at h
    exact absurd (hc.symm.trans h) (Option.some_ne_none e)
  | none =>
    rw [hc] at h
    exact ⟨rfl, h, rfl⟩

mutual

/-- A tag that is taken is stored with all tags in it, each of which fits its key. -/
theorem stores_of_setTag (t : Tag) (d : Draft) (h : (d.setTag t).refusal = none) :
    (∀ o ∈ t.occurrences, o.tag.Fits) ∧
      ∃ ws, Stores d (d.setTag t).draft ws ∧ ws.map Write.toOccurrence = t.leaves := by
  match t with
  | .simple k p =>
    rw [setTag] at h ⊢
    obtain ⟨hfits, -, hws⟩ := stores_of_receive (P := True) [] (fun hs => by cases hs)
      (fun e he => by cases he) h
    refine ⟨fun o ho => ?_, hws⟩
    cases List.mem_singleton.mp ho
    exact hfits
  | .scope k ts =>
    rw [setTag] at h ⊢
    obtain ⟨hfits, hall, hws⟩ := stores_of_receive (Tag.leavesAll ts)
      (fun _ => Tag.leaves_scope k ts) (fun e he => ⟨rfl, stores_of_setScope k ts e he⟩) h
    refine ⟨fun o ho => ?_, hws⟩
    rcases List.mem_cons.mp ho with rfl | ho
    · exact hfits
    · obtain ⟨o', ho', rfl⟩ := List.mem_map.mp ho
      exact hall rfl o' ho'

/-- The tags of a scope that are taken are stored with all tags in them. -/
theorem stores_of_setScope (k : Key) (ts : List Tag) (d : Draft)
    (h : (setScope k d ts).refusal = none) :
    (∀ o ∈ Tag.occurrencesAll ts, o.tag.Fits) ∧
      ∃ ws, Stores d (setScope k d ts).draft ws ∧ ws.map Write.toOccurrence = Tag.leavesAll ts := by
  match ts with
  | [] =>
    rw [setScope]
    exact ⟨fun o ho => (nomatch ho), [], .nil d, rfl⟩
  | t :: ts =>
    rw [setScope] at h ⊢
    obtain ⟨hfirst, hrest, hdraft⟩ := of_andThen_none h
    have hfirst : (d.setTag t).refusal = none := Option.map_eq_none_iff.mp hfirst
    obtain ⟨hfits, ws, hws, hos⟩ := stores_of_setTag t d hfirst
    obtain ⟨hfits', vs, hvs, hos'⟩ := stores_of_setScope k ts (d.setTag t).draft hrest
    refine ⟨fun o ho => ?_, ws ++ vs, ?_, ?_⟩
    · rcases List.mem_append.mp ho with ho | ho
      · exact hfits o ho
      · exact hfits' o ho
    · rw [hdraft]
      exact hws.append hvs
    · rw [List.map_append, hos, hos', Tag.leavesAll_cons]

end

end FieldRules.Draft
