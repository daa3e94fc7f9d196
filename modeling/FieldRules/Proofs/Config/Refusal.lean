import FieldRules.Proofs.Config.Acceptance
import FieldRules.Proofs.Config.Reordering
import FieldRules.Proofs.Tag.Printing

/-!
# What a refusal leaves

A refusal does not undo what was set before it. `Tag.Cut ts us o` cuts tags at one of them, at any
depth: `us` is what is written before `o`, with the scopes around `o` closed. Tags of which one is
refused leave the tree that what is written before it leaves, all of which is taken
(`Draft.Stops`). The tag at the cut is refused by the node that its keys lead to, in the tree as it
is then (`Draft.DeniedAt`). A tag of an annotation fits its key, so that this node has no slot for
it or a filled one (`Draft.RefusedAt`).
-/

namespace FieldRules

open Draft (inward? part?)

/-- `Cut ts us o`: the tags `us` are what is written before `o` in the tags `ts`, with the scopes
around `o` closed there. -/
inductive Tag.Cut : List Tag → List Tag → Occurrence → Prop
  | here {before t after} : Cut (before ++ t :: after) before ⟨[], t⟩
  | inside {before k ts us o after} (h : Cut ts us o) :
    Cut (before ++ .scope k ts :: after) (before ++ [.scope k us]) (o.under k)

namespace Draft

open Configured
open Tag (Cut)

/-! ## Why a node refuses a tag -/

/-- Why a node refuses a tag that fits its key: it has neither a slot nor a part for the key, or the
slot is filled. -/
inductive Refuses (node : Draft) (t : Tag) : ConfigError → Prop
  | unrecognized (hslot : node.slot? t.key = none) (hpart : part? t.key node = none) :
    Refuses node t (.unrecognizedTag t.text node.describe)
  | duplicate {held : Tag} (hslot : node.slot? t.key = some (some held)) :
    Refuses node t (.duplicateTag t.key)

/-- The node of `d` that the keys of the tag lead to refuses it, and the error names the scopes on
the way, outermost first. -/
def RefusedAt (d : Draft) (o : Occurrence) (e : ConfigError) : Prop :=
  ∃ path node cause, Routed o.keys d path ∧ d.at? path = some node ∧ Refuses node o.tag cause ∧
    e = o.scopes.foldr .nested cause

/-- Why a node refuses a tag of any form: it has no slot for it, the slot is filled, or the tag does
not have the shape of its key. -/
inductive Denies (node : Draft) (t : Tag) : ConfigError → Prop
  | refuses {e} (h : Refuses node t e) : Denies node t e
  | malformed {expected} (h : ¬ t.Fits) : Denies node t (.malformedTag t.text expected)

/-- The tag is refused by the node that its keys lead to, and the error names the scopes on the way,
outermost first. Nodes are those of `d'`, the tree after the tags that were taken before. -/
def DeniedAt (d d' : Draft) (o : Occurrence) (e : ConfigError) : Prop :=
  ∃ path node cause, Routed o.keys d path ∧ d'.at? path = some node ∧ Denies node o.tag cause ∧
    e = o.scopes.foldr .nested cause

variable {t : Tag} {enter : Draft → Configured} {d d' e : Draft} {st : Step} {err : ConfigError}

theorem Denies.refuses_of_fits (h : Denies d t err) (hfits : t.Fits) : Refuses d t err := by
  cases h with
  | refuses h => exact h
  | malformed h => exact absurd hfits h

theorem fill_eq_error {slot : Option String} (h : t.fill slot = .error err) :
    (∃ p, slot = some p) ∧ err = .duplicateTag t.key ∨
      ∃ expected, err = .malformedTag t.text expected := by
  cases slot with
  | some p =>
    cases h
    exact .inl ⟨⟨p, rfl⟩, rfl⟩
  | none =>
    rw [Tag.fill, Tag.expectParam.eq_def] at h
    split at h
    · cases h
    · cases h
      exact .inr ⟨_, rfl⟩

theorem raise_eq_error {flag : Bool} (h : t.raise flag = .error err) :
    flag = true ∧ err = .duplicateTag t.key ∨ ∃ expected, err = .malformedTag t.text expected := by
  rw [Tag.raise, Tag.expectFlag.eq_def] at h
  split at h
  · cases flag with
    | true =>
      cases h
      exact .inl ⟨rfl, rfl⟩
    | false => cases h
  · cases h
    exact .inr ⟨_, rfl⟩

theorem ofSlot_refusal {α : Type} {put : α → Draft} {x : Except ConfigError α}
    (h : (ofSlot d put x).refusal = some err) : x = .error err := by
  cases x with
  | ok a => cases h
  | error e => exact congrArg _ (Option.some.inj h)

theorem setLimit_eq_error {upper : Bool} {l : Limits String} (h : setLimit t upper l = .error err) :
    t.fill (side upper l) = .error err := by
  rw [setLimit_eq] at h
  cases hfill : t.fill (side upper l) with
  | ok s => rw [hfill] at h; cases h
  | error e =>
    rw [hfill] at h
    exact congrArg Except.error (Except.error.inj h)

/-- A node that has a slot for a chain alone. -/
theorem refusal_of_chain {held : Option Tag} {func : Option String} {put : Option String → Draft}
    (htable : ∀ k, d.slot? k = if k = .func then some (heldParam k func) else none)
    (hslot : d.slot? t.key = some held)
    (hreceive : t.key = .func → ∃ s, d.receive t enter = after s (ofSlot d put (t.fill func))) :
    ∃ slot, held = heldParam t.key slot ∧
      ∀ err, (d.receive t enter).refusal = some err → t.fill slot = .error err := by
  rw [htable] at hslot
  split at hslot
  next hk =>
    cases hslot
    obtain ⟨s, hs⟩ := hreceive hk
    rw [hs]
    exact ⟨func, rfl, fun err h => ofSlot_refusal h⟩
  next => cases hslot

/-- A node that has slots for the limits of a size. -/
theorem refusal_of_size {held : Option Tag} {size : Limits String} {put : Limits String → Draft}
    (htable : ∀ k, d.slot? k =
      (sizeLimit? k).elim none fun upper => some (heldParam k (side upper size)))
    (hslot : d.slot? t.key = some held)
    (hreceive : ∀ upper, sizeLimit? t.key = some upper →
      ∃ s, d.receive t enter = after s (ofSlot d put (setLimit t upper size))) :
    ∃ slot, held = heldParam t.key slot ∧
      ∀ err, (d.receive t enter).refusal = some err → t.fill slot = .error err := by
  rw [htable] at hslot
  cases hl : sizeLimit? t.key with
  | some upper =>
    rw [hl] at hslot
    cases hslot
    obtain ⟨s, hs⟩ := hreceive upper hl
    rw [hs]
    exact ⟨_, rfl, fun err h => setLimit_eq_error (ofSlot_refusal h)⟩
  | none => rw [hl] at hslot; cases hslot

variable (enter) in
/-- The slot that a node has for a tag, and why it does not take the tag. -/
theorem refusal_of_slot {held : Option Tag} (hin : inward? t.key d = none)
    (hslot : d.slot? t.key = some held) :
    (∃ slot, held = heldParam t.key slot ∧
      ∀ err, (d.receive t enter).refusal = some err → t.fill slot = .error err) ∨
    ∃ flag, held = heldFlag t.key flag ∧
      ∀ err, (d.receive t enter).refusal = some err → t.raise flag = .error err := by
  cases d with
  | scalar kind limits func =>
    rw [slot?_scalar] at hslot
    rw [receive]
    cases hl : scalarLimit? kind t.key with
    | some upper =>
      rw [hl] at hslot
      cases hslot
      exact .inl ⟨_, rfl, fun err h => setLimit_eq_error (ofSlot_refusal h)⟩
    | none =>
      rw [hl, Option.elim_none] at hslot
      split at hslot
      next hk =>
        cases hslot
        simp only [if_pos hk]
        exact .inl ⟨_, rfl, fun err h => ofSlot_refusal h⟩
      next => cases hslot
  | optional nullable notNull inner =>
    rw [receive]
    split
    next hk =>
      rw [hk] at hslot
      cases hslot
      rw [hk]
      exact .inr ⟨_, rfl, fun err h => ofSlot_refusal h⟩
    next hk =>
      rw [hk] at hslot
      cases hslot
      rw [hk]
      exact .inr ⟨_, rfl, fun err h => ofSlot_refusal h⟩
    next hnullable hnotNull =>
      rw [inward?, if_neg (not_or.mpr ⟨hnullable, hnotNull⟩)] at hin
      cases hin
  | array size item =>
    exact .inl (refusal_of_size (slot?_array size item) hslot
      fun upper hl => ⟨_, by rw [receive, hl]⟩)
  | map size key value =>
    exact .inl (refusal_of_size (slot?_map size key value) hslot
      fun upper hl => ⟨_, by rw [receive, hl]⟩)
  | inline fields func =>
    exact .inl (refusal_of_chain (fun k => by cases k <;> rfl) hslot
      fun hk => ⟨_, by rw [receive, if_pos hk]⟩)
  | delegated func =>
    exact .inl (refusal_of_chain (fun k => by cases k <;> rfl) hslot
      fun hk => ⟨_, by rw [receive, if_pos hk]⟩)
  | wrapper ty mode inner func =>
    exact .inl (refusal_of_chain (fun k => by cases k <;> rfl) hslot
      fun hk => ⟨_, by rw [receive, if_pos hk]⟩)
  | interface indirect func =>
    exact .inl (refusal_of_chain (fun k => by cases k <;> rfl) hslot
      fun hk => ⟨_, by rw [receive, if_pos hk]⟩)
  | skip => cases hslot

variable (enter) in
/-- A node that has a slot for a tag and refuses it. -/
theorem denies_of_slot {held : Option Tag} (hin : inward? t.key d = none)
    (hslot : d.slot? t.key = some held) (h : (d.receive t enter).refusal = some err) :
    (d.receive t enter).draft = d ∧ Denies d t err := by
  have hkept := kept_receive enter hin hslot
  refine ⟨hkept.unchanged err h, ?_⟩
  have hmalformed : ∀ expected, err = .malformedTag t.text expected → Denies d t err := by
    rintro expected rfl
    exact .malformed fun hfits => nomatch (hkept.duplicate _ h hfits).2
  rcases refusal_of_slot enter hin hslot with ⟨slot, rfl, hfill⟩ | ⟨flag, rfl, hraise⟩
  · rcases fill_eq_error (hfill err h) with ⟨⟨p, rfl⟩, rfl⟩ | ⟨expected, hexpected⟩
    · exact .refuses (.duplicate hslot)
    · exact hmalformed expected hexpected
  · rcases raise_eq_error (hraise err h) with ⟨rfl, rfl⟩ | ⟨expected, hexpected⟩
    · exact .refuses (.duplicate hslot)
    · exact hmalformed expected hexpected

end Draft

/-! ## Cuts -/

namespace Tag

theorem mem_occurrences_self (t : Tag) : ⟨[], t⟩ ∈ t.occurrences := by
  cases t <;> exact List.mem_cons_self

theorem mem_occurrencesAll {t : Tag} {ts : List Tag} (ht : t ∈ ts) {o : Occurrence}
    (ho : o ∈ t.occurrences) : o ∈ occurrencesAll ts := by
  induction ts with
  | nil => cases ht
  | cons u ts ih =>
    rw [occurrencesAll, List.mem_append]
    rcases List.mem_cons.mp ht with rfl | ht
    · exact .inl ho
    · exact .inr (ih ht)

namespace Cut

variable {ts us vs : List Tag} {t : Tag} {o : Occurrence}

theorem mem_occurrencesAll (h : Cut ts us o) : o ∈ occurrencesAll ts := by
  induction h with
  | here => exact Tag.mem_occurrencesAll List.mem_append_cons_self (mem_occurrences_self _)
  | inside h ih =>
    refine Tag.mem_occurrencesAll List.mem_append_cons_self ?_
    exact List.mem_cons_of_mem _ (List.mem_map_of_mem ih)

theorem append_right (h : Cut ts us o) (vs : List Tag) : Cut (ts ++ vs) us o := by
  cases h with
  | here =>
    rw [List.append_assoc]
    exact .here
  | inside h =>
    rw [List.append_assoc]
    exact .inside h

theorem append_left (h : Cut ts us o) (vs : List Tag) : Cut (vs ++ ts) (vs ++ us) o := by
  cases h with
  | here =>
    rw [← List.append_assoc]
    exact .here
  | inside h =>
    rw [← List.append_assoc, ← List.append_assoc]
    exact .inside h

/-- A single tag is cut in front of it or inside it. -/
theorem of_singleton (h : Cut [t] us o) : us = [] ∧ o = ⟨[], t⟩ ∨
    ∃ k ts ws o', Cut ts ws o' ∧ t = .scope k ts ∧ us = [.scope k ws] ∧ o = o'.under k := by
  have hsplit : ∀ {before after : List Tag} {u : Tag}, [t] = before ++ u :: after →
      before = [] ∧ u = t := by
    intro before after u heq
    rcases List.singleton_eq_append_iff.mp heq with ⟨rfl, hu⟩ | ⟨-, hu⟩
    · exact ⟨rfl, (List.cons.inj hu).1⟩
    · cases hu
  generalize hts : [t] = ts at h
  cases h with
  | here =>
    obtain ⟨rfl, rfl⟩ := hsplit hts
    exact .inl ⟨rfl, rfl⟩
  | @inside before k vs ws o' after h =>
    obtain ⟨rfl, hu⟩ := hsplit hts
    exact .inr ⟨k, vs, ws, o', h, hu.symm, rfl, rfl⟩

end Cut

end Tag

/-! ## Tags up to a refusal -/

namespace Draft

open Configured
open Tag (Cut)

/-- The tree takes the tags `us`, which stand before `o` in the tags `ts`, and refuses `o` with the
error `e`. It is then what `us` make of it. -/
structure Stops (d : Draft) (ts us : List Tag) (o : Occurrence) (e : ConfigError) : Prop where
  cut : Cut ts us o
  taken : (d.setTags us).refusal = none
  draft : (d.setTags ts).draft = (d.setTags us).draft
  /-- In the tree as it is then, `o` is refused where its keys lead to. -/
  denied : DeniedAt d (d.setTags us).draft o e

variable {d e : Draft} {ts us vs : List Tag} {t : Tag} {o : Occurrence} {err : ConfigError}
  {st : Step}

theorem at?_put {e' : Draft} (hchild : d.child? st = some e ∧ ∀ n, st ≠ .field n)
    (path : List Step) : (d.put st e').at? (st :: path) = e'.at? path := by
  simp [at?, child?_put hchild.1 hchild.2]

theorem of_andThen_some {c : Configured} {next : Draft → Configured} {e : ConfigError}
    (h : (c.andThen next).refusal = some e) :
    c.refusal = some e ∨ c.refusal = none ∧ (next c.draft).refusal = some e := by
  unfold andThen at h
  cases hc : c.refusal with
  | some e' =>
    rw [hc] at h
    exact .inl (hc.symm.trans h)
  | none =>
    rw [hc] at h
    exact .inr ⟨rfl, h⟩

theorem setTags_cons (d : Draft) (t : Tag) (ts : List Tag) :
    d.setTags (t :: ts) = (d.setTag t).andThen (·.setTags ts) := by
  rw [setTags]

theorem draft_setTags_singleton (d : Draft) (t : Tag) :
    (d.setTags [t]).draft = (d.setTag t).draft := by
  rw [setTags_cons, andThen]
  cases (d.setTag t).refusal <;> rfl

theorem refusal_setTags_singleton (d : Draft) (t : Tag) :
    (d.setTags [t]).refusal = (d.setTag t).refusal := by
  rw [setTags_cons, andThen]
  cases h : (d.setTag t).refusal with
  | none => rfl
  | some e => exact h

theorem exists_receive (t : Tag) : ∃ enter, ∀ d : Draft, d.setTag t = d.receive t enter := by
  cases t with
  | simple k p => exact ⟨_, fun d => by rw [setTag]⟩
  | scope k ts => exact ⟨_, fun d => by rw [setTag]⟩

theorem put_self (h : d.child? st = some e) : d.put st e = d := by
  cases st <;> cases d <;> first | rfl | (cases h; rfl)

/-- A node hands at most one tag inward. -/
theorem setTags_inward {k : Key} (hin : inward? k d = some (st, e))
    (hts : ts = [] ∨ ∃ t, ts = [t] ∧ t.key = k) :
    (d.setTags ts).draft = d.put st (e.setTags ts).draft ∧
      (d.setTags ts).refusal = (e.setTags ts).refusal := by
  rcases hts with rfl | ⟨t, rfl, rfl⟩
  · have hchild := child?_of_inward? hin
    exact ⟨(put_self hchild.1).symm, rfl⟩
  · obtain ⟨enter, henter⟩ := exists_receive t
    have h := receive_inward enter hin
    rw [draft_setTags_singleton, draft_setTags_singleton, refusal_setTags_singleton,
      refusal_setTags_singleton, henter, henter]
    exact h

namespace Stops

/-- A tag that is refused as a whole. -/
theorem whole (hdraft : (d.setTag t).draft = d) {cause : ConfigError}
    (hin : inward? t.key d = none) (hcause : Denies d t cause) : Stops d [t] [] ⟨[], t⟩ cause where
  cut := @Cut.here [] t []
  taken := rfl
  draft := (draft_setTags_singleton d t).trans hdraft
  denied := ⟨[], d, cause, .stays hin, rfl, hcause, rfl⟩

/-- A tag that is handed inward to a part that refuses it. -/
theorem inward (hin : inward? t.key d = some (st, e)) (h : Stops e [t] us o err) :
    Stops d [t] us o err := by
  have hchild := child?_of_inward? hin
  have hcut := h.cut.of_singleton
  have hus : us = [] ∨ ∃ u, us = [u] ∧ u.key = t.key := by
    rcases hcut with ⟨rfl, -⟩ | ⟨k, vs, ws, o', -, rfl, rfl, -⟩
    · exact .inl rfl
    · exact .inr ⟨_, rfl, rfl⟩
  have hkeys : ∃ ks, o.keys = t.key :: ks := by
    rcases hcut with ⟨-, rfl⟩ | ⟨k, vs, ws, o', -, rfl, -, rfl⟩
    · exact ⟨[], rfl⟩
    · exact ⟨_, o'.keys_under k⟩
  have htags := setTags_inward hin hus
  obtain ⟨path, node, cause, hroute, hnode, hcause, herr⟩ := h.denied
  obtain ⟨ks, hks⟩ := hkeys
  refine ⟨h.cut, htags.2.trans h.taken, ?_, st :: path, node, cause, ?_, ?_, hcause, herr⟩
  · rw [(setTags_inward hin (.inr ⟨t, rfl, rfl⟩)).1, h.draft, htags.1]
  · rw [hks] at hroute ⊢
    exact .inward hin hroute
  · rw [htags.1, at?_put hchild]
    exact hnode

/-- A scope about a part that refuses a tag in it. -/
theorem scope {k : Key} (hin : inward? k d = none) (hpart : part? k d = some (st, e))
    (h : Stops e ts us o err) :
    Stops d [.scope k ts] [.scope k us] (o.under k) (.nested k err) := by
  have htag : ∀ vs, (d.setTag (.scope k vs)).draft = d.put st (e.setTags vs).draft ∧
      (d.setTag (.scope k vs)).refusal = (e.setTags vs).refusal.map (.nested k) := by
    intro vs
    have hreceive := receive_part (t := .scope k vs) (fun part => setScope k part vs) hpart
    rw [setScope_eq] at hreceive
    rw [setTag]
    exact hreceive
  obtain ⟨path, node, cause, hroute, hnode, hcause, rfl⟩ := h.denied
  have hdraft : (d.setTags [.scope k us]).draft = d.put st (e.setTags us).draft := by
    rw [draft_setTags_singleton, (htag us).1]
  refine ⟨@Cut.inside [] k ts us o [] h.cut, ?_, ?_, st :: path, node, cause, ?_, ?_, hcause, rfl⟩
  · rw [refusal_setTags_singleton, (htag us).2, h.taken]
    rfl
  · rw [hdraft, draft_setTags_singleton, (htag ts).1, h.draft]
  · exact .scope hin hpart hroute
  · rw [hdraft, at?_put (child?_of_part? hpart)]
    exact hnode

/-- Further tags after one that is refused. -/
theorem append_right (h : Stops d [t] us o err) (hrefused : (d.setTag t).refusal = some err)
    (ts : List Tag) : Stops d (t :: ts) us o err := by
  refine ⟨h.cut.append_right ts, h.taken, ?_, h.denied⟩
  rw [← h.draft, draft_setTags_singleton, setTags_cons, andThen, hrefused]

/-- A refusal after a tag that is taken. -/
theorem cons (htaken : (d.setTag t).refusal = none) (h : Stops (d.setTag t).draft ts us o err) :
    Stops d (t :: ts) (t :: us) o err := by
  have hcons : ∀ vs, (d.setTags (t :: vs)).draft = ((d.setTag t).draft.setTags vs).draft ∧
      (d.setTags (t :: vs)).refusal = ((d.setTag t).draft.setTags vs).refusal := by
    intro vs
    rw [setTags_cons, andThen, htaken]
    exact ⟨rfl, rfl⟩
  obtain ⟨-, ws, hws, -⟩ := stores_of_setTag t d htaken
  obtain ⟨path, node, cause, hroute, hnode, hcause, herr⟩ := h.denied
  refine ⟨h.cut.append_left [t], (hcons us).2.trans h.taken, ?_, path, node, cause,
    hroute.of_bare_eq hws.bare, ?_, hcause, herr⟩
  · rw [(hcons ts).1, (hcons us).1, h.draft]
  · rw [(hcons us).1]
    exact hnode

end Stops

/-- A tag without a scope has no parts that could be taken. -/
theorem stops_of_simple {k : Key} {p : Option String}
    (h : (d.setTag (.simple k p)).refusal = some err) :
    Stops d [.simple k p] [] ⟨[], .simple k p⟩ err := by
  obtain ⟨enter, henter⟩ := exists_receive (.simple k p)
  induction d using inward_induct k with
  | keeps d hin =>
    rw [setTag] at h
    cases hslot : d.slot? k with
    | some held =>
      obtain ⟨hdraft, hcause⟩ := denies_of_slot _ (t := .simple k p) hin hslot h
      exact .whole (by rw [setTag]; exact hdraft) hin hcause
    | none =>
      cases hpart : part? k d with
      | some q =>
        obtain ⟨st, e⟩ := q
        have hchild := child?_of_part? hpart
        obtain ⟨hdraft, hrefusal⟩ := receive_part (t := .simple k p) _ hpart
        rw [hrefusal] at h
        cases h
        refine .whole ?_ hin (.malformed fun hfits => ?_)
        · rw [setTag, hdraft]
          exact put_self hchild.1
        · have hshape := shape_of_part? hpart
          cases p with
          | none => exact nomatch hshape.symm.trans (show k.shape = .flag from hfits)
          | some p => exact nomatch hshape.symm.trans (show k.shape = .param from hfits)
      | none =>
        obtain ⟨hdraft, hrefusal⟩ := receive_unrecognized (t := .simple k p) _ hin hslot hpart
        rw [hrefusal] at h
        cases h
        exact .whole (by rw [setTag]; exact hdraft) hin (.refuses (.unrecognized hslot hpart))
  | hands d st e hin ih =>
    rw [henter] at h ih
    exact .inward hin (ih ((receive_inward enter (t := .simple k p) hin).2 ▸ h))

mutual

/-- A tag is applied up to the one in it that is refused. -/
theorem stops_of_setTag (t : Tag) (d : Draft) {err : ConfigError}
    (h : (d.setTag t).refusal = some err) : ∃ us o, Stops d [t] us o err := by
  match t with
  | .simple k p => exact ⟨_, _, stops_of_simple h⟩
  | .scope k ts =>
    obtain ⟨enter, henter⟩ := exists_receive (.scope k ts)
    induction d using inward_induct k with
    | keeps d hin =>
      rw [setTag] at h
      cases hslot : d.slot? k with
      | some held =>
        obtain ⟨hdraft, hcause⟩ := denies_of_slot _ (t := .scope k ts) hin hslot h
        exact ⟨_, _, .whole (by rw [setTag]; exact hdraft) hin hcause⟩
      | none =>
        cases hpart : part? k d with
        | some q =>
          obtain ⟨st, e⟩ := q
          rw [(receive_part (t := .scope k ts) _ hpart).2, setScope_eq] at h
          obtain ⟨err', herr, rfl⟩ := Option.map_eq_some_iff.mp h
          obtain ⟨us, o, hstops⟩ := stops_of_setTags ts e herr
          exact ⟨_, _, hstops.scope hin hpart⟩
        | none =>
          obtain ⟨hdraft, hrefusal⟩ := receive_unrecognized (t := .scope k ts) _ hin hslot hpart
          rw [hrefusal] at h
          cases h
          exact ⟨_, _, .whole (by rw [setTag]; exact hdraft) hin
            (.refuses (.unrecognized hslot hpart))⟩
    | hands d st e hin ih =>
      rw [henter] at h ih
      obtain ⟨us, o, hstops⟩ := ih ((receive_inward enter (t := .scope k ts) hin).2 ▸ h)
      exact ⟨us, o, hstops.inward hin⟩

/-- Tags are applied up to the one that is refused. -/
theorem stops_of_setTags (ts : List Tag) (d : Draft) {err : ConfigError}
    (h : (d.setTags ts).refusal = some err) : ∃ us o, Stops d ts us o err := by
  match ts with
  | [] => cases h
  | t :: ts =>
    rw [setTags_cons] at h
    rcases of_andThen_some h with hrefused | ⟨htaken, hrefused⟩
    · obtain ⟨us, o, hstops⟩ := stops_of_setTag t d hrefused
      exact ⟨us, o, hstops.append_right hrefused ts⟩
    · obtain ⟨us, o, hstops⟩ := stops_of_setTags ts _ hrefused
      exact ⟨_, _, hstops.cons htaken⟩

end

/-! ## Tags of annotations -/

mutual

theorem fits_of_writes {n : Nat} {s : List Char} {t : Tag} (h : Tag.Writes n s t) :
    ∀ o ∈ t.occurrences, o.tag.Fits := by
  match h with
  | .flag hk hs =>
    intro o ho
    cases List.mem_singleton.mp ho
    exact hk
  | .param hk hs hu hp hv =>
    intro o ho
    cases List.mem_singleton.mp ho
    exact hk
  | .scope hk hs ha hts hb =>
    intro o ho
    rcases List.mem_cons.mp ho with rfl | ho
    · exact hk
    · obtain ⟨o', ho', rfl⟩ := List.mem_map.mp ho
      exact fits_of_writesAll hts o' ho'

theorem fits_of_writesAll {n : Nat} {s : List Char} {ts : List Tag} (h : Tag.WritesAll n s ts) :
    ∀ o ∈ Tag.occurrencesAll ts, o.tag.Fits := by
  match h with
  | .last ht =>
    intro o ho
    rcases List.mem_append.mp ho with ho | ho
    · exact fits_of_writes ht o ho
    · cases ho
  | .cons ht hts =>
    intro o ho
    rcases List.mem_append.mp ho with ho | ho
    · exact fits_of_writes ht o ho
    · exact fits_of_writesAll hts o ho

end

/-- The tags of an annotation fit their keys. -/
theorem fits_of_parse {input : String} {ts : List Tag} (h : Tag.parse input = .ok ts) {t : Tag}
    (ht : t ∈ ts) : ∀ o ∈ t.occurrences, o.tag.Fits := by
  intro o ho
  rcases Tag.writesAll_of_parse h with ⟨-, rfl⟩ | hts
  · cases ht
  · exact fits_of_writesAll hts o (Tag.mem_occurrencesAll ht ho)

/-- A tag that fits its key is refused for want of a slot, or because the slot is filled. -/
theorem Stops.refusedAt (h : Stops d ts us o err) (hfits : o.tag.Fits) :
    RefusedAt (d.setTags us).draft o err := by
  obtain ⟨path, node, cause, hroute, hnode, hcause, rfl⟩ := h.denied
  obtain ⟨ws, hws, -⟩ := stores_of_setTags us d h.taken
  exact ⟨path, node, cause, hroute.of_bare_eq hws.bare.symm, hnode,
    hcause.refuses_of_fits hfits, rfl⟩

/-- **No tag is ignored, lost or misrouted.** If a tag is taken, it and every tag in it fit their
keys, and each one without a scope is stored in the slot that its keys lead to, which was empty,
while every other slot stays as it was. If a tag of an annotation is refused, what is written in it
before one of its tags is taken, and in the tree that this leaves the node that the keys of that tag
lead to has no slot for it or a filled one; the error says so inside the scopes around the tag. -/
theorem setTag_delivers (d : Draft) (t : Tag) :
    ((d.setTag t).refusal = none → (∀ o ∈ t.occurrences, o.tag.Fits) ∧
      ∃ ws, Stores d (d.setTag t).draft ws ∧ ws.map Write.toOccurrence = t.leaves) ∧
    ∀ input ts err, Tag.parse input = .ok ts → t ∈ ts → (d.setTag t).refusal = some err →
      ∃ us o, Cut [t] us o ∧ (d.setTags us).refusal = none ∧
        RefusedAt (d.setTags us).draft o err := by
  refine ⟨stores_of_setTag t d, fun input ts err hparse ht h => ?_⟩
  obtain ⟨us, o, hstops⟩ := stops_of_setTag t d h
  have ho : o ∈ t.occurrences := List.append_nil t.occurrences ▸ hstops.cut.mem_occurrencesAll
  exact ⟨us, o, hstops.cut, hstops.taken, hstops.refusedAt (fits_of_parse hparse ht o ho)⟩

/-- Optional names of a named type: a wrapped list of optional texts. -/
def namesDraft : Draft :=
  .wrapper (.path false [.mk (.ofName "Names") .none]) .newtype
    (.optional false false (.array .none (.optional false false (.leaf .string)))) none

/-- The tag of `item=[nullable,nullable]`. -/
def twiceNullable : Tag := .scope .item [.simple .nullable none, .simple .nullable none]

/-- A tag that `namesDraft` takes, and an annotation with one that it refuses. -/
theorem setTag_delivers_names :
    let taken : Tag := .scope .item [.simple .nullable none, .simple .minLen (some "1")]
    ((namesDraft.setTag taken).refusal = none ∧ (∀ o ∈ taken.occurrences, o.tag.Fits) ∧
      ∃ ws, Stores namesDraft (namesDraft.setTag taken).draft ws ∧
        ws.map Write.toOccurrence = taken.leaves) ∧
    Tag.parse "item=[nullable,nullable]" = .ok [twiceNullable] ∧
      (namesDraft.setTag twiceNullable).refusal = some (.nested .item (.duplicateTag .nullable)) ∧
      ∃ us o, Cut [twiceNullable] us o ∧ (namesDraft.setTags us).refusal = none ∧
        RefusedAt (namesDraft.setTags us).draft o (.nested .item (.duplicateTag .nullable)) := by
  intro taken
  have htaken : (namesDraft.setTag taken).refusal = none := rfl
  have hrefused : (namesDraft.setTag twiceNullable).refusal =
      some (.nested .item (.duplicateTag .nullable)) := rfl
  have hkey : ∀ k : Key, Tag.WritesKey k.spelling.toList k := fun k =>
    ⟨[], [], Tag.Blank.nil, Tag.Blank.nil, (List.append_nil _).symm⟩
  have hflag : ∀ n, Tag.Writes n "nullable".toList (.simple .nullable none) := fun n =>
    .flag rfl (hkey .nullable)
  have hwrites : Tag.Writes maxDepth "item=[nullable,nullable]".toList twiceNullable :=
    .scope rfl (hkey .item) Tag.AsciiBlank.nil (.cons (hflag 15) (.last (hflag 15)))
      Tag.AsciiBlank.nil
  have hparse : Tag.parse "item=[nullable,nullable]" = .ok [twiceNullable] :=
    Tag.parse_of_writesAll (.last hwrites)
  exact ⟨⟨htaken, (setTag_delivers namesDraft taken).1 htaken⟩, hparse, hrefused,
    (setTag_delivers namesDraft twiceNullable).2 _ _ _ hparse List.mem_cons_self hrefused⟩

/-! ## The tree after a refusal -/

/-- Tags that are taken can be followed by others. -/
theorem setTags_append (h : (d.setTags us).refusal = none) (vs : List Tag) :
    (d.setTags (us ++ vs)).draft = ((d.setTags us).draft.setTags vs).draft ∧
      (d.setTags (us ++ vs)).refusal = ((d.setTags us).draft.setTags vs).refusal := by
  induction us generalizing d with
  | nil => exact ⟨rfl, rfl⟩
  | cons t us ih =>
    rw [setTags_cons] at h
    obtain ⟨hfirst, hrest, hdraft⟩ := of_andThen_none h
    rw [List.cons_append, setTags_cons, setTags_cons, andThen, hdraft, hfirst]
    exact ih hrest

/-- The tree `d'` is the tree `d` with the tags `us`, which were taken before `o` was refused with
the error `e`. -/
structure Truncates (d d' : Draft) (us : List Tag) (o : Occurrence) (e : ConfigError) : Prop where
  taken : (d.setTags us).refusal = none
  /-- They are all that has been set. -/
  draft : d' = (d.setTags us).draft
  denied : DeniedAt d d' o e
  /-- Whatever is tried next goes as after the tags before the refusal. -/
  retried : ∀ vs, (d'.setTags vs).draft = (d.setTags (us ++ vs)).draft ∧
    (d'.setTags vs).refusal = (d.setTags (us ++ vs)).refusal
  /-- A duplicate leaves the first tag in the slot, which was there before or is one of `us`. -/
  first : ∀ k, e.rootCause = .duplicateTag k → k = o.tag.key ∧ ∃ path held,
    Routed o.keys d path ∧ d'.look path k = some (some held) ∧
      (d.look path k = some (some held) ∨
        ∃ u ∈ Tag.leavesAll us, u.tag = held ∧ Routed u.keys d path)

theorem rootCause_foldr_nested (ks : List Key) (e : ConfigError) :
    (ks.foldr .nested e).rootCause = e.rootCause := by
  induction ks with
  | nil => rfl
  | cons k ks ih => exact ih

/-- A tag that is denied as a duplicate finds its slot filled. -/
theorem Denies.duplicate {node : Draft} {k : Key} (h : Denies node t err)
    (hroot : err.rootCause = .duplicateTag k) :
    k = t.key ∧ ∃ held, node.slot? t.key = some (some held) := by
  rcases h with (_ | ⟨hslot⟩) | _
  · cases hroot
  · cases hroot
    exact ⟨rfl, _, hslot⟩
  · cases hroot

theorem Stops.truncates (h : Stops d ts us o err) :
    Truncates d (d.setTags ts).draft us o err where
  taken := h.taken
  draft := h.draft
  denied := h.draft ▸ h.denied
  retried vs := by
    obtain ⟨hdraft, hrefusal⟩ := setTags_append h.taken vs
    rw [h.draft, hdraft, hrefusal]
    exact ⟨rfl, rfl⟩
  first k hroot := by
    obtain ⟨path, node, cause, hroute, hnode, hcause, rfl⟩ := h.denied
    rw [rootCause_foldr_nested] at hroot
    obtain ⟨rfl, held, hslot⟩ := hcause.duplicate hroot
    have hheld : (d.setTags us).draft.look path o.tag.key = some (some held) := by
      rw [look, hnode]
      exact hslot
    refine ⟨rfl, path, held, hroute, h.draft ▸ hheld, ?_⟩
    obtain ⟨ws, hws, hleaves⟩ := stores_of_setTags us d h.taken
    by_cases hplace : (path, o.tag.key) ∈ ws.map Write.place
    · obtain ⟨w, hw, heq⟩ := List.mem_map.mp hplace
      obtain ⟨rfl, hkey⟩ := Prod.mk.inj heq
      rw [← hkey] at hheld
      refine .inr ⟨w.toOccurrence, hleaves ▸ List.mem_map_of_mem hw, ?_, hws.routed w hw⟩
      exact Option.some.inj (Option.some.inj ((hws.stored w hw).symm.trans hheld))
    · exact .inl ((hws.frame path _ hplace).symm.trans hheld)

/-- **A refusal leaves exactly the tags before it.** A text that is no annotation changes nothing,
and neither does a refused tag without a scope. A refused scope leaves the tree as the scope cut in
front of the refused tag does, unless no part of the tree takes the scope at all. An annotation
leaves it as its tags up to the refused one do. In each case what is tried next goes as if the rest
had not been written, and a duplicate leaves the first tag in its slot. -/
theorem refusal_truncates (d : Draft) :
    (∀ text e, Tag.parse text = .error e → d.annotate text = (d, [], some (.parse e))) ∧
    (∀ k p err, (d.setTag (.simple k p)).refusal = some err →
      (d.setTag (.simple k p)).draft = d ∧
        Truncates d (d.setTag (.simple k p)).draft [] ⟨[], .simple k p⟩ err) ∧
    (∀ k ts err, (d.setTag (.scope k ts)).refusal = some err →
      ((d.setTag (.scope k ts)).draft = d ∧
        Truncates d (d.setTag (.scope k ts)).draft [] ⟨[], .scope k ts⟩ err) ∨
      ∃ us o, Cut ts us o ∧ (d.setTag (.scope k ts)).draft = (d.setTag (.scope k us)).draft ∧
        Truncates d (d.setTag (.scope k ts)).draft [.scope k us] (o.under k) err) ∧
    ∀ text ts err, Tag.parse text = .ok ts → (d.annotate text).2.2 = some (.config err) →
      ∃ us o, Cut ts us o ∧ Truncates d (d.annotate text).1 us o err := by
  have hsingle : ∀ {t us o err}, Stops d [t] us o err → Truncates d (d.setTag t).draft us o err :=
    fun h => draft_setTags_singleton d _ ▸ h.truncates
  refine ⟨fun text e hparse => ?_, fun k p err h => ?_, fun k ts err h => ?_,
    fun text ts err hparse h => ?_⟩
  · rw [annotate, hparse]
  · have htruncates := hsingle (stops_of_simple h)
    exact ⟨htruncates.draft, htruncates⟩
  · obtain ⟨us, o, hstops⟩ := stops_of_setTag _ d h
    have htruncates := hsingle hstops
    rcases hstops.cut.of_singleton with ⟨rfl, rfl⟩ | ⟨_, _, ws, o', hcut, heq, rfl, rfl⟩
    · exact .inl ⟨htruncates.draft, htruncates⟩
    · cases heq
      exact .inr ⟨ws, o', hcut, htruncates.draft.trans (draft_setTags_singleton d _), htruncates⟩
  · rw [annotate, hparse] at h ⊢
    obtain ⟨err', herr, heq⟩ := Option.map_eq_some_iff.mp h
    cases heq
    obtain ⟨us, o, hstops⟩ := stops_of_setTags ts d herr
    exact ⟨us, o, hstops.cut, hstops.truncates⟩

/-- The tag of `value=[not_null,item=[min_len=1,min_len=2],min_items=3]`. -/
def twiceShort : Tag :=
  .scope .value [.simple .notNull none,
    .scope .item [.simple .minLen (some "1"), .simple .minLen (some "2")],
    .simple .minItems (some "3")]

/-- Refusals by `labelsDraft`: of a text that ends with a comma, of a tag without a scope, of a
scope, and of an annotation with that scope between two other tags. -/
theorem refusal_truncates_labels :
    let first : Tag := .simple .minItems (some "1")
    let last : Tag := .simple .maxItems (some "2")
    let text := Tag.texts [first, twiceShort, last]
    let err : ConfigError := .nested .value (.nested .item (.duplicateTag .minLen))
    (Tag.parse "min_items=1," = .error ⟨"min_items=1,", 11, .trailingSeparator⟩ ∧
      labelsDraft.annotate "min_items=1," =
        (labelsDraft, [], some (.parse ⟨"min_items=1,", 11, .trailingSeparator⟩))) ∧
    ((labelsDraft.setTag (.simple .nullable none)).refusal =
        some (.unrecognizedTag "nullable" "map") ∧
      (labelsDraft.setTag (.simple .nullable none)).draft = labelsDraft) ∧
    ((labelsDraft.setTag twiceShort).refusal = some err ∧
      ∃ us o,
        (labelsDraft.setTag twiceShort).draft = (labelsDraft.setTag (.scope .value us)).draft ∧
          Truncates labelsDraft (labelsDraft.setTag twiceShort).draft [.scope .value us] o err) ∧
    Tag.parse text = .ok [first, twiceShort, last] ∧
      (labelsDraft.annotate text).2.2 = some (.config err) ∧
      ∃ us o, Cut [first, twiceShort, last] us o ∧
        Truncates labelsDraft (labelsDraft.annotate text).1 us o err := by
  intro first last text err
  obtain ⟨hparse, hsimple, hscope, hannotate⟩ := refusal_truncates labelsDraft
  have hread : Tag.entries 0 "min_items=1,".toList = .error ⟨.trailingSeparator, [',']⟩ := by
    rw [Tag.entries_eq]
    rfl
  have herror : Tag.parse "min_items=1," =
      .error ⟨"min_items=1,", 11, .trailingSeparator⟩ := by
    rw [Tag.parse_eq, hread]
    rfl
  have hunknown : (labelsDraft.setTag (.simple .nullable none)).refusal =
      some (.unrecognizedTag "nullable" "map") := rfl
  have htwice : (labelsDraft.setTag twiceShort).refusal = some err := rfl
  have hcut : ∃ us o, (labelsDraft.setTag twiceShort).draft =
        (labelsDraft.setTag (.scope .value us)).draft ∧
      Truncates labelsDraft (labelsDraft.setTag twiceShort).draft [.scope .value us] o err := by
    rcases hscope _ _ _ htwice with ⟨hunchanged, -⟩ | ⟨us, o, -, hdraft, htruncates⟩
    · -- `not_null` has been set, so that the tree is not what it was
      exact nomatch congrArg (look [.value] .notNull) hunchanged
    · exact ⟨us, _, hdraft, htruncates⟩
  have hone : ∀ {n k}, k.shape = .param → Tag.Canonical n (.simple k (some "1")) :=
    fun hk => .param hk (by simp) (by simp) (by decide +kernel)
  have htwo : ∀ {n k}, k.shape = .param → Tag.Canonical n (.simple k (some "2")) :=
    fun hk => .param hk (by simp) (by simp) (by decide +kernel)
  have hthree : ∀ {n k}, k.shape = .param → Tag.Canonical n (.simple k (some "3")) :=
    fun hk => .param hk (by simp) (by simp) (by decide +kernel)
  have hshort : Tag.Canonical maxDepth twiceShort := by
    refine .scope rfl (List.cons_ne_nil _ _) (List.forall_mem_cons.mpr ⟨.flag rfl, ?_⟩)
    refine List.forall_mem_cons.mpr ⟨.scope rfl (List.cons_ne_nil _ _) ?_, ?_⟩
    · exact List.forall_mem_cons.mpr ⟨hone rfl, List.forall_mem_singleton.mpr (htwo rfl)⟩
    · exact List.forall_mem_singleton.mpr (hthree rfl)
  have hcanonical : ∀ t ∈ [first, twiceShort, last], Tag.Canonical maxDepth t :=
    List.forall_mem_cons.mpr ⟨hone rfl, List.forall_mem_cons.mpr ⟨hshort,
      List.forall_mem_singleton.mpr (htwo rfl)⟩⟩
  have hok : Tag.parse text = .ok [first, twiceShort, last] :=
    Tag.parse_texts_of_canonical hcanonical
  have hrefused : (labelsDraft.annotate text).2.2 = some (.config err) := by
    rw [annotate, hok]
    rfl
  exact ⟨⟨herror, hparse _ _ herror⟩, ⟨hunknown, (hsimple _ _ _ hunknown).1⟩, ⟨htwice, hcut⟩,
    hok, hrefused, hannotate _ _ _ hok hrefused⟩

end Draft

end FieldRules
