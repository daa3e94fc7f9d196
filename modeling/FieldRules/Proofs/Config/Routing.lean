import FieldRules.Proofs.Config.Slots

/-!
# Routes of tags

Where a tag belongs, said without applying it. A node hands a tag inward (`Draft.inward?`) or keeps
it; a tag with a scope leads to the part that the scope is about (`Draft.part?`). `Routed ks d path`
follows a list of keys in this way: those of the scopes around a tag, outermost first, and then the
tag's own.

`Stores d d' ws` says that `d'` is the tree `d` with the tags `ws` in slots that were empty, each in
the one that its keys lead to, and with all other slots as they were. Routes depend on the shape of
the tree alone (`Routed.of_bare`), so that tags that are stored one after the other can be found by
their routes in the tree before all of them (`Stores.append`).
-/

namespace FieldRules

/-! ## Tags inside tags -/

/-- A tag inside another one, with the scopes around it, outermost first. -/
structure Occurrence where
  scopes : List Key
  tag : Tag

namespace Occurrence

/-- The occurrence inside one more scope. -/
def under (k : Key) (o : Occurrence) : Occurrence := { o with scopes := k :: o.scopes }

/-- The keys that lead to a tag: those of its scopes and its own. -/
def keys (o : Occurrence) : List Key := o.scopes ++ [o.tag.key]

theorem keys_under (k : Key) (o : Occurrence) : (o.under k).keys = k :: o.keys := rfl

end Occurrence

namespace Tag

def isSimple : Tag → Bool
  | simple .. => true
  | scope .. => false

/-- The tag has the shape that its key needs. -/
def Fits : Tag → Prop
  | simple k none => k.shape = .flag
  | simple k (some _) => k.shape = .param
  | scope k _ => k.shape = .scope

mutual

/-- The tag and all tags inside it. -/
def occurrences : Tag → List Occurrence
  | .simple k p => [⟨[], .simple k p⟩]
  | .scope k ts => ⟨[], .scope k ts⟩ :: (occurrencesAll ts).map (Occurrence.under k)

/-- The tags of a list and all tags inside them. -/
def occurrencesAll : List Tag → List Occurrence
  | [] => []
  | t :: ts => t.occurrences ++ occurrencesAll ts

end

/-- The tags without a scope in a tag. -/
def leaves (t : Tag) : List Occurrence := t.occurrences.filter (·.tag.isSimple)

/-- The tags without a scope in the tags of a list. -/
def leavesAll (ts : List Tag) : List Occurrence := (occurrencesAll ts).filter (·.tag.isSimple)

theorem leaves_scope (k : Key) (ts : List Tag) :
    (scope k ts).leaves = (leavesAll ts).map (Occurrence.under k) := by
  rw [leaves, leavesAll, occurrences, List.filter_cons_of_neg (by exact Bool.false_ne_true),
    List.filter_map]
  rfl

theorem leavesAll_cons (t : Tag) (ts : List Tag) :
    leavesAll (t :: ts) = t.leaves ++ leavesAll ts := by
  rw [leavesAll, occurrencesAll, List.filter_append]
  rfl

end Tag

/-! ## Routes -/

namespace Draft

/-- The part that a node hands a tag to. An optional value keeps its flags; a wrapper keeps chains,
and the sizes of a collection, which it refuses. -/
def inward? (k : Key) : Draft → Option (Step × Draft)
  | .optional _ _ inner =>
    if k = .nullable ∨ k = .notNull then none else some (.inside, inner)
  | .wrapper _ _ inner _ =>
    if k = .func ∨ k = .minItems ∨ k = .maxItems then none else some (.wrapped, inner)
  | _ => none

/-- The part of a node that a scope is about. -/
def part? : Key → Draft → Option (Step × Draft)
  | .item, .array _ item => some (.item, item)
  | .key, .map _ key _ => some (.key, key)
  | .value, .map _ _ value => some (.value, value)
  | _, _ => none

end Draft

open Draft (inward? part?)

/-- The keys lead from the node to the node at the path. -/
inductive Routed : List Key → Draft → List Step → Prop
  /-- The node keeps the last key. -/
  | stays {k d} (h : inward? k d = none) : Routed [k] d []
  /-- The node hands the key inward. -/
  | inward {k ks d st e path} (h : inward? k d = some (st, e)) (hr : Routed (k :: ks) e path) :
    Routed (k :: ks) d (st :: path)
  /-- The node has the part that the scope of the key is about. -/
  | scope {k ks d st e path} (h : inward? k d = none) (hp : part? k d = some (st, e))
    (hr : Routed ks e path) : Routed (k :: ks) d (st :: path)

namespace Draft

variable {k : Key} {d e : Draft} {st : Step}

theorem child?_of_inward? (h : inward? k d = some (st, e)) :
    d.child? st = some e ∧ ∀ n, st ≠ .field n := by
  unfold inward? at h
  split at h
  · split at h
    · cases h
    · cases h
      exact ⟨rfl, nofun⟩
  · split at h
    · cases h
    · cases h
      exact ⟨rfl, nofun⟩
  · cases h

theorem child?_of_part? (h : part? k d = some (st, e)) :
    d.child? st = some e ∧ ∀ n, st ≠ .field n := by
  unfold part? at h
  split at h
  · cases h
    exact ⟨rfl, nofun⟩
  · cases h
    exact ⟨rfl, nofun⟩
  · cases h
    exact ⟨rfl, nofun⟩
  · cases h

theorem shape_of_part? (h : part? k d = some (st, e)) : k.shape = .scope := by
  unfold part? at h
  split at h
  · rfl
  · rfl
  · rfl
  · cases h

theorem inward?_bare (k : Key) (d : Draft) :
    inward? k d.bare = (inward? k d).map fun p => (p.1, p.2.bare) := by
  cases d with
  | optional nullable notNull inner =>
    rw [bare, inward?, inward?]
    split <;> rfl
  | wrapper ty mode inner func =>
    rw [bare, inward?, inward?]
    split <;> rfl
  | _ => rfl

theorem part?_bare (k : Key) (d : Draft) :
    part? k d.bare = (part? k d).map fun p => (p.1, p.2.bare) := by
  cases d <;> cases k <;> rfl

end Draft

namespace Routed

variable {ks : List Key} {d d' : Draft} {path : List Step}

theorem bare (h : Routed ks d path) : Routed ks d.bare path := by
  induction h with
  | stays h => exact .stays (by rw [Draft.inward?_bare, h]; rfl)
  | inward h hr ih => exact .inward (by rw [Draft.inward?_bare, h]; rfl) ih
  | scope h hp hr ih =>
    exact .scope (by rw [Draft.inward?_bare, h]; rfl) (by rw [Draft.part?_bare, hp]; rfl) ih

theorem of_bare (h : Routed ks d.bare path) : Routed ks d path := by
  generalize hd : d.bare = b at h
  induction h generalizing d with
  | stays h =>
    subst hd
    rw [Draft.inward?_bare, Option.map_eq_none_iff] at h
    exact .stays h
  | inward h hr ih =>
    subst hd
    rw [Draft.inward?_bare, Option.map_eq_some_iff] at h
    obtain ⟨⟨st, e⟩, he, hp⟩ := h
    cases hp
    exact .inward he (ih rfl)
  | scope h hp hr ih =>
    subst hd
    rw [Draft.inward?_bare, Option.map_eq_none_iff] at h
    rw [Draft.part?_bare, Option.map_eq_some_iff] at hp
    obtain ⟨⟨st, e⟩, he, hp⟩ := hp
    cases hp
    exact .scope h he (ih rfl)

/-- Routes depend on the shape of a tree alone. -/
theorem of_bare_eq (h : Routed ks d path) (hb : d.bare = d'.bare) : Routed ks d' path :=
  of_bare (hb ▸ h.bare)

/-- Keys lead to one node. -/
theorem unique {path' : List Step} (h : Routed ks d path) (h' : Routed ks d path') :
    path = path' := by
  induction h generalizing path' with
  | stays h =>
    cases h' with
    | stays => rfl
    | inward hi => rw [h] at hi; cases hi
    | scope _ _ hr => cases hr
  | inward h hr ih =>
    cases h' with
    | stays hn => rw [h] at hn; cases hn
    | inward hi hr' =>
      rw [h] at hi
      cases hi
      rw [ih hr']
    | scope hn => rw [h] at hn; cases hn
  | scope h hp hr ih =>
    cases h' with
    | stays => cases hr
    | inward hi => rw [h] at hi; cases hi
    | scope _ hp' hr' =>
      rw [hp] at hp'
      cases hp'
      rw [ih hr']

end Routed

/-! ## Stored tags -/

/-- A tag in the slot of the node at a path. -/
structure Write extends Occurrence where
  path : List Step

namespace Write

/-- The slot, by its node and its key. -/
def place (w : Write) : List Step × Key := (w.path, w.tag.key)

/-- The tag as it is stored below a step. -/
def below (st : Step) (w : Write) : Write := { w with path := st :: w.path }

/-- The tag as it is stored by a scope of `k` below a step. -/
def belowScope (k : Key) (st : Step) (w : Write) : Write := ⟨w.toOccurrence.under k, st :: w.path⟩

end Write

/-- The tree `d'` is the tree `d` with the tags `ws` stored in slots that were empty. -/
structure Stores (d d' : Draft) (ws : List Write) : Prop where
  /-- The trees have one shape. -/
  bare : d'.bare = d.bare
  /-- Every tag is stored where its keys lead to. -/
  routed : ∀ w ∈ ws, Routed w.keys d w.path
  /-- Different tags are stored in different slots. -/
  nodup : (ws.map Write.place).Nodup
  /-- The slots were empty. -/
  empty : ∀ w ∈ ws, d.look w.path w.tag.key = some none
  /-- The slots hold the tags. -/
  stored : ∀ w ∈ ws, d'.look w.path w.tag.key = some (some w.tag)
  /-- All other slots are as they were. -/
  frame : ∀ path k, (path, k) ∉ ws.map Write.place → d'.look path k = d.look path k

namespace Stores

variable {d d' d'' : Draft} {ws vs : List Write}

theorem nil (d : Draft) : Stores d d [] where
  bare := rfl
  routed := fun _ hw => (nomatch hw)
  nodup := List.nodup_nil
  empty := fun _ hw => (nomatch hw)
  stored := fun _ hw => (nomatch hw)
  frame := fun _ _ _ => rfl

/-- A slot that is empty after tags were stored is not one of theirs. -/
theorem not_mem_place (h : Stores d d' ws) {path : List Step} {k : Key}
    (hempty : d'.look path k = some none) : (path, k) ∉ ws.map Write.place := by
  intro hmem
  obtain ⟨w, hw, hplace⟩ := List.mem_map.mp hmem
  cases hplace
  rw [h.stored w hw] at hempty
  cases hempty

/-- Tags that are stored one after the other. -/
theorem append (h : Stores d d' ws) (h' : Stores d' d'' vs) : Stores d d'' (ws ++ vs) := by
  have hfresh : ∀ v ∈ vs, v.place ∉ ws.map Write.place :=
    fun v hv => h.not_mem_place (h'.empty v hv)
  have hkeep : ∀ w ∈ ws, w.place ∉ vs.map Write.place := by
    intro w hw hmem
    obtain ⟨v, hv, hplace⟩ := List.mem_map.mp hmem
    exact hfresh v hv (hplace ▸ List.mem_map_of_mem hw)
  refine ⟨h'.bare.trans h.bare, ?_, ?_, ?_, ?_, ?_⟩
  · intro w hw
    rcases List.mem_append.mp hw with hw | hw
    · exact h.routed w hw
    · exact (h'.routed w hw).of_bare_eq h.bare
  · rw [List.map_append, List.nodup_append]
    refine ⟨h.nodup, h'.nodup, ?_⟩
    intro x hx y hy hxy
    obtain ⟨v, hv, rfl⟩ := List.mem_map.mp hy
    exact hfresh v hv (hxy ▸ hx)
  · intro w hw
    rcases List.mem_append.mp hw with hw | hw
    · exact h.empty w hw
    · rw [← h.frame _ _ (hfresh w hw)]
      exact h'.empty w hw
  · intro w hw
    rcases List.mem_append.mp hw with hw | hw
    · rw [h'.frame _ _ (hkeep w hw)]
      exact h.stored w hw
    · exact h'.stored w hw
  · intro path k hmem
    rw [List.map_append, List.mem_append, not_or] at hmem
    rw [h'.frame path k hmem.2, h.frame path k hmem.1]

/-- Tags stored in a part, seen from the node. `f` says how the routes continue those of the
part. -/
theorem put {e e' : Draft} {st : Step} (h : Stores e e' ws)
    (hchild : d.child? st = some e ∧ ∀ n, st ≠ .field n) {f : Write → Write}
    (hpath : ∀ w, (f w).path = st :: w.path) (htag : ∀ w, (f w).tag = w.tag)
    (hroute : ∀ w ∈ ws, Routed w.keys e w.path → Routed (f w).keys d (st :: w.path)) :
    Stores d (d.put st e') (ws.map f) := by
  have hput := Draft.child?_put hchild.1 hchild.2 e'
  have hplace : ∀ w, (f w).place = (st :: w.path, w.tag.key) := by
    intro w
    rw [Write.place, hpath, htag]
  have hmap : (ws.map f).map Write.place = (ws.map Write.place).map fun q => (st :: q.1, q.2) := by
    rw [List.map_map, List.map_map]
    exact List.map_congr_left fun w _ => hplace w
  refine ⟨Draft.bare_put hchild.1 h.bare, ?_, ?_, ?_, ?_, ?_⟩
  · intro v hv
    obtain ⟨w, hw, rfl⟩ := List.mem_map.mp hv
    rw [hpath]
    exact hroute w hw (h.routed w hw)
  · rw [hmap]
    refine List.Pairwise.map _ (fun p q hpq => ?_) h.nodup
    intro heq
    refine hpq ?_
    obtain ⟨path, k⟩ := p
    obtain ⟨path', k'⟩ := q
    simp only [Prod.mk.injEq, List.cons.injEq, true_and] at heq
    rw [heq.1, heq.2]
  · intro v hv
    obtain ⟨w, hw, rfl⟩ := List.mem_map.mp hv
    rw [hpath, htag, Draft.look_cons, hchild.1]
    exact h.empty w hw
  · intro v hv
    obtain ⟨w, hw, rfl⟩ := List.mem_map.mp hv
    rw [hpath, htag, Draft.look_cons, hput]
    exact h.stored w hw
  · intro path k hmem
    cases path with
    | nil => exact Draft.slot?_put e' k
    | cons st' path =>
      rw [Draft.look_cons, Draft.look_cons]
      by_cases hst : st' = st
      · subst hst
        rw [hput, hchild.1]
        refine h.frame path k fun hin => hmem ?_
        rw [hmap]
        exact List.mem_map_of_mem hin
      · rw [Draft.child?_put_of_ne hst]

/-- A tag stored in a slot of the node itself. -/
theorem own {t : Tag} (hin : inward? t.key d = none) (hbare : d'.bare = d.bare)
    (hchild : ∀ st, d'.child? st = d.child? st) (hempty : d.slot? t.key = some none)
    (hstored : d'.slot? t.key = some (some t)) (hother : ∀ k, k ≠ t.key → d'.slot? k = d.slot? k) :
    Stores d d' [⟨⟨[], t⟩, []⟩] := by
  refine ⟨hbare, ?_, ?_, ?_, ?_, ?_⟩
  · intro w hw
    cases List.mem_singleton.mp hw
    exact .stays hin
  · exact List.nodup_cons.mpr ⟨List.not_mem_nil, List.nodup_nil⟩
  · intro w hw
    cases List.mem_singleton.mp hw
    exact hempty
  · intro w hw
    cases List.mem_singleton.mp hw
    exact hstored
  · intro path k hmem
    cases path with
    | nil =>
      refine hother k fun hk => hmem ?_
      rw [hk]
      exact List.mem_singleton.mpr rfl
    | cons st path => rw [Draft.look_cons, Draft.look_cons, hchild]

end Stores

end FieldRules
