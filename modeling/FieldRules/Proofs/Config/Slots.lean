import FieldRules.Tag.Basic
import FieldRules.Proofs.Config.Trees

/-!
# Slots of a tree

A tree is a shape (`Draft.bare`) with slots for tags. `Draft.slot?` is the table of the slots of a
node, with the tag that each of them holds; `Draft.look` finds the slot of a key at the node that a
path of `Step`s leads to. The slots are all that tags can change: trees of one shape with the same
contents of all slots are the same (`Draft.eq_of_look`).

`Draft.put` puts another part in the place of a part. Seen from the whole tree, it leaves the node's
own slots and the other parts as they were, and its slots below the step are those of the new part.
-/

namespace FieldRules

/-- A step from a node to a part of it; a field is told by its position. -/
inductive Step where
  | inside
  | wrapped
  | item
  | key
  | value
  | field (n : Nat)
deriving DecidableEq, Repr

namespace Draft

/-! ## The table of slots -/

/-- The tag that a slot for a parameter holds. -/
def heldParam (k : Key) (slot : Option String) : Option Tag :=
  slot.map fun p => .simple k (some p)

/-- The tag that a slot for a flag holds. -/
def heldFlag (k : Key) (flag : Bool) : Option Tag :=
  if flag then some (.simple k none) else none

/-- The slot of a node for a key, if it has one, with the tag that the slot holds, if any. -/
def slot? : Draft → Key → Option (Option Tag)
  | .scalar .integer limits _, .min => some (heldParam .min limits.lower)
  | .scalar .integer limits _, .max => some (heldParam .max limits.upper)
  | .scalar .float limits _, .min => some (heldParam .min limits.lower)
  | .scalar .float limits _, .max => some (heldParam .max limits.upper)
  | .scalar .string limits _, .minLen => some (heldParam .minLen limits.lower)
  | .scalar .string limits _, .maxLen => some (heldParam .maxLen limits.upper)
  | .scalar _ _ func, .func => some (heldParam .func func)
  | .optional nullable _ _, .nullable => some (heldFlag .nullable nullable)
  | .optional _ notNull _, .notNull => some (heldFlag .notNull notNull)
  | .array size _, .minItems => some (heldParam .minItems size.lower)
  | .array size _, .maxItems => some (heldParam .maxItems size.upper)
  | .map size _ _, .minItems => some (heldParam .minItems size.lower)
  | .map size _ _, .maxItems => some (heldParam .maxItems size.upper)
  | .inline _ func, .func => some (heldParam .func func)
  | .delegated func, .func => some (heldParam .func func)
  | .wrapper _ _ _ func, .func => some (heldParam .func func)
  | .interface _ func, .func => some (heldParam .func func)
  | _, _ => none

/-! ## Parts -/

/-- The part of a node that a step leads to. -/
def child? : Step → Draft → Option Draft
  | .inside, .optional _ _ inner => some inner
  | .wrapped, .wrapper _ _ inner _ => some inner
  | .item, .array _ item => some item
  | .key, .map _ key _ => some key
  | .value, .map _ _ value => some value
  | .field n, .inline fields _ => fields[n]?.map Field.node
  | _, _ => none

/-- The node at a path. -/
def at? : List Step → Draft → Option Draft
  | [], d => some d
  | st :: path, d => (d.child? st).bind (at? path)

/-- The slot for a key at the node that a path leads to. -/
def look (path : List Step) (k : Key) (d : Draft) : Option (Option Tag) :=
  (d.at? path).bind (·.slot? k)

theorem look_cons (st : Step) (path : List Step) (k : Key) (d : Draft) :
    d.look (st :: path) k = (d.child? st).bind (look path k) := by
  rw [look, at?]
  cases d.child? st <;> rfl

/-- The limits of a leaf without those that tags can set. -/
def bareLimits (limits : Limits String) : ScalarKind → Limits String
  | .integer | .float | .string => .none
  | .byte | .bool => limits

mutual

/-- The shape of a tree: the tree with empty slots. -/
def bare : Draft → Draft
  | .scalar kind limits _ => .scalar kind (bareLimits limits kind) none
  | .optional _ _ inner => .optional false false inner.bare
  | .array _ item => .array .none item.bare
  | .map _ key value => .map .none key.bare value.bare
  | .inline fields _ => .inline (bareFields fields) none
  | .delegated _ => .delegated none
  | .wrapper ty mode inner _ => .wrapper ty mode inner.bare none
  | .interface indirect _ => .interface indirect none
  | .skip => .skip

/-- The fields of a struct with empty slots. -/
def bareFields : List (Field Draft) → List (Field Draft)
  | [] => []
  | ⟨member, name, node⟩ :: rest => ⟨member, name, node.bare⟩ :: bareFields rest

end

/-! ## Putting a part in place -/

/-- The node with another part in the place of one that tags can be applied to. -/
def put : Step → Draft → Draft → Draft
  | .inside, .optional nullable notNull _, e => .optional nullable notNull e
  | .wrapped, .wrapper ty mode _ func, e => .wrapper ty mode e func
  | .item, .array size _, e => .array size e
  | .key, .map size _ value, e => .map size e value
  | .value, .map size key _, e => .map size key e
  | _, d, _ => d

variable {st : Step} {d e : Draft}

theorem child?_put (h : d.child? st = some e) (hst : ∀ n, st ≠ .field n) (e' : Draft) :
    (d.put st e').child? st = some e' := by
  cases st <;> cases d <;> first | rfl | contradiction | exact absurd rfl (hst _)

theorem child?_put_of_ne {st' : Step} (h : st' ≠ st) (e' : Draft) :
    (d.put st e').child? st' = d.child? st' := by
  cases st <;> cases d <;> first | rfl | (cases st' <;> first | rfl | exact absurd rfl h)

theorem slot?_put (e' : Draft) (k : Key) : (d.put st e').slot? k = d.slot? k := by
  cases st <;> cases d <;> first | rfl | (cases k <;> rfl)

theorem bare_put (h : d.child? st = some e) {e' : Draft} (he : e'.bare = e.bare) :
    (d.put st e').bare = d.bare := by
  cases st <;> cases d <;> first | rfl | (cases h; simp only [put, bare, he])

/-! ## Slots are all that tags can change -/

theorem heldParam_inj {k : Key} {a b : Option String} (h : heldParam k a = heldParam k b) :
    a = b := by
  cases a <;> cases b <;> simp_all [heldParam]

theorem heldFlag_inj {k : Key} {a b : Bool} (h : heldFlag k a = heldFlag k b) : a = b := by
  cases a <;> cases b <;> simp_all [heldFlag]

theorem limits_eq {k l : Key} {a b : Limits String}
    (hl : some (heldParam k a.lower) = some (heldParam k b.lower))
    (hu : some (heldParam l a.upper) = some (heldParam l b.upper)) : a = b := by
  obtain ⟨lower, upper⟩ := a
  obtain ⟨lower', upper'⟩ := b
  cases heldParam_inj (Option.some.inj hl)
  cases heldParam_inj (Option.some.inj hu)
  rfl

theorem func_eq {a b : Option String}
    (h : some (heldParam .func a) = some (heldParam .func b)) : a = b :=
  heldParam_inj (Option.some.inj h)

/-- Fields of one shape whose slots hold the same are the same. -/
theorem fields_eq {fields fields' : List (Field Draft)}
    (ih : ∀ f ∈ fields, ∀ {d' : Draft}, f.node.bare = d'.bare →
      (∀ path k, f.node.look path k = d'.look path k) → f.node = d')
    (hb : bareFields fields = bareFields fields')
    (h : ∀ (n : Nat) path k, (fields[n]?.map Field.node).bind (look path k) =
      (fields'[n]?.map Field.node).bind (look path k)) : fields = fields' := by
  induction fields generalizing fields' with
  | nil =>
    cases fields' with
    | nil => rfl
    | cons g fields' => cases hb
  | cons f fields ihf =>
    cases fields' with
    | nil => cases hb
    | cons g fields' =>
      simp only [bareFields, List.cons.injEq, Field.mk.injEq] at hb
      obtain ⟨⟨hmember, hname, hnode⟩, hrest⟩ := hb
      have heq := ih f List.mem_cons_self hnode fun path k => h 0 path k
      have htail := ihf (fun f' hf' => ih f' (List.mem_cons_of_mem f hf')) hrest
        fun n path k => h (n + 1) path k
      obtain ⟨member, name, node⟩ := f
      obtain ⟨member', name', node'⟩ := g
      simp only at hmember hname heq
      rw [hmember, hname, heq, htail]

/-- Trees of one shape whose slots hold the same are the same. -/
theorem eq_of_look {d d' : Draft} (hb : d.bare = d'.bare)
    (h : ∀ path k, d.look path k = d'.look path k) : d = d' := by
  induction d using Draft.induct generalizing d' with
  | scalar kind limits func =>
    cases d' with
    | scalar kind' limits' func' =>
      simp only [bare, scalar.injEq] at hb
      obtain ⟨rfl, hlimits, -⟩ := hb
      have hfunc : func = func' := by
        refine func_eq ?_
        have := h [] .func
        cases kind <;> exact this
      rw [hfunc]
      congr 1
      cases kind with
      | integer => exact limits_eq (h [] .min) (h [] .max)
      | float => exact limits_eq (h [] .min) (h [] .max)
      | string => exact limits_eq (h [] .minLen) (h [] .maxLen)
      | byte => exact hlimits
      | bool => exact hlimits
    | _ => cases hb
  | optional nullable notNull inner ih =>
    cases d' with
    | optional nullable' notNull' inner' =>
      simp only [bare, optional.injEq] at hb
      rw [heldFlag_inj (Option.some.inj (h [] .nullable)),
        heldFlag_inj (Option.some.inj (h [] .notNull)),
        ih hb.2.2 fun path k => h (.inside :: path) k]
    | _ => cases hb
  | array size item ih =>
    cases d' with
    | array size' item' =>
      simp only [bare, array.injEq] at hb
      rw [limits_eq (h [] .minItems) (h [] .maxItems), ih hb.2 fun path k => h (.item :: path) k]
    | _ => cases hb
  | map size key value ihk ihv =>
    cases d' with
    | map size' key' value' =>
      simp only [bare, map.injEq] at hb
      rw [limits_eq (h [] .minItems) (h [] .maxItems), ihk hb.2.1 fun path k => h (.key :: path) k,
        ihv hb.2.2 fun path k => h (.value :: path) k]
    | _ => cases hb
  | inline fields func ih =>
    cases d' with
    | inline fields' func' =>
      simp only [bare, inline.injEq] at hb
      have hfields : fields = fields' := by
        refine fields_eq (fun f hf => ih f hf) hb.1 fun n path k => ?_
        have hn := h (.field n :: path) k
        rw [look_cons, look_cons] at hn
        exact hn
      rw [func_eq (h [] .func), hfields]
    | _ => cases hb
  | delegated func =>
    cases d' with
    | delegated func' => rw [func_eq (h [] .func)]
    | _ => cases hb
  | wrapper ty mode inner func ih =>
    cases d' with
    | wrapper ty' mode' inner' func' =>
      simp only [bare, wrapper.injEq] at hb
      obtain ⟨rfl, rfl, hinner, -⟩ := hb
      rw [func_eq (h [] .func), ih hinner fun path k => h (.wrapped :: path) k]
    | _ => cases hb
  | interface indirect func =>
    cases d' with
    | interface indirect' func' =>
      simp only [bare, interface.injEq] at hb
      rw [func_eq (h [] .func), hb.1]
    | _ => cases hb
  | skip =>
    cases d' with
    | skip => rfl
    | _ => cases hb

end Draft

end FieldRules
