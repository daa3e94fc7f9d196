import FieldRules.Config.Plan

/-!
# Induction on trees

A struct holds the trees of its fields in a list, so the recursors of `Draft` and `Plan` speak about
lists of fields as well. The principles here assume the statement for the node of every field
instead.
-/

namespace FieldRules

/-- Induction on a tree that is being configured. -/
@[elab_as_elim]
theorem Draft.induct {motive : Draft → Prop}
    (scalar : ∀ kind limits func, motive (.scalar kind limits func))
    (optional : ∀ nullable notNull inner, motive inner → motive (.optional nullable notNull inner))
    (array : ∀ size item, motive item → motive (.array size item))
    (map : ∀ size key value, motive key → motive value → motive (.map size key value))
    (inline : ∀ fields func, (∀ f ∈ fields, motive f.node) → motive (.inline fields func))
    (delegated : ∀ func, motive (.delegated func))
    (wrapper : ∀ ty mode inner func, motive inner → motive (.wrapper ty mode inner func))
    (interface : ∀ indirect func, motive (.interface indirect func))
    (skip : motive .skip) (d : Draft) : motive d :=
  @Draft.rec motive (fun fields => ∀ f ∈ fields, motive f.node) (fun f => motive f.node)
    scalar optional array map inline delegated wrapper interface skip
    (fun _ h => nomatch h)
    (fun _ _ head tail f hf => by
      cases hf with
      | head => exact head
      | tail _ hf => exact tail f hf)
    (fun _ _ _ node => node) d

/-- Induction on a plan. -/
@[elab_as_elim]
theorem Plan.induct {motive : Plan → Prop}
    (scalar : ∀ check chain, motive (.scalar check chain))
    (optional : ∀ nullable inner, motive inner → motive (.optional nullable inner))
    (array : ∀ size item, motive item → motive (.array size item))
    (map : ∀ size key value, motive key → motive value → motive (.map size key value))
    (inline : ∀ fields chain, (∀ f ∈ fields, motive f.node) → motive (.inline fields chain))
    (delegated : ∀ chain, motive (.delegated chain))
    (wrapper : ∀ ty mode inner chain, motive inner → motive (.wrapper ty mode inner chain))
    (interface : ∀ indirect chain, motive (.interface indirect chain))
    (skip : motive .skip) (p : Plan) : motive p :=
  @Plan.rec motive (fun fields => ∀ f ∈ fields, motive f.node) (fun f => motive f.node)
    scalar optional array map inline delegated wrapper interface skip
    (fun _ h => nomatch h)
    (fun _ _ head tail f hf => by
      cases hf with
      | head => exact head
      | tail _ hf => exact tail f hf)
    (fun _ _ _ node => node) p

end FieldRules
