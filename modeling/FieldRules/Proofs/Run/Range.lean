import FieldRules.Run.Value
import FieldRules.Bound

/-!
# Integers in values

The integers of a program have at most 128 bits, and those that are below zero are signed. So no
integer in a value is below the least number of 128 bits (`Value.InRange`), while an unsigned one
may be above the greatest. What code reaches from a value in range is in range.
-/

namespace FieldRules.Value

/-- No integer in the value is below the least number of 128 bits. -/
inductive InRange : Value → Prop
  | integer {n : Int} (h : Bound.leastInteger ≤ n) : InRange (.integer n)
  | float (format : Format) (x : Floating) : InRange (.float format x)
  | text (s : String) : InRange (.text s)
  | flag (b : Bool) : InRange (.flag b)
  | absent : InRange .absent
  | present {v : Value} (h : InRange v) : InRange (.present v)
  | sequence {vs : List Value} (h : ∀ v ∈ vs, InRange v) : InRange (.sequence vs)
  | mapping {es : List (Value × Value)} (hk : ∀ e ∈ es, InRange e.1) (hv : ∀ e ∈ es, InRange e.2) :
    InRange (.mapping es)
  | record (name : String) {fields : List (Member × Value)} (h : ∀ f ∈ fields, InRange f.2) :
    InRange (.record name fields)
  | pointer {v : Value} (h : InRange v) : InRange (.pointer v)
  | unit : InRange .unit

namespace InRange

theorem le_toInt {v : Value} (h : v.InRange) : Bound.leastInteger ≤ v.toInt := by
  unfold toInt
  split
  · cases h with
    | integer h => exact h
  · decide

theorem target {v : Value} (h : v.InRange) : v.target.InRange := by
  fun_induction Value.target v with
  | case1 v ih =>
    cases h with
    | pointer h => exact ih h
  | case2 v => exact h

theorem inside {v u : Value} (h : v.InRange) (hu : v.inside? = some u) : u.InRange := by
  cases h with
  | present h => cases hu; exact h
  | _ => cases hu

theorem items {v : Value} (h : v.InRange) : ∀ u ∈ v.items, u.InRange := by
  intro u hu
  unfold Value.items at hu
  split at hu
  next vs hv =>
    have ht := h.target
    rw [hv] at ht
    cases ht with
    | sequence hs => exact hs u hu
  next => cases hu

theorem entries {v : Value} (h : v.InRange) : ∀ e ∈ v.entries, e.1.InRange ∧ e.2.InRange := by
  intro e he
  unfold Value.entries at he
  split at he
  next es hv =>
    have ht := h.target
    rw [hv] at ht
    cases ht with
    | mapping hk hv => exact ⟨hk e he, hv e he⟩
  next => cases he

theorem member {v : Value} (h : v.InRange) (field : Member) : (v.member field).InRange := by
  unfold Value.member
  split
  next name fields hv =>
    have ht := h.target
    rw [hv] at ht
    cases ht with
    | record _ hf =>
      cases hl : fields.lookup field with
      | none => exact .unit
      | some u =>
        obtain ⟨before, after, rfl, -⟩ := List.lookup_eq_some_iff.mp hl
        exact hf (field, u) (List.mem_append_right before List.mem_cons_self)
  next => exact .unit

end InRange

end FieldRules.Value
