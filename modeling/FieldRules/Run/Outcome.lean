import FieldRules.Failure

/-!
# Outcomes

What comes of running checks: the custom validators that ran, in order, and the first failure.
Checks after a failure do not run (`Outcome.andThen`).
-/

namespace FieldRules

/-- What comes of running checks. -/
structure Outcome where
  called : List String
  failure : Option Failure
deriving DecidableEq, Repr

namespace Outcome

/-- Nothing ran and nothing failed. -/
def pass : Outcome := ⟨[], none⟩

/-- A failed check. -/
def fail (f : Failure) : Outcome := ⟨[], some f⟩

/-- A check that fails in one case. -/
def failIf (bad : Bool) (f : Failure) : Outcome := if bad then fail f else pass

/-- One outcome and then, unless it is a failure, another. -/
def andThen (a b : Outcome) : Outcome :=
  match a.failure with
  | some _ => a
  | none => ⟨a.called ++ b.called, b.failure⟩

/-- The outcomes for the members of a list, up to the first failure. -/
def forEach {α : Type} (run : α → Outcome) : List α → Outcome
  | [] => pass
  | a :: as =>
    let first := run a
    match first.failure with
    | some _ => first
    | none => first.andThen (forEach run as)

/-- The outcome as the holder of the value reports it, at its own field `parent`. -/
def under (parent : String) (o : Outcome) : Outcome :=
  { o with failure := o.failure.map (·.under parent) }

theorem pass_andThen (o : Outcome) : pass.andThen o = o := rfl

theorem andThen_pass (o : Outcome) : o.andThen pass = o := by
  obtain ⟨called, failure⟩ := o
  cases failure <;> simp [andThen, pass]

theorem andThen_assoc (a b c : Outcome) : (a.andThen b).andThen c = a.andThen (b.andThen c) := by
  obtain ⟨ca, fa⟩ := a
  obtain ⟨cb, fb⟩ := b
  cases fa <;> cases fb <;> simp [andThen]

theorem forEach_cons {α : Type} (run : α → Outcome) (a : α) (as : List α) :
    forEach run (a :: as) = (run a).andThen (forEach run as) := by
  rw [forEach]
  cases h : (run a).failure <;> simp [andThen, h]

end Outcome

end FieldRules
